import S3o.Config

/-!
# What `validate` accepts

The conditions on a configuration are inequalities between integers, and `validate` tests them with
machine sums. The two agree unless a concurrency is the largest `usize` where its sum is computed: then
the sum overflows, and `validate` panics or compares with zero.

* `Decides`: a computation that returns a value under a condition, and an error otherwise;
* `S3ConfigBuilder.resolved`, `Acceptable`: the configuration of a builder and the conditions on it;
* `S3ConfigBuilder.Overflows`: the builders whose validation overflows;
* **`validate_exact_iff`**: `validate` decides the conditions for all the others, and only for them;
* `defaults_decide`, `maxThroughput_decides`: the values of the crate need only the required fields.
-/

namespace S3o

/-! ## Computations that decide a condition -/

section

variable {α β : Type} {x : Checked α} {f : α → Checked β} {P Q : Prop} {a : α} {b : β}

/-- **The computation returns `a` if `P` holds, and an error otherwise.** It does not panic. -/
def Decides (x : Checked α) (P : Prop) (a : α) : Prop :=
  ∃ r, x.run = some r ∧ ∀ a', r = .ok a' ↔ P ∧ a' = a

theorem decides_pure (a : α) : Decides (pure a) True a :=
  ⟨.ok a, rfl, fun a' => by simp [eq_comm]⟩

theorem Decides.reach (hx : Decides x P a) (hP : P) : (x >>= f).run = (f a).run := by
  obtain ⟨r, hr, ha⟩ := hx
  obtain rfl := (ha a).mpr ⟨hP, rfl⟩
  rw [ExceptT.run_bind, hr]
  rfl

theorem Decides.bind (hx : Decides x P a) (hf : P → Decides (f a) Q b) :
    Decides (x >>= f) (P ∧ Q) b := by
  by_cases hP : P
  · obtain ⟨r, hr, hb⟩ := hf hP
    refine ⟨r, (hx.reach hP).trans hr, fun b' => ?_⟩
    rw [hb, and_iff_right hP]
  · obtain ⟨r, hr, ha⟩ := hx
    cases r with
    | ok a' => exact absurd ((ha a').mp rfl).1 hP
    | error e =>
      refine ⟨.error e, ?_, fun b' => ?_⟩
      · rw [ExceptT.run_bind, hr]
        rfl
      · simp [hP]

theorem Decides.congr (hx : Decides x P a) (h : P ↔ Q) : Decides x Q a := by
  rwa [← propext h]

/-! The tests of `validate`. -/

/-- Set, and not empty. -/
def Given (v : Option String) : Prop := ∃ s, v = some s ∧ s ≠ ""

theorem decides_required (v : Option String) (name : String) :
    Decides (required v name) (Given v) (v.getD "") := by
  unfold required Given
  cases v with
  | none => exact ⟨.error _, rfl, fun s => by simp⟩
  | some s =>
    by_cases hs : s = ""
    · subst hs
      exact ⟨.error _, rfl, fun s => by simp⟩
    · have hne : (!s.isEmpty) = true := by simpa using hs
      rw [Option.filter_some, if_pos hne]
      exact ⟨.ok s, rfl, fun s' => by simp [hs, eq_comm]⟩

theorem decides_rejectIf (p : Prop) [Decidable p] (message : String) :
    Decides (rejectIf p message) (¬ p) () := by
  unfold rejectIf
  by_cases hp : p
  · rw [if_pos hp]
    exact ⟨.error _, rfl, fun _ => by simp [hp]⟩
  · rw [if_neg hp]
    exact (decides_pure ()).congr (by simp [hp])

theorem decides_addUsize (checks : Bool) {c : UInt64} (hc : c.toNat < 2 ^ 64 - 1) :
    Decides (addUsize checks c 1) True (c + 1) := by
  unfold addUsize
  rw [if_neg]
  · exact decides_pure _
  · simp only [UInt64.reduceToNat]
    omega

theorem addUsize_panics {c : UInt64} (hc : c.toNat = 2 ^ 64 - 1) (f : UInt64 → Checked β) :
    (addUsize true c 1 >>= f).run = none := by
  have hover : 2 ^ 64 ≤ c.toNat + (1 : UInt64).toNat := by
    simp only [UInt64.reduceToNat]
    omega
  have hpanic : addUsize true c 1 = Checked.panic := if_pos ⟨rfl, hover⟩
  rw [hpanic]
  rfl

end

theorem Decides.room {β : Type} {f : Checked β} {Q : Prop} {b : β} {checks : Bool} {conc conn : UInt64}
    {message : UInt64 → String} (hc : conc.toNat < 2 ^ 64 - 1)
    (hf : conc.toNat + 1 ≤ conn.toNat → Decides f Q b) :
    Decides (addUsize checks conc 1 >>= fun needed =>
      rejectIf (conn < needed) (message needed) >>= fun _ => f) (conc.toNat + 1 ≤ conn.toNat ∧ Q) b := by
  have hlt : ¬ conn < conc + 1 ↔ conc.toNat + 1 ≤ conn.toNat := by
    rw [UInt64.lt_iff_toNat_lt, toNat_succ hc, not_lt]
  refine ((decides_addUsize checks hc).bind fun _ =>
    ((decides_rejectIf _ _).congr hlt).bind fun h => hf h).congr ?_
  rw [true_and]

/-! ## The conditions on a configuration -/

namespace S3ConfigBuilder

variable (b : S3ConfigBuilder)

/-- The configuration with the values supplied and the defaults for the others. -/
def resolved : S3Config where
  bucket := b.bucket.getD ""
  region := b.region.getD ""
  accessKeyId := b.accessKeyId.getD ""
  secretAccessKey := b.secretAccessKey.getD ""
  sessionToken := b.sessionToken
  endpoint := b.endpoint
  pathStyle := b.pathStyle.getD false
  chunkSize := b.chunkSize.getD chunkDefault
  multipartThreshold := b.multipartThreshold.getD thresholdDefault
  readConnections := b.readConnections.getD readConnDefault
  writeConnections := b.writeConnections.getD writeConnDefault
  readConcurrency := b.readConcurrency.getD readConcDefault
  writeConcurrency := b.writeConcurrency.getD writeConcDefault
  uploadChecksum := b.uploadChecksum.getD false
  timeout := b.timeout.getD timeoutDefault
  maxRetries := b.maxRetries.getD retriesDefault

/-- The conditions that are tested before a sum is computed. -/
structure Ready : Prop where
  bucket : Given b.bucket
  region : Given b.region
  accessKeyId : Given b.accessKeyId
  secretAccessKey : Given b.secretAccessKey
  chunk : 5 * 1024 * 1024 ≤ b.resolved.chunkSize.toNat
  reads : 1 ≤ b.resolved.readConcurrency.toNat
  writes : 1 ≤ b.resolved.writeConcurrency.toNat

/-- **The conditions on a configuration**, between integers. -/
structure Acceptable : Prop extends Ready b where
  readConnections : b.resolved.readConcurrency.toNat + 1 ≤ b.resolved.readConnections.toNat
  writeConnections : b.resolved.writeConcurrency.toNat + 1 ≤ b.resolved.writeConnections.toNat

/-- **The validation computes a sum that is no `usize`**: of the read concurrency, or of the write
concurrency when the read connections are enough. -/
def Overflows : Prop :=
  b.Ready ∧ (b.resolved.readConcurrency.toNat = 2 ^ 64 - 1 ∨
    b.resolved.readConcurrency.toNat + 1 ≤ b.resolved.readConnections.toNat ∧
      b.resolved.writeConcurrency.toNat = 2 ^ 64 - 1)

/-- **`validate` is exact**: in a build with overflow checks and in one without it returns the values
supplied or their defaults under the conditions on them, and an error otherwise. -/
def Exact : Prop := ∀ checks, Decides (b.validate checks) b.Acceptable b.resolved

variable {b : S3ConfigBuilder}

theorem chunk_iff (c : UInt64) : ¬ c < minChunk ↔ 5 * 1024 * 1024 ≤ c.toNat := by
  rw [UInt64.lt_iff_toNat_lt, not_lt]
  rfl

theorem concurrency_iff (r w : UInt64) : ¬ (r = 0 ∨ w = 0) ↔ 1 ≤ r.toNat ∧ 1 ≤ w.toNat := by
  have hpos : ∀ c : UInt64, ¬ c = 0 ↔ 1 ≤ c.toNat := fun c => by
    rw [← UInt64.toNat_inj, UInt64.toNat_zero]
    omega
  rw [not_or, hpos, hpos]

theorem exact_of_not_overflows (h : ¬ b.Overflows) : b.Exact := by
  intro checks
  -- no sum that is computed overflows
  have hread : b.Ready → b.resolved.readConcurrency.toNat < 2 ^ 64 - 1 := fun hr => by
    have := b.resolved.readConcurrency.toNat_lt
    have hne : _ ≠ 2 ^ 64 - 1 := fun he => h ⟨hr, Or.inl he⟩
    omega
  have hwrite : b.Ready → b.resolved.readConcurrency.toNat + 1 ≤
      b.resolved.readConnections.toNat → b.resolved.writeConcurrency.toNat < 2 ^ 64 - 1 :=
    fun hr hroom => by
      have := b.resolved.writeConcurrency.toNat_lt
      have hne : _ ≠ 2 ^ 64 - 1 := fun he => h ⟨hr, Or.inr ⟨hroom, he⟩⟩
      omega
  unfold validate
  refine ((decides_required b.bucket "bucket").bind fun h₁ =>
    (decides_required b.region "region").bind fun h₂ =>
    (decides_required b.accessKeyId "access_key_id").bind fun h₃ =>
    (decides_required b.secretAccessKey "secret_access_key").bind fun h₄ =>
    ((decides_rejectIf _ _).congr (chunk_iff _)).bind fun h₅ =>
    ((decides_rejectIf _ _).congr (concurrency_iff _ _)).bind fun h₆ =>
    Decides.room (hread ⟨h₁, h₂, h₃, h₄, h₅, h₆.1, h₆.2⟩) fun h₇ =>
    Decides.room (hwrite ⟨h₁, h₂, h₃, h₄, h₅, h₆.1, h₆.2⟩ h₇) fun _ => decides_pure _).congr ?_
  constructor
  · rintro ⟨h₁, h₂, h₃, h₄, h₅, h₆, h₇, h₈, -⟩
    exact ⟨⟨h₁, h₂, h₃, h₄, h₅, h₆.1, h₆.2⟩, h₇, h₈⟩
  · rintro ⟨⟨h₁, h₂, h₃, h₄, h₅, h₆, h₆'⟩, h₇, h₈⟩
    exact ⟨h₁, h₂, h₃, h₄, h₅, ⟨h₆, h₆'⟩, h₇, h₈, trivial⟩

/-- With overflow checks the validation panics. -/
theorem Overflows.panics (h : b.Overflows) : (b.validate true).run = none := by
  obtain ⟨hr, h⟩ := h
  unfold validate
  refine ((decides_required b.bucket "bucket").reach hr.bucket).trans ?_
  refine ((decides_required b.region "region").reach hr.region).trans ?_
  refine ((decides_required b.accessKeyId "access_key_id").reach hr.accessKeyId).trans ?_
  refine ((decides_required b.secretAccessKey "secret_access_key").reach hr.secretAccessKey).trans ?_
  refine ((decides_rejectIf _ _).reach ((chunk_iff _).mpr hr.chunk)).trans ?_
  refine ((decides_rejectIf _ _).reach ((concurrency_iff _ _).mpr ⟨hr.reads, hr.writes⟩)).trans ?_
  rcases h with h | ⟨hroom, h⟩
  · exact addUsize_panics h _
  · have hread : b.resolved.readConcurrency.toNat < 2 ^ 64 - 1 := by
      have := b.resolved.readConnections.toNat_lt
      omega
    refine ((decides_addUsize true hread).reach trivial).trans ?_
    refine ((decides_rejectIf _ _).reach ?_).trans ?_
    · rw [UInt64.lt_iff_toNat_lt, toNat_succ hread, not_lt]
      exact hroom
    · exact addUsize_panics h _

/-- **`validate` is exact if and only if it computes no sum that overflows.** -/
theorem validate_exact_iff (b : S3ConfigBuilder) : b.Exact ↔ ¬ b.Overflows := by
  refine ⟨fun h ho => ?_, exact_of_not_overflows⟩
  obtain ⟨r, hr, -⟩ := h true
  rw [ho.panics] at hr
  cases hr

/-- The required fields are there. -/
def Named (b : S3ConfigBuilder) : Prop :=
  Given b.bucket ∧ Given b.region ∧ Given b.accessKeyId ∧ Given b.secretAccessKey

/-- If the numbers pass the checks only the required fields are left. -/
theorem decides_named (hchunk : 5 * 1024 * 1024 ≤ b.resolved.chunkSize.toNat)
    (hreads : 1 ≤ b.resolved.readConcurrency.toNat) (hwrites : 1 ≤ b.resolved.writeConcurrency.toNat)
    (hr : b.resolved.readConcurrency.toNat + 1 ≤ b.resolved.readConnections.toNat)
    (hw : b.resolved.writeConcurrency.toNat + 1 ≤ b.resolved.writeConnections.toNat) (checks : Bool) :
    Decides (b.validate checks) b.Named b.resolved := by
  have hover : ¬ b.Overflows := by
    have := b.resolved.readConnections.toNat_lt
    have := b.resolved.writeConnections.toNat_lt
    rintro ⟨-, h | ⟨-, h⟩⟩ <;> omega
  refine (exact_of_not_overflows hover checks).congr ⟨fun h => ?_, ?_⟩
  · exact ⟨h.bucket, h.region, h.accessKeyId, h.secretAccessKey⟩
  · rintro ⟨h₁, h₂, h₃, h₄⟩
    exact ⟨⟨h₁, h₂, h₃, h₄, hchunk, hreads, hwrites⟩, hr, hw⟩

/-- **The defaults pass the checks.** -/
theorem defaults_decide (bucket region accessKeyId secretAccessKey : Option String) (checks : Bool) :
    let b : S3ConfigBuilder := { bucket, region, accessKeyId, secretAccessKey }
    Decides (b.validate checks) b.Named b.resolved :=
  decides_named (b := { bucket, region, accessKeyId, secretAccessKey })
    (show 5 * 1024 * 1024 ≤ chunkDefault.toNat by decide) (show 1 ≤ readConcDefault.toNat by decide)
    (show 1 ≤ writeConcDefault.toNat by decide)
    (show readConcDefault.toNat + 1 ≤ readConnDefault.toNat by decide)
    (show writeConcDefault.toNat + 1 ≤ writeConnDefault.toNat by decide) checks

/-- **So do the values of `max_throughput`.** -/
theorem maxThroughput_decides (b : S3ConfigBuilder) (checks : Bool) :
    Decides (b.maxThroughput.validate checks) b.Named b.maxThroughput.resolved := by
  have hroom : (16 : UInt64).toNat + 1 ≤ (20 : UInt64).toNat := by decide
  have hpos : 1 ≤ (16 : UInt64).toNat := by decide
  have hchunk : 5 * 1024 * 1024 ≤ (64 * 1024 * 1024 : UInt64).toNat := by decide
  exact decides_named (b := b.maxThroughput) hchunk hpos hpos hroom hroom checks

/-- A read concurrency of `usize::MAX`, and defaults. -/
def boundless : S3ConfigBuilder where
  bucket := some "bucket"
  region := some "region"
  accessKeyId := some "id"
  secretAccessKey := some "secret"
  readConcurrency := some 18446744073709551615

/-- **A concurrency that no number of connections is enough for**: a build with overflow checks panics,
and one without accepts it with fifteen connections. -/
theorem validate_boundless : (boundless.validate true).run = none ∧
    (boundless.validate false).run = some (.ok boundless.resolved) ∧
    boundless.resolved.readConnections = 15 ∧ ¬ boundless.Exact := by
  have hready : boundless.Ready :=
    ⟨⟨_, rfl, by decide⟩, ⟨_, rfl, by decide⟩, ⟨_, rfl, by decide⟩, ⟨_, rfl, by decide⟩, by decide, by decide,
      by decide⟩
  have hnone : (boundless.validate true).run = none := Overflows.panics ⟨hready, Or.inl rfl⟩
  refine ⟨hnone, rfl, rfl, fun h => ?_⟩
  obtain ⟨r, hr, -⟩ := h true
  rw [hnone] at hr
  cases hr

end S3ConfigBuilder

end S3o
