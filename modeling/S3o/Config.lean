import Mathlib.Data.Nat.Notation
import S3o.Types

/-!
# Configuration

`config.rs`: the builder and `validate`. A `usize` is a `UInt64`, and `read_concurrency + 1` is a
machine addition: a build with overflow checks panics on it, a build without wraps. `validate` is
given which of the two the build is; `none` is the panic.

* **`Validated`**: the configurations a client can be built from, in either build;
* `Validated.chunk`, `Validated.concurrency`, `Validated.connections`: what they satisfy.
-/

namespace S3o

/-- `S3Config`. Durations are in nanoseconds. -/
structure S3Config where
  bucket : String
  region : String
  accessKeyId : String
  secretAccessKey : String
  sessionToken : Option String
  endpoint : Option String
  pathStyle : Bool
  chunkSize : UInt64
  multipartThreshold : UInt64
  readConnections : UInt64
  writeConnections : UInt64
  readConcurrency : UInt64
  writeConcurrency : UInt64
  uploadChecksum : Bool
  timeout : ℕ
  maxRetries : UInt64

def chunkDefault : UInt64 := 8 * 1024 * 1024
def thresholdDefault : UInt64 := 8 * 1024 * 1024
def readConnDefault : UInt64 := 15
def writeConnDefault : UInt64 := 10
def readConcDefault : UInt64 := 4
def writeConcDefault : UInt64 := 4
def timeoutDefault : ℕ := 30 * 10 ^ 9
def retriesDefault : UInt64 := 3
def minChunk : UInt64 := 5 * 1024 * 1024

/-- `S3ConfigBuilder`. -/
structure S3ConfigBuilder where
  bucket : Option String := none
  region : Option String := none
  accessKeyId : Option String := none
  secretAccessKey : Option String := none
  sessionToken : Option String := none
  endpoint : Option String := none
  pathStyle : Option Bool := none
  chunkSize : Option UInt64 := none
  multipartThreshold : Option UInt64 := none
  readConnections : Option UInt64 := none
  writeConnections : Option UInt64 := none
  readConcurrency : Option UInt64 := none
  writeConcurrency : Option UInt64 := none
  uploadChecksum : Option Bool := none
  timeout : Option ℕ := none
  maxRetries : Option UInt64 := none

/-- `max_throughput`. -/
def S3ConfigBuilder.maxThroughput (self : S3ConfigBuilder) : S3ConfigBuilder :=
  { self with
    chunkSize := some (64 * 1024 * 1024)
    multipartThreshold := some (64 * 1024 * 1024)
    readConcurrency := some 16
    writeConcurrency := some 16
    readConnections := some 20
    writeConnections := some 20
    timeout := some (300 * 10 ^ 9) }

/-- A computation that may panic on an overflow, or return a result. -/
abbrev Checked (α : Type) := ExceptT S3Error Option α

/-- The panic of an overflow check. -/
def Checked.panic {α : Type} : Checked α := ExceptT.mk none

/-- `a + b` on `usize`. -/
def addUsize (checks : Bool) (a b : UInt64) : Checked UInt64 :=
  if checks ∧ 2 ^ 64 ≤ a.toNat + b.toNat then Checked.panic else pure (a + b)

/-- The closure `required` of `validate`. -/
def required (v : Option String) (name : String) : Checked String :=
  match v.filter fun s => !s.isEmpty with
  | some s => pure s
  | none => throw (.config s!"{name} is required")

/-- `if p { return Err(S3Error::config(message)); }`. -/
def rejectIf (p : Prop) [Decidable p] (message : String) : Checked Unit :=
  if p then throw (.config message) else pure ()

/-- `validate`. -/
def S3ConfigBuilder.validate (checks : Bool) (self : S3ConfigBuilder) : Checked S3Config := do
  let bucket ← required self.bucket "bucket"
  let region ← required self.region "region"
  let accessKeyId ← required self.accessKeyId "access_key_id"
  let secretAccessKey ← required self.secretAccessKey "secret_access_key"
  let chunkSize := self.chunkSize.getD chunkDefault
  let readConnections := self.readConnections.getD readConnDefault
  let writeConnections := self.writeConnections.getD writeConnDefault
  let readConcurrency := self.readConcurrency.getD readConcDefault
  let writeConcurrency := self.writeConcurrency.getD writeConcDefault
  rejectIf (chunkSize < minChunk) s!"chunk_size must be >= 5MiB, got {chunkSize}"
  rejectIf (readConcurrency = 0 ∨ writeConcurrency = 0) "concurrency must be > 0"
  let readNeeded ← addUsize checks readConcurrency 1
  rejectIf (readConnections < readNeeded)
    s!"read_connections ({readConnections}) must be >= read_concurrency + 1 ({readNeeded})"
  let writeNeeded ← addUsize checks writeConcurrency 1
  rejectIf (writeConnections < writeNeeded)
    s!"write_connections ({writeConnections}) must be >= write_concurrency + 1 ({writeNeeded})"
  return {
    bucket, region, accessKeyId, secretAccessKey
    sessionToken := self.sessionToken
    endpoint := self.endpoint
    pathStyle := self.pathStyle.getD false
    chunkSize
    multipartThreshold := self.multipartThreshold.getD thresholdDefault
    readConnections, writeConnections, readConcurrency, writeConcurrency
    uploadChecksum := self.uploadChecksum.getD false
    timeout := self.timeout.getD timeoutDefault
    maxRetries := self.maxRetries.getD retriesDefault }

/-- **The configurations a client can be built from.** -/
def Validated (c : S3Config) : Prop :=
  ∃ (checks : Bool) (b : S3ConfigBuilder), (b.validate checks).run = some (.ok c)

/-! ## What a validated configuration satisfies -/

theorem Checked.run_bind {α β : Type} {x : Checked α} {f : α → Checked β} {b : β}
    (h : (x >>= f).run = some (.ok b)) :
    ∃ a, x.run = some (.ok a) ∧ (f a).run = some (.ok b) := by
  rw [ExceptT.run_bind] at h
  obtain ⟨r, hr, h⟩ := Option.bind_eq_some_iff.mp h
  cases r with
  | ok a => exact ⟨a, hr, h⟩
  | error e => simp at h

theorem rejectIf_ok {p : Prop} [Decidable p] {message : String}
    (h : (rejectIf p message).run = some (.ok ())) : ¬ p := by
  unfold rejectIf at h
  split_ifs at h with hp
  · simp at h
  · exact hp

theorem addUsize_ok {checks : Bool} {a b c : UInt64}
    (h : (addUsize checks a b).run = some (.ok c)) : c = a + b := by
  unfold addUsize at h
  split_ifs at h with hp
  · simp [Checked.panic] at h
  · simpa using h.symm

/-- What `validate` has checked of a configuration it returns. The sums are machine sums. -/
theorem S3ConfigBuilder.validate_ok {checks : Bool} {b : S3ConfigBuilder} {c : S3Config}
    (h : (b.validate checks).run = some (.ok c)) :
    ¬ c.chunkSize < minChunk ∧ ¬ (c.readConcurrency = 0 ∨ c.writeConcurrency = 0) ∧
      ¬ c.readConnections < c.readConcurrency + 1 ∧
      ¬ c.writeConnections < c.writeConcurrency + 1 := by
  unfold S3ConfigBuilder.validate at h
  obtain ⟨bucket, -, h⟩ := Checked.run_bind h
  obtain ⟨region, -, h⟩ := Checked.run_bind h
  obtain ⟨accessKeyId, -, h⟩ := Checked.run_bind h
  obtain ⟨secretAccessKey, -, h⟩ := Checked.run_bind h
  obtain ⟨_, hchunk, h⟩ := Checked.run_bind h
  obtain ⟨_, hconc, h⟩ := Checked.run_bind h
  obtain ⟨readNeeded, hrn, h⟩ := Checked.run_bind h
  obtain ⟨_, hread, h⟩ := Checked.run_bind h
  obtain ⟨writeNeeded, hwn, h⟩ := Checked.run_bind h
  obtain ⟨_, hwrite, h⟩ := Checked.run_bind h
  have hread := rejectIf_ok hread
  have hwrite := rejectIf_ok hwrite
  rw [addUsize_ok hrn] at hread
  rw [addUsize_ok hwn] at hwrite
  have hc := Except.ok.inj (Option.some.inj h)
  subst hc
  exact ⟨rejectIf_ok hchunk, rejectIf_ok hconc, hread, hwrite⟩

theorem toNat_succ {a : UInt64} (ha : a.toNat < 2 ^ 64 - 1) : (a + 1).toNat = a.toNat + 1 := by
  rw [UInt64.toNat_add]
  simp only [UInt64.reduceToNat]
  omega

section

variable {c : S3Config} (h : Validated c)
include h

theorem Validated.chunk : 5 * 1024 * 1024 ≤ c.chunkSize.toNat := by
  obtain ⟨checks, b, hb⟩ := h
  have := (S3ConfigBuilder.validate_ok hb).1
  rw [UInt64.lt_iff_toNat_lt] at this
  exact not_lt.mp this

theorem Validated.concurrency : 0 < c.readConcurrency.toNat ∧ 0 < c.writeConcurrency.toNat := by
  obtain ⟨checks, b, hb⟩ := h
  have := (S3ConfigBuilder.validate_ok hb).2.1
  constructor
  · refine Nat.pos_of_ne_zero fun h0 => this (Or.inl (UInt64.toNat_inj.mp (by simpa using h0)))
  · refine Nat.pos_of_ne_zero fun h0 => this (Or.inr (UInt64.toNat_inj.mp (by simpa using h0)))

/-- Below the largest `usize` the machine sums of `validate` are the sums. -/
theorem Validated.readConnections (hr : c.readConcurrency.toNat < 2 ^ 64 - 1) :
    c.readConcurrency.toNat + 1 ≤ c.readConnections.toNat := by
  obtain ⟨checks, b, hb⟩ := h
  have := (S3ConfigBuilder.validate_ok hb).2.2.1
  rw [UInt64.lt_iff_toNat_lt, toNat_succ hr] at this
  exact not_lt.mp this

theorem Validated.writeConnections (hw : c.writeConcurrency.toNat < 2 ^ 64 - 1) :
    c.writeConcurrency.toNat + 1 ≤ c.writeConnections.toNat := by
  obtain ⟨checks, b, hb⟩ := h
  have := (S3ConfigBuilder.validate_ok hb).2.2.2
  rw [UInt64.lt_iff_toNat_lt, toNat_succ hw] at this
  exact not_lt.mp this

end

/-- The required fields, two connections for each half, and a threshold that sends every body but the
empty one in parts. -/
def smallBuilder : S3ConfigBuilder where
  bucket := some "bucket"
  region := some "region"
  accessKeyId := some "id"
  secretAccessKey := some "secret"
  multipartThreshold := some 0
  readConnections := some 2
  writeConnections := some 2
  readConcurrency := some 1
  writeConcurrency := some 1

def smallConfig : S3Config where
  bucket := "bucket"
  region := "region"
  accessKeyId := "id"
  secretAccessKey := "secret"
  sessionToken := none
  endpoint := none
  pathStyle := false
  chunkSize := chunkDefault
  multipartThreshold := 0
  readConnections := 2
  writeConnections := 2
  readConcurrency := 1
  writeConcurrency := 1
  uploadChecksum := false
  timeout := timeoutDefault
  maxRetries := retriesDefault

theorem small_validated : Validated smallConfig := ⟨true, smallBuilder, rfl⟩

end S3o
