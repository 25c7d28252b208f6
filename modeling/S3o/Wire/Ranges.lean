import S3o.Pieces
import S3o.Wire.Transfers

/-!
# The messages of a download

* `reassemble_fetches`: the ranges in order, or the first error in completion order;
* `RangeTranscript`, **`rangeGet_spec`**: what a range download says and returns;
* `rangePart_spec`, `getBody_spec`: the future of a range, and the GET of a whole object;
* `simpleGet_spec`: a download by one GET.
-/

namespace S3o

open Async Lts

variable {κ : Type}

/-! ## The ranges in order -/

/-- The error of the first range that failed, along `js`. -/
def Fetch.firstError (x : ℕ → Fetch) (js : List ℕ) : Option S3Error :=
  js.findSome? fun j => (x j).error "range body"

theorem Fetch.firstError_eq_none {x : ℕ → Fetch} {js : List ℕ} :
    firstError x js = none ↔ ∀ j ∈ js, ∃ b y, x j = .read b y := by
  unfold firstError
  rw [List.findSome?_eq_none_iff]
  exact forall₂_congr fun j _ => Fetch.error_eq_none

theorem mapM_fetches (x : ℕ → Fetch) (js : List ℕ) :
    (js.map fun j => ((x j).result "range body").map (Prod.mk j)).mapM id =
      match Fetch.firstError x js with
      | some e => .error e
      | none => .ok (js.map fun j => (j, (x j).bytes)) := by
  have hresult : ∀ j, ((x j).result "range body").map (Prod.mk j) =
      Results.attempt ((x j).error "range body") (j, (x j).bytes) := by
    intro j
    cases x j <;> rfl
  rw [List.map_congr_left fun j _ => hresult j, Results.mapM_id, Results.firstError_map]
  unfold Fetch.firstError
  cases h : js.findSome? fun j => (x j).error "range body" with
  | some e => rfl
  | none => exact congrArg Except.ok (Results.values_map h)

/-- **The ranges are put in order**, or the first error is returned. -/
theorem reassemble_fetches {n : ℕ} (x : ℕ → Fetch) {js : List ℕ} (h : js.Perm (List.range n)) :
    S3Client.reassemble (js.map fun j => ((x j).result "range body").map (Prod.mk j)) =
      match Fetch.firstError x js with
      | some e => .error e
      | none => .ok ((List.range n).map fun j => (x j).bytes).flatten := by
  unfold S3Client.reassemble
  rw [mapM_fetches]
  cases Fetch.firstError x js with
  | some e => rfl
  | none =>
    have hsort : (js.map fun j => (j, (x j).bytes)).insertionSort (fun a b => a.1 ≤ b.1) =
        (List.range n).map fun j => (j, (x j).bytes) := by
      rw [← List.map_insertionSort (r := fun a b : ℕ => a ≤ b)
        (s := fun a b : ℕ × Bytes => a.1 ≤ b.1) (fun j => (j, (x j).bytes)) js fun a _ b _ => Iff.rfl,
        insertionSort_range h]
    show Except.ok ((List.map Prod.snd _).flatten) = _
    rw [hsort, List.map_map]
    rfl

/-! ## The programs -/

section

variable (self : S3Client κ) (key : String) (total : ℕ)

namespace S3Client

/-- The number of ranges of a download. -/
def rangeCount : ℕ := divCeil total self.config.chunkSize.toNat

/-- The `Range` header of range `j`. -/
def rangeHeader (j : ℕ) : ByteRange :=
  ⟨(interval self.config.chunkSize.toNat total j).1, (interval self.config.chunkSize.toNat total j).2 - 1⟩

/-- What the ranges of a download have said at its end, newest first. -/
def rangeTalk (x : ℕ → Fetch) (j : ℕ) : List Msg :=
  if j < self.rangeCount total then
    (x j).messages self.config.bucket key (some (self.rangeHeader total j))
  else []

end S3Client

/-- **What a range download has said when it returns `r`**: nothing when it has lost its acquisition
(`L`), and otherwise the GETs of its ranges, interleaved. -/
inductive RangeTranscript (orders : Set (List ℕ)) (L : Prop) : List Msg → S3Result Bytes → Prop
  | lost (h : L) : RangeTranscript orders L []
      (.error ((Acquire.bulk self.config.readConcurrency.toNat).timeoutError Half.read.name))
  | done {x js ms r} : Shuffle (self.rangeTalk key total x) ms →
      js.Perm (List.range (self.rangeCount total)) → js ∈ orders →
      (∀ e, Fetch.firstError x js = some e → r = .error e) →
      (Fetch.firstError x js = none →
        r = .ok ((List.range (self.rangeCount total)).map fun j => (x j).bytes).flatten) →
      RangeTranscript orders L ms r

end

section

variable {self : S3Client κ} {key : String} {total : ℕ} {τ : History (S3 κ)}

theorem RangeTranscript.mono {o o' : Set (List ℕ)} {L L' : Prop} {ms : List Msg} {r : S3Result Bytes}
    (h : RangeTranscript self key total o L ms r) (ho : o ⊆ o') (hl : L → L') :
    RangeTranscript self key total o' L' ms r := by
  cases h with
  | lost h => exact .lost (hl h)
  | done hms hjs hmem he hok => exact .done hms hjs (ho hmem) he hok

/-- **One range.** It has no record when it fails. -/
theorem rangePart_spec (idx : ℕ) (range : ℕ × ℕ) :
    (self.rangePart key idx range).Spec (talk fun _ => True)
      (fun b τ => ∃ x : Fetch,
        said τ = x.messages self.config.bucket key (some ⟨range.1, range.2 - 1⟩) ∧
          wired τ = (Transfer.get self.config.bucket key (some ⟨range.1, range.2 - 1⟩) x).log ∧
          b = (x.result "range body").map (Prod.mk idx)) [] := by
  unfold S3Client.rangePart
  simp only [Leaf.bind_eq, Leaf.pure_eq, Leaf.spec_bind, Leaf.spec_clock, Leaf.spec_send, Leaf.spec_log,
    true_and]
  intro t s n u y v w
  cases y with
  | error e => exact (Leaf.spec_ret _).mpr ⟨trivial, .refused e, rfl, rfl, rfl⟩
  | ok output =>
    obtain ⟨b⟩ := output
    show (Leaf.bind _ _).Spec _ _ _
    rw [Leaf.spec_bind, Leaf.spec_collect]
    refine ⟨trivial, fun s' n' => ⟨trivial, trivial, fun t' z => ⟨trivial, ?_⟩⟩⟩
    cases z with
    | error e => exact (Leaf.spec_ret _).mpr ⟨trivial, .broken b e, rfl, rfl, rfl⟩
    | ok x =>
      simp only [Except.mapError, Leaf.spec_bind, Leaf.spec_clock, Leaf.spec_log, Leaf.spec_ret, true_and]
      exact fun t'' u'' => ⟨.read b x, rfl, rfl, rfl⟩

/-- **A GET of the whole object.** -/
theorem getBody_spec : (self.getBody key).Spec (talk fun _ => True)
    (fun r τ' => ∃ x : Fetch, said τ' = x.messages self.config.bucket key none ++ said τ ∧
      wired τ' = (Transfer.get self.config.bucket key none x).log ++ wired τ ∧ r = x.result "body") τ := by
  unfold S3Client.getBody
  simp only [Leaf.bind_eq, Leaf.pure_eq, Leaf.spec_bind, Leaf.spec_clock, Leaf.spec_send, Leaf.spec_log,
    true_and]
  intro t s n u y v w
  cases y with
  | error e =>
    show (Leaf.bind (Leaf.ret _) _).Spec _ _ _
    simp only [Leaf.spec_bind, Leaf.spec_ret, Leaf.spec_clock, Leaf.spec_log, true_and]
    exact fun t' u' => ⟨.refused e, rfl, rfl, rfl⟩
  | ok output =>
    obtain ⟨b⟩ := output
    show (Leaf.bind (Leaf.collect b "body") _).Spec _ _ _
    simp only [Leaf.spec_bind, Leaf.spec_collect, Leaf.spec_ret, Leaf.spec_clock, Leaf.spec_log, true_and]
    intro s' n' t' z t'' u''
    cases z with
    | error e => exact ⟨.broken b e, rfl, rfl, rfl⟩
    | ok x => exact ⟨.read b x, rfl, rfl, rfl⟩

/-- **`simple_get`** says and returns what its GET does, if it does not lose its acquisition. -/
theorem simpleGet_spec : (self.simpleGet key).Spec (talk fun _ => True)
    (fun r τ' => (.lost (self.pool, .read) .one ∈ τ'.events ∧ said τ' = said τ ∧
        r = .error (Acquire.one.timeoutError Half.read.name)) ∨
      ∃ x : Fetch, said τ' = x.messages self.config.bucket key none ++ said τ ∧ r = x.result "body") τ := by
  unfold S3Client.simpleGet
  rw [spec_guarded]
  simp only [true_and, said_lost, said_want]
  refine fun s => ⟨fun t u => ?_, fun t => Or.inl ⟨by simp [History.events], trivial⟩⟩
  refine Prog.Spec.weaken (Prog.spec_wait getBody_spec) fun r τ' _ h v => ?_
  obtain ⟨x, hsaid, -, hx⟩ := h
  simp only [said_freed, said_emit, said_got, said_want] at hsaid ⊢
  exact Or.inr ⟨x, hsaid, hx⟩

/-- **`range_get`** says and returns what its ranges do. -/
theorem rangeGet_spec : (self.rangeGet key total).Spec (talk fun _ => True)
    (fun r τ' => ∃ ms, said τ' = ms ++ said τ ∧ RangeTranscript self key total (orders τ')
      (.lost (self.pool, .read) (.bulk self.config.readConcurrency.toNat) ∈ τ'.events) ms r) τ := by
  unfold S3Client.rangeGet
  rw [spec_guarded]
  simp only [true_and, said_lost, said_want]
  refine fun s => ⟨fun t u => ?_, fun t => ⟨[], rfl, .lost (by simp [History.events])⟩⟩
  refine Prog.Spec.weaken (ψ := fun r τ' => ∃ ms, said τ' = ms ++ said τ ∧
    RangeTranscript self key total (orders τ') False ms r) ?_ fun r τ' _ ⟨ms, hms, h⟩ v =>
      ⟨ms, hms, h.mono (orders_cons _ _) False.elim⟩
  rw [Prog.bind_eq, Prog.spec_bind]
  have hlen : ((List.range (divCeil total self.config.chunkSize.toNat)).map fun i =>
      self.rangePart key i (interval self.config.chunkSize.toNat total i)).length =
        self.rangeCount total := by
    rw [List.length_map, List.length_range]
    rfl
  refine Prog.spec_bufferUnordered (fun _ _ => True) (fun j b τ => ∃ x : Fetch,
    said τ = x.messages self.config.bucket key (some (self.rangeHeader total j)) ∧
      b = (x.result "range body").map (Prod.mk j)) ?_ (fun _ _ _ _ _ _ => ⟨trivial, trivial⟩) ?_
  · intro j l hl
    have hj : j < divCeil total self.config.chunkSize.toNat := by
      have := (List.getElem?_eq_some_iff.mp hl).1
      rwa [List.length_map, List.length_range] at this
    rw [List.getElem?_map, List.getElem?_range hj, Option.map_some] at hl
    rw [← Option.some.inj hl]
    refine Fut.Spec.weaken (rangePart_spec j _) fun b τ _ h => ?_
    obtain ⟨x, hsaid, -, hx⟩ := h
    exact ⟨x, hsaid, hx⟩
  · intro loc new rs u' hwoven hperm hres
    rw [hlen] at hwoven hperm
    have hne : Nonempty Fetch := ⟨.read [] []⟩
    obtain ⟨x, hall, hx⟩ := exists_outcomes hperm fun j b hb => hres (j, b) hb
    have hx' : ∀ j, j < self.rangeCount total →
        said (loc j) = (x j).messages self.config.bucket key (some (self.rangeHeader total j)) := by
      intro j hj
      obtain ⟨b, hb, -⟩ := hall j hj
      exact hb
    have hloc : (fun j => said (loc j)) = self.rangeTalk key total x := by
      funext j
      unfold S3Client.rangeTalk
      split_ifs with hj
      · exact hx' j hj
      · rw [hwoven.outside j (not_lt.mp hj)]
        rfl
    have hsnd : rs.map Prod.snd = (rs.map Prod.fst).map fun j =>
        ((x j).result "range body").map (Prod.mk j) := by
      rw [List.map_map]
      exact List.map_congr_left fun p hp => (hx p.1 p.2 hp).2
    have hshuffle : Shuffle (self.rangeTalk key total x) (said new) := hloc ▸ woven_said hwoven
    have hreassemble := reassemble_fetches x hperm
    rw [← hsnd] at hreassemble
    refine ⟨trivial, (Prog.spec_ret _).mpr ⟨trivial, said new, ?_, ?_⟩⟩
    · simp only [said_order, said_append, said_emit, said_got, said_want]
    · refine .done hshuffle hperm ⟨u', List.mem_cons_self⟩ (fun e he => ?_) fun he => ?_
      · rw [he] at hreassemble
        exact hreassemble
      · rw [he] at hreassemble
        exact hreassemble

end

end S3o
