import S3o.Pool.Conserve

/-!
# The queue depth

`queued` is incremented before the wait and decremented after it. A future that is dropped while it
waits is not resumed, so its increment stays.

* `QueueCounted`: `queued` is the number of calls that have incremented it and not decremented it;
* **`queued_exact_iff`**: it is the number of waiting calls exactly when no call was dropped while
  it waited;
* **`queued_leak`**: one dropped call leaves `queued` at one with nobody in the pool.
-/

namespace S3o

open Lts

/-- The call is between its `queued.fetch_add` and its `queued.fetch_sub`. -/
def Phase.inside (ph : Phase) : Bool := ph.queues && decide (ph ≠ .cancelled)

/-- The code of the call is not in the middle of a poll. -/
def Phase.settled : Phase → Bool
  | .idle | .waiting | .granted | .holding | .released | .timedOut | .cancelled => true
  | _ => false

variable {ι : Type} [Fintype ι] [DecidableEq ι] {req : ι → Acquire} {C : ℕ} {s t : PoolSys ι}
  {l : List ((ι × PoolAct) × PoolSys ι)}

/-- How many calls are in a phase of the kind `P`. -/
def PoolSys.callers (P : Phase → Bool) (s : PoolSys ι) : ℕ :=
  (Finset.univ.filter fun i => P (s.phase i) = true).card

omit [DecidableEq ι] in
theorem PoolSys.callers_eq_sum (P : Phase → Bool) (s : PoolSys ι) :
    s.callers P = ∑ i, (P (s.phase i)).toNat := by
  unfold PoolSys.callers
  rw [Finset.card_filter]
  refine Finset.sum_congr rfl fun i _ => ?_
  cases P (s.phase i) <;> rfl

/-- `queued` is the number of calls that have incremented it and not decremented it. -/
def QueueCounted (s : PoolSys ι) : Prop := s.pool.queued = s.callers Phase.queues

theorem queueCounted_step {x : ι × PoolAct} (h : QueueCounted s) (hs : PoolSys.Step req s x t) :
    QueueCounted t := by
  obtain ⟨p', ph', hp, rfl⟩ := PoolSys.step_cases hs
  unfold QueueCounted at h ⊢
  rw [PoolSys.callers_eq_sum] at h ⊢
  have hle := le_sum (fun _ ph => (Phase.queues ph).toNat) s.phase x.1
  have hstep := HalfPool.step_queued hp (by rw [h]; exact hle)
  have hsum := sum_update (fun _ ph => (Phase.queues ph).toNat) s.phase x.1 ph'
  show p'.queued = ∑ i, (Phase.queues (Function.update s.phase x.1 ph' i)).toNat
  omega

theorem queueCounted_run (h : Run (PoolSys.Step req) (PoolSys.init C) l s) : QueueCounted s := by
  refine h.invariant ?_ fun _ _ _ hI hs => queueCounted_step hI hs
  unfold QueueCounted PoolSys.callers
  simp [PoolSys.init, HalfPool.new, Phase.queues]

/-! ## Dropped calls -/

omit [Fintype ι] in
theorem HalfPool.step_cancelled {p p' : HalfPool ι} {i : ι} {a : Acquire} {ph ph' : Phase}
    {x : PoolAct} (h : p.step i a ph x = some (p', ph')) :
    ph ≠ .cancelled ∧ (ph' = .cancelled ↔ x = .cancel) := by
  cases HalfPool.step_moves h with
  | expire hph => rcases hph with rfl | rfl <;> simp
  | cancel hph => rcases hph with rfl | rfl <;> simp
  | _ => simp

omit [Fintype ι] in
theorem cancelled_run (h : Run (PoolSys.Step req) (PoolSys.init C) l s) :
    (∀ i, s.phase i ≠ .cancelled) ↔ ∀ x ∈ l, x.1.2 ≠ .cancel := by
  induction h with
  | nil => simp [PoolSys.init]
  | @snoc l s x t _ hs ih =>
    obtain ⟨p', ph', hp, rfl⟩ := PoolSys.step_cases hs
    obtain ⟨hne, hiff⟩ := HalfPool.step_cancelled hp
    rw [List.forall_mem_cons, ← ih]
    constructor
    · intro h
      refine ⟨fun hx => h x.1 (by simpa using hiff.mpr hx), fun i => ?_⟩
      by_cases hi : i = x.1
      · rwa [hi]
      · simpa [Function.update_of_ne hi] using h i
    · rintro ⟨hx, h⟩ i
      by_cases hi : i = x.1
      · subst hi
        simpa using fun hc => hx (hiff.mp hc)
      · simpa [Function.update_of_ne hi] using h i

omit [DecidableEq ι] in
theorem callers_eq_iff {P Q : Phase → Bool} (hPQ : ∀ i, Q (s.phase i) =
    (P (s.phase i) || decide (s.phase i = .cancelled))) (hP : P .cancelled = false) :
    s.callers Q = s.callers P ↔ ∀ i, s.phase i ≠ .cancelled := by
  unfold PoolSys.callers
  constructor
  · intro hcard i hi
    have hsub : (Finset.univ.filter fun i => P (s.phase i) = true) ⊆
        Finset.univ.filter fun i => Q (s.phase i) = true := by
      intro j hj
      have hj := (Finset.mem_filter.mp hj).2
      exact Finset.mem_filter.mpr ⟨Finset.mem_univ j, by rw [hPQ j, hj]; rfl⟩
    have heq := Finset.eq_of_subset_of_card_le hsub hcard.le
    have hmem : i ∈ Finset.univ.filter fun i => Q (s.phase i) = true :=
      Finset.mem_filter.mpr ⟨Finset.mem_univ i, by rw [hPQ i, hi]; simp⟩
    rw [← heq, Finset.mem_filter, hi, hP] at hmem
    exact Bool.false_ne_true hmem.2
  · intro hne
    congr 1
    refine Finset.filter_congr fun i _ => ?_
    rw [hPQ i]
    simp [hne i]

/-- `queued` is the number of calls between its increment and its decrement when no call was dropped. -/
theorem queued_eq_iff (h : Run (PoolSys.Step req) (PoolSys.init C) l s) :
    s.pool.queued = s.callers Phase.inside ↔ ∀ i, s.phase i ≠ .cancelled := by
  rw [queueCounted_run h]
  refine callers_eq_iff (fun i => ?_) rfl
  unfold Phase.inside
  cases s.phase i <;> rfl

/-! ## The result -/

/-- No call is in the middle of a poll. -/
def PoolSys.Settled (s : PoolSys ι) : Prop := ∀ i, (s.phase i).settled = true

instance (s : PoolSys ι) : Decidable s.Settled :=
  inferInstanceAs (Decidable (∀ i, (s.phase i).settled = true))

/-- **`queued` is exact as long as no call is dropped while it waits**, and never after. In every
state it is compared with the calls between its increment and its decrement, and between polls with
the calls suspended inside `acquire` or `acquire_bulk`. -/
theorem queued_exact_iff (C : ℕ) (req : ι → Acquire)
    (h : Run (PoolSys.Step req) (PoolSys.init C) l s) :
    (s.pool.queued = s.callers Phase.inside ↔ ∀ x ∈ l, x.1.2 ≠ .cancel) ∧
      (s.Settled → (s.pool.queued = s.callers Phase.suspended ↔ ∀ x ∈ l, x.1.2 ≠ .cancel)) := by
  rw [← cancelled_run h]
  refine ⟨queued_eq_iff h, fun hs => ?_⟩
  rw [queueCounted_run h]
  refine callers_eq_iff (fun i => ?_) rfl
  have := hs i
  cases hp : s.phase i <;> simp [hp, Phase.settled, Phase.queues, Phase.suspended] at this ⊢

def leakReq : Fin 2 → Acquire := fun _ => .one

/-- Call `0` holds the only permit and call `1` waits for it. -/
def waitActs : List (Fin 2 × PoolAct) :=
  (useActs.take 10).map (0, ·) ++ [.enqueue, .load, .gauge, .join].map (1, ·)

theorem queued_exact_waiting :
    ∃ l s, Run (PoolSys.Step leakReq) (PoolSys.init 1) l s ∧ l.map Prod.fst = waitActs.reverse ∧
      s.pool.queued = s.callers Phase.suspended := by
  have hsome : (exec (PoolSys.step leakReq) (PoolSys.init 1) waitActs).isSome := by decide
  obtain ⟨s, hs⟩ := Option.isSome_iff_exists.mp hsome
  obtain ⟨l, hr, hl⟩ := exec_run hs .nil
  have hend : (exec (PoolSys.step leakReq) (PoolSys.init 1) waitActs).all fun s =>
      decide s.Settled := by decide
  rw [hs] at hend
  rw [List.map_nil, List.append_nil] at hl
  refine ⟨l, s, hr, hl, ((queued_exact_iff 1 leakReq hr).2 (of_decide_eq_true hend)).mpr ?_⟩
  intro x hx
  have hmem : x.1 ∈ waitActs.reverse := hl ▸ List.mem_map_of_mem hx
  have hall : ∀ y ∈ waitActs.reverse, y.2 ≠ .cancel := by decide
  exact hall x.1 hmem

/-- Call `1` is dropped while it waits for the only permit, which call `0` then releases. -/
def leakActs : List (Fin 2 × PoolAct) :=
  waitActs ++ (1, .cancel) :: (useActs.drop 10).map (0, ·)

/-- **The queue depth is not exact under cancellation**: `queued` stays at one with nobody waiting
and nobody holding a permit. -/
theorem queued_leak :
    ∃ l s, Run (PoolSys.Step leakReq) (PoolSys.init 1) l s ∧ l.map Prod.fst = leakActs.reverse ∧
      s.Settled ∧ s.callers Phase.suspended = 0 ∧ s.pool.queued = 1 ∧ s.pool.available = 1 := by
  have hsome : (exec (PoolSys.step leakReq) (PoolSys.init 1) leakActs).isSome := by decide
  obtain ⟨s, hs⟩ := Option.isSome_iff_exists.mp hsome
  obtain ⟨l, hr, hl⟩ := exec_run hs .nil
  have hend : (exec (PoolSys.step leakReq) (PoolSys.init 1) leakActs).all fun s =>
      decide (s.Settled ∧ s.callers Phase.suspended = 0 ∧
        s.pool.queued = 1 ∧ s.pool.available = 1) := by decide
  rw [hs] at hend
  rw [List.map_nil, List.append_nil] at hl
  exact ⟨l, s, hr, hl, of_decide_eq_true hend⟩

end S3o
