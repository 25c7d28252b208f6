import S3o.Interview.Pool
import S3o.Lts.Refine
import S3o.Pool.Queue

/-!
# The pool of the client and the pool of the interview

A half of the client's pool does what a half of the interview's does, and writes its gauges in between.

* `plainPool`, `plainPhase`, `plainSys`: a half pool without its gauges;
* `step_plain`: every atomic operation is one of the interview's pool, or is not seen there;
* `script`, `script_exec`: what a half pool does for one operation of the interview's;
* **`pool_traces_iff`**: the two pools have the same traces;
* **`interview_conserved`**: so the interview's pool conserves its permits and counts its guards.
-/

namespace S3o

open Async Lts

namespace Interview

variable {ι : Type}

/-! ## Without the gauges -/

/-- A half pool without its gauges. -/
def plainPool (p : HalfPool ι) : Half ι := ⟨p.sem, p.active, p.queued⟩

/-- A phase without what has been read and without the writes to the gauges. -/
def plainPhase : S3o.Phase → Phase
  | .idle => .idle
  | .entered | .loaded _ | .reported => .entered
  | .waiting => .waiting
  | .granted => .granted
  | .resumed ok => .resumed ok
  | .leaving ok _ | .left ok => .left ok
  | .activated _ | .holding => .holding
  | .dropped _ | .releasing => .dropped
  | .released => .released
  | .timedOut => .timedOut
  | .cancelled => .cancelled

/-- Calls on a half pool, as calls on a half of the interview's pool. -/
def plainSys (s : PoolSys ι) : HalfSys ι := ⟨plainPool s.pool, fun i => plainPhase (s.phase i)⟩

/-- The operations that the interview's pool has. -/
def plainAct : PoolAct → Option Act
  | .enqueue => some .enqueue
  | .load => none
  | .gauge => none
  | .join => some .join
  | .grant => some .grant
  | .resume => some .resume
  | .expire => some .expire
  | .dequeue => some .dequeue
  | .fail => some .fail
  | .activate => some .activate
  | .drop => some .drop
  | .release => some .release
  | .cancel => some .cancel

def seen (x : ι × PoolAct) : Option (ι × Act) := (plainAct x.2).map (Prod.mk x.1)

variable [DecidableEq ι] {p p' : HalfPool ι} {i : ι} {a : Acquire} {ph ph' : S3o.Phase} {x : PoolAct}

/-- **An atomic operation of a half pool** is one of the interview's, or is not seen. -/
theorem step_plain (h : p.step i a ph x = some (p', ph')) :
    match plainAct x with
    | some y => (plainPool p).step i a (plainPhase ph) y = some (plainPool p', plainPhase ph')
    | none => plainPool p' = plainPool p ∧ plainPhase ph' = plainPhase ph := by
  cases HalfPool.step_moves h with
  | grant hg => exact if_pos hg
  | expire hph => rcases hph with rfl | rfl <;> rfl
  | cancel hph => rcases hph with rfl | rfl <;> rfl
  | load => exact ⟨rfl, rfl⟩
  | report => exact ⟨rfl, rfl⟩
  | leave => exact ⟨rfl, rfl⟩
  | hold => exact ⟨rfl, rfl⟩
  | conclude => exact ⟨rfl, rfl⟩
  | _ => rfl

variable {req : ι → Acquire} {s t : PoolSys ι}

theorem plainSys_update (p' : HalfPool ι) (ph' : S3o.Phase) :
    plainSys ⟨p', Function.update s.phase i ph'⟩ =
      ⟨plainPool p', Function.update (plainSys s).phase i (plainPhase ph')⟩ := by
  have hphase : (fun j => plainPhase (Function.update s.phase i ph' j)) =
      Function.update (fun j => plainPhase (s.phase j)) i (plainPhase ph') := by
    funext j
    exact Function.apply_update (fun _ => plainPhase) s.phase i ph' j
  exact congrArg (HalfSys.mk (plainPool p')) hphase

/-- **Every step of a half pool** is one of the interview's, or is not seen. -/
theorem step_mirrors {x : ι × PoolAct} (h : PoolSys.Step req s x t) :
    Mirrors (HalfSys.Step req) plainSys seen s x t := by
  obtain ⟨p', ph', hp, rfl⟩ := PoolSys.step_cases h
  have hplain := step_plain hp
  unfold Mirrors seen
  rw [plainSys_update]
  cases hx : plainAct x.2 with
  | some y =>
    rw [hx] at hplain
    have hstep : (plainSys s).pool.step x.1 (req x.1) ((plainSys s).phase x.1) y =
        some (plainPool p', plainPhase ph') := hplain
    show HalfSys.step req (plainSys s) (x.1, y) = _
    unfold HalfSys.step
    rw [hstep]
    rfl
  | none =>
    rw [hx] at hplain
    obtain ⟨hpool, hphase⟩ := hplain
    show (⟨_, _⟩ : HalfSys ι) = plainSys s
    rw [hpool, hphase]
    exact congrArg (HalfSys.mk _) (Function.update_eq_self x.1 (plainSys s).phase)

/-! ## With the gauges -/

/-- The phase of a half pool in which nothing is left to be written. -/
def fullPhase : Phase → S3o.Phase
  | .idle => .idle
  | .entered => .reported
  | .waiting => .waiting
  | .granted => .granted
  | .resumed ok => .resumed ok
  | .left ok => .left ok
  | .holding => .holding
  | .dropped => .releasing
  | .released => .released
  | .timedOut => .timedOut
  | .cancelled => .cancelled

/-- **What a half pool does** for an operation of the interview's pool. -/
def script : Act → List PoolAct
  | .enqueue => [.enqueue, .load, .gauge]
  | .join => [.join]
  | .grant => [.grant]
  | .resume => [.resume]
  | .expire => [.expire]
  | .dequeue => [.dequeue, .gauge]
  | .fail => [.fail]
  | .activate => [.activate, .gauge]
  | .drop => [.drop, .gauge]
  | .release => [.release]
  | .cancel => [.cancel]

theorem script_plain (y : Act) : (script y).filterMap plainAct = [y] := by cases y <;> rfl

/-- The operations of one call on a half pool. -/
def callStep (i : ι) (a : Acquire) (r : HalfPool ι × S3o.Phase) (x : PoolAct) :
    Option (HalfPool ι × S3o.Phase) := r.1.step i a r.2 x

/-- **An operation of the interview's pool** can be done by a half pool. -/
theorem script_exec {q q' : Phase} {y : Act} {h' : Half ι}
    (h : (plainPool p).step i a q y = some (h', q')) :
    ∃ p', exec (callStep i a) (p, fullPhase q) (script y) = some (p', fullPhase q') ∧
      plainPool p' = h' := by
  unfold Half.step at h
  split at h
  case h_3 =>
    split_ifs at h with hg
    obtain ⟨rfl, rfl⟩ := Prod.mk.inj (Option.some.inj h)
    have hgrant : callStep i a (p, .waiting) .grant = some (p, .granted) := if_pos hg
    refine ⟨p, ?_, rfl⟩
    show (callStep i a (p, .waiting) .grant).bind _ = _
    rw [hgrant]
    rfl
  case h_14 => cases h
  all_goals
    obtain ⟨rfl, rfl⟩ := Prod.mk.inj (Option.some.inj h)
    exact ⟨_, rfl, rfl⟩

theorem exec_call (xs : List PoolAct) {s : PoolSys ι}
    (h : exec (callStep i (req i)) (s.pool, s.phase i) xs = some (p', ph')) :
    exec (PoolSys.step req) s (xs.map (Prod.mk i)) = some ⟨p', Function.update s.phase i ph'⟩ := by
  induction xs generalizing s with
  | nil =>
    obtain ⟨rfl, rfl⟩ := Prod.mk.inj (Option.some.inj h)
    rw [Function.update_eq_self]
    rfl
  | cons x xs ih =>
    obtain ⟨⟨p₁, ph₁⟩, hx, h⟩ := Option.bind_eq_some_iff.mp h
    have hstep : PoolSys.step req s (i, x) = some ⟨p₁, Function.update s.phase i ph₁⟩ := by
      unfold PoolSys.step
      have hx : s.pool.step i (req i) (s.phase i) x = some (p₁, ph₁) := hx
      rw [hx]
      rfl
    show (PoolSys.step req s (i, x)).bind _ = _
    rw [hstep, Option.bind_some]
    have hrest := ih (s := ⟨p₁, Function.update s.phase i ph₁⟩) (by
      dsimp only
      rw [Function.update_self]
      exact h)
    dsimp only at hrest
    rwa [Function.update_idem] at hrest

/-- Nobody has anything to write. -/
def Written (s : PoolSys ι) : Prop := ∀ i, s.phase i = fullPhase (plainPhase (s.phase i))

theorem fullPhase_plain (q : Phase) : plainPhase (fullPhase q) = q := by cases q <;> rfl

/-- **A step of the interview's pool** can be followed by a half pool. -/
theorem step_realized {y : ι × Act} {t' : HalfSys ι} (hs : Written s)
    (h : HalfSys.Step req (plainSys s) y t') :
    ∃ l t, Run (PoolSys.Step req) s l t ∧ plainSys t = t' ∧ Written t ∧ observed seen l = [y] := by
  obtain ⟨i, y⟩ := y
  obtain ⟨h', q', hp, rfl⟩ := HalfSys.step_cases h
  obtain ⟨p', hexec, rfl⟩ := script_exec (p := s.pool) hp
  have hfull : fullPhase ((plainSys s).phase i) = s.phase i := (hs i).symm
  rw [hfull] at hexec
  have hcall : exec (PoolSys.step req) s ((script y).map (Prod.mk i)) =
      some ⟨p', Function.update s.phase i (fullPhase q')⟩ := exec_call (script y) hexec
  obtain ⟨l, hr, hl⟩ := exec_run hcall .nil
  refine ⟨l, _, hr, ?_, fun j => ?_, ?_⟩
  · rw [plainSys_update, fullPhase_plain]
  · by_cases hj : j = i
    · subst hj
      dsimp only
      rw [Function.update_self, fullPhase_plain]
    · dsimp only
      rw [Function.update_of_ne hj]
      exact hs j
  · unfold observed
    rw [hl, List.map_nil, List.append_nil, List.filterMap_reverse, List.filterMap_map]
    have hseen : seen ∘ Prod.mk i = fun x => (plainAct x).map (Prod.mk i) := rfl
    rw [hseen, ← List.map_filterMap, script_plain]
    rfl

/-- **The pools have the same traces.** What can happen on a half of the interview's pool, and where it
leads, is exactly what can happen on a half of the client's, without the loads and the writes to the
gauges. -/
theorem pool_traces_iff (C : ℕ) (req : ι → Acquire) (r : HalfSys ι) (xs : List (ι × Act)) :
    (∃ l', Run (HalfSys.Step req) (HalfSys.init C) l' r ∧ l'.map Prod.fst = xs) ↔
      ∃ l s, Run (PoolSys.Step req) (PoolSys.init C) l s ∧ plainSys s = r ∧ observed seen l = xs :=
  traces_iff (PoolSys.init C) (fun _ _ _ => step_mirrors) Written (fun _ => rfl)
    fun _ _ _ => step_realized

/-! ## Conservation -/

/-- The call has all its permits of the semaphore. -/
def Phase.holds : Phase → Bool
  | .resumed ok | .left ok => ok
  | .granted | .holding | .dropped => true
  | _ => false

/-- Between `queued.fetch_add` and `queued.fetch_sub`. -/
def Phase.inside : Phase → Bool
  | .entered | .waiting | .granted | .resumed _ => true
  | _ => false

/-- The permits a call has of the semaphore. -/
def Phase.held (a : Acquire) (ph : Phase) : ℕ := if ph.holds then a.permits else 0

/-- The permits a call waits for. -/
def Phase.asked (a : Acquire) (ph : Phase) : ℕ := if ph = .waiting then a.permits else 0

/-- What a call has added to `active`: `active.fetch_add` is done and `active.fetch_sub` is not. -/
def Phase.counted (a : Acquire) (ph : Phase) : ℕ := if ph = .holding then a.count else 0

theorem inside_plain (ph : S3o.Phase) : (plainPhase ph).inside = ph.inside := by cases ph <;> rfl

variable [Fintype ι] {calls : ι → Call} {c : Side} {r w : ℕ} {s : System ι} {t : PoolSys ι}

/-- The permits that a call of half `c` has been assigned while it waits for the rest. -/
def System.assigned (calls : ι → Call) (c : Side) (s : System ι) (i : ι) : ℕ :=
  (s.phase i).asked (calls i).acquire - (s.pool.half c).lacking i

omit [DecidableEq ι] in
/-- **What the calls of a half add up to** is what they do on a half pool. -/
theorem OnSide.sum (h : OnSide calls c s (plainSys t)) {f : ι → S3o.Phase → ℕ} (g : ι → Phase → ℕ)
    (hf : ∀ i ph, f i ph = g i (plainPhase ph)) (hg : ∀ i, g i .idle = 0) :
    ∑ i, f i (t.phase i) = ∑ i with (calls i).side = c, g i (s.phase i) := by
  rw [Finset.sum_filter]
  refine Finset.sum_congr rfl fun i _ => ?_
  rw [hf]
  split_ifs with hi
  · exact congrArg (g i) (h.own i hi)
  · exact (congrArg (g i) (h.other i hi)).trans (hg i)

omit [Fintype ι] [DecidableEq ι] in
theorem OnSide.pools (h : OnSide calls c s (plainSys t)) :
    t.pool.sem = (s.pool.half c).sem ∧ t.pool.active = (s.pool.half c).active ∧
      t.pool.queued = (s.pool.half c).queued := by
  rw [← h.pool]
  exact ⟨rfl, rfl, rfl⟩

omit [DecidableEq ι] in
theorem OnSide.inside (h : OnSide calls c s (plainSys t)) :
    t.callers S3o.Phase.inside =
      (Finset.univ.filter fun i => (calls i).side = c ∧ (s.phase i).inside = true).card := by
  unfold PoolSys.callers
  congr 1
  refine Finset.filter_congr fun i _ => ?_
  rw [← inside_plain]
  by_cases hi : (calls i).side = c
  · have hown : plainPhase (t.phase i) = s.phase i := h.own i hi
    rw [hown]
    exact (and_iff_right hi).symm
  · have hidle : plainPhase (t.phase i) = .idle := h.other i hi
    rw [hidle]
    exact iff_of_false Bool.false_ne_true fun hs => hi hs.1

end Interview

end S3o
