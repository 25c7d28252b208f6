import Mathlib.Algebra.Ring.Int.Defs
import S3o.Binary64
import S3o.Lts.Board
import S3o.Pool.Queue

/-!
# The gauges

A counter is updated by one atomic operation and its gauge is written by a later one, with the value that
the update has returned or, on the way into `acquire`, with one that is loaded in between. Two calls may
write in the other order than they have updated, so the last value written need not be that of the
counter.

* `Counter`, `Counter.owes`: the counters with their gauges, and the calls that have still to write;
* `Counter.board`, **`board_run`**: a half pool is a board for each of its counters;
* `gauges_noted_iff`: the gauges get exact values exactly when no call writes last with a drift;
* **`gauges_exact_turns`**: they are exact whenever nobody has to write, if the calls take turns;
* **`gauges_reordered`**: two calls that overtake each other leave both gauges wrong;
* **`gauges_in_range`**: even then a gauge shows a value that its counter has had.
-/

namespace S3o

open Lts

inductive Counter
  | active
  | queued
  deriving DecidableEq

namespace Counter

variable {ι : Type}

def value (c : Counter) (p : HalfPool ι) : ℕ :=
  match c with
  | active => p.active
  | queued => p.queued

def gauge (c : Counter) (p : HalfPool ι) : Option ℕ :=
  match c with
  | active => p.gaugeActive
  | queued => p.gaugeQueued

/-- The call is between an update of the counter and the write to its gauge. -/
def owes (c : Counter) (ph : Phase) : Bool :=
  match c, ph with
  | active, .activated _ | active, .dropped _ => true
  | queued, .entered | queued, .loaded _ | queued, .leaving _ _ => true
  | _, _ => false

/-- What a call of `a` has still to do for the gauge. -/
def errand (c : Counter) (a : Acquire) (ph : Phase) : Errand ℤ :=
  match c, ph with
  | active, .activated v => .post v
  | active, .dropped prev => .post (prev - a.count : ℕ)
  | queued, .entered => .read
  | queued, .loaded v => .post v
  | queued, .leaving _ q => .post (q - 1 : ℕ)
  | _, _ => .none

/-- What the operation `x` of a call of `a`, which it leaves in the phase `ph`, does to the counter and its
gauge. -/
def act (c : Counter) (a : Acquire) (x : PoolAct) (ph : Phase) : BoardAct ℤ :=
  match c, x, ph with
  | active, .activate, _ => .fetch a.count
  | active, .drop, _ => .fetch (-a.count)
  | active, .gauge, .holding | active, .gauge, .releasing => .post
  | queued, .enqueue, _ => .change 1
  | queued, .load, _ => .read
  | queued, .dequeue, _ => .fetch (-1)
  | queued, .gauge, .reported | queued, .gauge, .left _ => .post
  | _, _, _ => .skip

/-- **The board of a counter**: its gauge, and what its calls have still to do for it. -/
def board (c : Counter) (req : ι → Acquire) (s : PoolSys ι) : Board ι ℤ :=
  ⟨c.value s.pool, (c.gauge s.pool).map Nat.cast, fun i => c.errand (req i) (s.phase i)⟩

def entry (c : Counter) (req : ι → Acquire) (x : (ι × PoolAct) × PoolSys ι) : ι × BoardAct ℤ :=
  (x.1.1, c.act (req x.1.1) x.1.2 (x.2.phase x.1.1))

theorem errand_eq_none {c : Counter} {a : Acquire} {ph : Phase} :
    c.errand a ph = .none ↔ c.owes ph = false := by
  cases c <;> cases ph <;> simp [errand, owes]

end Counter

variable {ι : Type} [DecidableEq ι] {p p' : HalfPool ι} {i : ι} {a : Acquire} {ph ph' : Phase}
  {x : PoolAct}

/-- **An atomic operation on the board of `active`.** -/
theorem HalfPool.step_active_board (h : p.step i a ph x = some (p', ph')) (hp : ph.counted a ≤ p.active)
    {e : ι → Errand ℤ} (he : e i = Counter.active.errand a ph) :
    Board.Step ⟨(p.active : ℤ), p.gaugeActive.map Nat.cast, e⟩ (i, Counter.active.act a x ph')
      ⟨(p'.active : ℤ), p'.gaugeActive.map Nat.cast,
        Function.update e i (Counter.active.errand a ph')⟩ := by
  cases HalfPool.step_moves h with
  | activate => exact .fetch he
  | hold => exact .post he
  | drop =>
    have hp : a.count ≤ p.active := hp
    have hsub : ((p.active - a.count : ℕ) : ℤ) = p.active + -a.count := by omega
    show Board.Step _ _ ⟨((p.active - a.count : ℕ) : ℤ), _,
      Function.update e i (.post ((p.active - a.count : ℕ) : ℤ))⟩
    rw [hsub]
    exact .fetch he
  | conclude => exact .post he
  | expire hph => rcases hph with rfl | rfl <;> exact .idle he
  | cancel hph => rcases hph with rfl | rfl <;> exact .idle he
  | _ => exact .idle he

/-- **An atomic operation on the board of `queued`.** -/
theorem HalfPool.step_queued_board (h : p.step i a ph x = some (p', ph'))
    (hp : ph.queues.toNat ≤ p.queued) {e : ι → Errand ℤ} (he : e i = Counter.queued.errand a ph) :
    Board.Step ⟨(p.queued : ℤ), p.gaugeQueued.map Nat.cast, e⟩ (i, Counter.queued.act a x ph')
      ⟨(p'.queued : ℤ), p'.gaugeQueued.map Nat.cast,
        Function.update e i (Counter.queued.errand a ph')⟩ := by
  cases HalfPool.step_moves h with
  | enqueue => exact .change he
  | load => exact .read he
  | report => exact .post he
  | dequeue =>
    have hp : 1 ≤ p.queued := hp
    have hsub : ((p.queued - 1 : ℕ) : ℤ) = p.queued + -1 := by omega
    show Board.Step _ _ ⟨((p.queued - 1 : ℕ) : ℤ), _,
      Function.update e i (.post ((p.queued - 1 : ℕ) : ℤ))⟩
    rw [hsub]
    exact .fetch he
  | leave => exact .post he
  | expire hph => rcases hph with rfl | rfl <;> exact .idle he
  | cancel hph => rcases hph with rfl | rfl <;> exact .idle he
  | _ => exact .idle he

variable [Fintype ι] {req : ι → Acquire} {C : ℕ} {s t : PoolSys ι}
  {l : List ((ι × PoolAct) × PoolSys ι)}

/-- **A half pool is a board** for each of its counters. -/
theorem board_run (c : Counter) (h : Run (PoolSys.Step req) (PoolSys.init C) l s) :
    Run Board.Step (c.board req (PoolSys.init C)) (l.map fun x => (c.entry req x, c.board req x.2))
      (c.board req s) := by
  refine h.map (c.board req) (c.entry req) fun l s x t hr hs => ?_
  obtain ⟨p', ph', hp, rfl⟩ := PoolSys.step_cases hs
  have herrand : ∀ d : Counter, (fun i => d.errand (req i) (Function.update s.phase x.1 ph' i)) =
      Function.update (fun i => d.errand (req i) (s.phase i)) x.1 (d.errand (req x.1) ph') := by
    intro d
    funext i
    exact Function.apply_update (fun i => d.errand (req i)) s.phase x.1 ph' i
  have hentry : c.entry req (x, ⟨p', Function.update s.phase x.1 ph'⟩) =
      (x.1, c.act (req x.1) x.2 ph') := by
    unfold Counter.entry
    dsimp only
    rw [Function.update_self]
  unfold Counter.board
  rw [herrand, hentry]
  cases c with
  | active => exact HalfPool.step_active_board hp ((conserved_run hr).counted_le x.1) rfl
  | queued =>
    have hcount := queueCounted_run hr
    unfold QueueCounted at hcount
    rw [PoolSys.callers_eq_sum] at hcount
    have hle := le_sum (fun _ ph => (Phase.queues ph).toNat) s.phase x.1
    exact HalfPool.step_queued_board hp (hcount ▸ hle) rfl

/-! ## The result -/

/-- No call is between an update of the counter and the write to its gauge. -/
def Counter.Settled (c : Counter) (s : PoolSys ι) : Prop := ∀ i, c.owes (s.phase i) = false

instance (c : Counter) (s : PoolSys ι) : Decidable (c.Settled s) :=
  inferInstanceAs (Decidable (∀ i, c.owes (s.phase i) = false))

/-- The last value handed to `gauge`, if there is one, is the counter. -/
def Counter.Noted (c : Counter) (s : PoolSys ι) : Prop :=
  ∀ v, c.gauge s.pool = some v → v = c.value s.pool

/-- The last value written to the gauge, which `gauge` casts to an `f64`, is the counter. -/
def Counter.Exported (c : Counter) (s : PoolSys ι) : Prop :=
  ∀ v, c.gauge s.pool = some v → Binary64.round v = c.value s.pool

/-- The counter is a `u64` and has an `f64` of its own. -/
def Counter.Shown (c : Counter) (s : PoolSys ι) : Prop :=
  c.value s.pool < 2 ^ 64 ∧ Binary64.Exact (c.value s.pool)

/-- The operation updates the counter. -/
def Counter.updates (c : Counter) (x : PoolAct) : Bool :=
  match c, x with
  | active, .activate | active, .drop | queued, .enqueue | queued, .dequeue => true
  | _, _ => false

/-- **Calls take turns**: nobody updates the counter while another call owes its gauge a write. -/
def Counter.TakeTurns (c : Counter) (l : List ((ι × PoolAct) × PoolSys ι)) : Prop :=
  ∀ x ∈ l, c.updates x.1.2 = true → ∀ j, j ≠ x.1.1 → c.owes (x.2.phase j) = false

instance (c : Counter) (l : List ((ι × PoolAct) × PoolSys ι)) : Decidable (c.TakeTurns l) :=
  inferInstanceAs (Decidable (∀ x ∈ l, _ → ∀ j, j ≠ x.1.1 → c.owes (x.2.phase j) = false))

omit [DecidableEq ι] [Fintype ι] in
theorem Counter.board_quiet {c : Counter} : (c.board req s).Quiet ↔ c.Settled s :=
  forall_congr' fun _ => Counter.errand_eq_none

omit [DecidableEq ι] [Fintype ι] in
theorem Counter.board_current {c : Counter} : (c.board req s).Current ↔ c.Noted s := by
  constructor
  · intro h v hv
    have := h v (by unfold Counter.board; rw [hv]; rfl)
    exact Int.ofNat.inj this
  · intro h v hv
    obtain ⟨w, hw, rfl⟩ := Option.map_eq_some_iff.mp hv
    rw [h w hw]
    rfl

omit [DecidableEq ι] [Fintype ι] in
theorem Counter.init_quiet (c : Counter) : (c.board req (PoolSys.init C)).Quiet := by
  refine Counter.board_quiet.mpr fun i => ?_
  cases c <;> rfl

theorem Counter.value_le (h : Run (PoolSys.Step req) (PoolSys.init C) l s)
    (hreq : ∀ i, (req i).count < 2 ^ 32) : s.pool.active ≤ C ∧ s.pool.queued ≤ Fintype.card ι := by
  refine ⟨(conserved_run h).active_le hreq, ?_⟩
  rw [queueCounted_run h]
  exact Finset.card_le_univ _

/-- Only an update changes the value of the board. -/
theorem Counter.updates_of_delta {c : Counter} (h : (c.act a x ph).delta ≠ 0) : c.updates x = true := by
  have hpost : (c.act a .gauge ph).delta = 0 := by
    cases c <;> cases ph <;> rfl
  cases c with
  | active =>
    cases x with
    | activate => rfl
    | drop => rfl
    | gauge => exact absurd hpost h
    | _ => exact absurd rfl h
  | queued =>
    cases x with
    | enqueue => rfl
    | dequeue => rfl
    | gauge => exact absurd hpost h
    | _ => exact absurd rfl h

/-- **The gauges get exact values** whenever no call has to write to them, exactly when no call writes
last with a drift: since it took the value that it writes, the counter has changed by nothing in total. -/
theorem gauges_noted_iff (C : ℕ) (req : ι → Acquire) (h : Run (PoolSys.Step req) (PoolSys.init C) l s)
    (c : Counter) :
    (∀ m, Visits (PoolSys.init C) l m → c.Settled m → c.Noted m) ↔
      Timely (l.map fun x => (c.entry req x, c.board req x.2)) := by
  have hcurrent : (c.board req (PoolSys.init C)).Current := by
    refine Counter.board_current.mpr fun v hv => ?_
    cases c <;> cases hv
  rw [← board_current_iff c.init_quiet hcurrent (board_run c h)]
  simp only [visits_map, forall_exists_index, and_imp, forall_apply_eq_imp_iff₂, Counter.board_quiet,
    Counter.board_current]

/-- **The gauges are exact whenever no call has to write to them**, in every run whose calls take turns
and whose counter keeps to values that an `f64` shows. -/
theorem gauges_exact_turns (C : ℕ) (req : ι → Acquire) (h : Run (PoolSys.Step req) (PoolSys.init C) l s)
    (c : Counter) (hturns : c.TakeTurns l) (hshown : ∀ m, Visits (PoolSys.init C) l m → c.Shown m) :
    ∀ m, Visits (PoolSys.init C) l m → c.Settled m → c.Exported m := by
  have htimely : Timely (l.map fun x => (c.entry req x, c.board req x.2)) := by
    refine timely_of_turns c.init_quiet (board_run c h) fun y hy hdelta j hj => ?_
    obtain ⟨x, hx, rfl⟩ := List.mem_map.mp hy
    exact Counter.errand_eq_none.mpr (hturns x hx (Counter.updates_of_delta hdelta) j hj)
  intro m hm hsettled v hv
  rw [(gauges_noted_iff C req h c).mpr htimely m hm hsettled v hv]
  exact Binary64.round_eq_iff.mpr (hshown m hm).2

def turnActs : List (Fin 2 × PoolAct) :=
  (useActs.take 10).map (0, ·) ++ (useActs.take 10).map (1, ·) ++ [(0, .drop), (0, .gauge)]

theorem gauges_exact_turns_two :
    ∃ l s, Run (PoolSys.Step fun _ : Fin 2 => .one) (PoolSys.init 2) l s ∧
      (∀ c, Counter.Exported c s) ∧ s.pool.gaugeActive = some 1 ∧ s.pool.gaugeQueued = some 0 ∧
      s.phase 1 = .holding := by
  have hend : (exec (PoolSys.step fun _ : Fin 2 => .one) (PoolSys.init 2) turnActs).any fun s =>
      decide (Counter.active.Settled s ∧ Counter.queued.Settled s ∧ s.pool.gaugeActive = some 1 ∧
        s.pool.gaugeQueued = some 0 ∧ s.phase 1 = .holding) := by decide
  obtain ⟨s, hs, hd⟩ := (Option.any_eq_true _ _).mp hend
  obtain ⟨hactive, hqueued, hd⟩ := of_decide_eq_true hd
  have hr := exec_log hs .nil
  have hsmall : ∀ c m, Visits (PoolSys.init 2)
      (execLog (PoolSys.step fun _ : Fin 2 => .one) (PoolSys.init 2) turnActs ++ []) m →
        Counter.value c m.pool < 2 ^ 53 := by
    intro c m hm
    obtain ⟨l', hr'⟩ := Run.reach hr hm
    have hle := Counter.value_le (C := 2) hr' (by decide)
    cases c with
    | active => exact hle.1.trans_lt (by decide)
    | queued => exact hle.2.trans_lt (by decide)
  refine ⟨_, s, hr, fun c => ?_, hd⟩
  refine gauges_exact_turns 2 _ hr c ?_ (fun m hm => ?_) s hr.visits ?_
  · cases c <;> decide
  · exact ⟨(hsmall c m hm).trans (by decide), Binary64.exact_of_lt (hsmall c m hm)⟩
  · cases c with
    | active => exact hactive
    | queued => exact hqueued

/-- Two calls are granted. Call `1` leaves the queue after call `0` and gets its guard after it, and
writes to both gauges before it. -/
def reorderedActs : List (Fin 2 × PoolAct) :=
  (useActs.take 6).map (0, ·) ++ (useActs.take 6).map (1, ·) ++
    [(0, .dequeue), (1, .dequeue), (1, .gauge), (0, .gauge), (0, .activate), (1, .activate), (1, .gauge),
      (0, .gauge)]

/-- **Gauges that stay wrong.** Both guards are live and nobody has anything left to write: `active` is
two and its gauge one, `queued` is zero and its gauge one. -/
theorem gauges_reordered :
    ∃ l s, Run (PoolSys.Step fun _ : Fin 2 => .one) (PoolSys.init 2) l s ∧
      (Counter.active.Settled s ∧ ¬ Counter.active.Exported s) ∧
      (Counter.queued.Settled s ∧ ¬ Counter.queued.Exported s) ∧
      s.pool.gaugeActive = some 1 ∧ s.pool.active = 2 ∧ s.pool.gaugeQueued = some 1 ∧
      s.pool.queued = 0 := by
  have hend : (exec (PoolSys.step fun _ : Fin 2 => .one) (PoolSys.init 2) reorderedActs).any fun s =>
      decide (Counter.active.Settled s ∧ Counter.queued.Settled s ∧ s.pool.gaugeActive = some 1 ∧
        s.pool.active = 2 ∧ s.pool.gaugeQueued = some 1 ∧ s.pool.queued = 0) := by decide
  obtain ⟨s, hs, hd⟩ := (Option.any_eq_true _ _).mp hend
  obtain ⟨hsettled, hsettled', hd⟩ := of_decide_eq_true hd
  obtain ⟨l, hr, -⟩ := exec_run hs .nil
  refine ⟨l, s, hr, ⟨hsettled, fun h => ?_⟩, ⟨hsettled', fun h => ?_⟩, hd⟩
  · have hactive := h 1 hd.1
    rw [show Counter.active.value s.pool = 2 from hd.2.1] at hactive
    revert hactive
    decide
  · have hqueued := h 1 hd.2.2.1
    rw [show Counter.queued.value s.pool = 0 from hd.2.2.2] at hqueued
    revert hqueued
    decide

/-! ## What a gauge can show -/

omit [Fintype ι] in
theorem HalfPool.step_leaving {ok : Bool} {q : ℕ} (h : p.step i a ph x = some (p', .leaving ok q)) :
    ph = .resumed ok ∧ q = p.queued := by
  cases HalfPool.step_moves h with
  | dequeue => exact ⟨rfl, rfl⟩

/-- **A call on its way out of the queue has counted itself** in what it has read. -/
theorem leaving_pos (h : Run (PoolSys.Step req) (PoolSys.init C) l s) :
    ∀ i ok q, s.phase i = .leaving ok q → 1 ≤ q := by
  refine h.history (I := fun _ s => ∀ i ok q, s.phase i = .leaving ok q → 1 ≤ q) nofun ?_
  intro l s x t hr hI hs i ok q hq
  obtain ⟨p', ph', hp, rfl⟩ := PoolSys.step_cases hs
  dsimp only at hq
  by_cases hi : i = x.1
  · subst hi
    rw [Function.update_self] at hq
    subst hq
    obtain ⟨hph, rfl⟩ := HalfPool.step_leaving hp
    have hle := le_sum (fun _ ph => (Phase.queues ph).toNat) s.phase x.1
    rw [hph, ← PoolSys.callers_eq_sum Phase.queues s, ← queueCounted_run hr] at hle
    exact hle
  · rw [Function.update_of_ne hi] at hq
    exact hI i ok q hq

/-- **A gauge shows a value that its counter has had**, whatever the order of the writes is. So the gauge
of `active` stays within the capacity and that of `queued` within the number of calls, and the
`saturating_sub` on the way out of the queue never saturates. -/
theorem gauges_in_range (C : ℕ) (req : ι → Acquire) (hreq : ∀ i, (req i).count < 2 ^ 32)
    (h : Run (PoolSys.Step req) (PoolSys.init C) l s) :
    (∀ c v, Counter.gauge c s.pool = some v → ∃ m, Visits (PoolSys.init C) l m ∧ c.value m.pool = v) ∧
      (∀ v, s.pool.gaugeActive = some v → v ≤ C) ∧
      (∀ v, s.pool.gaugeQueued = some v → v ≤ Fintype.card ι) ∧
      ∀ i ok q, s.phase i = .leaving ok q → 1 ≤ q := by
  have hseen : ∀ c v, Counter.gauge c s.pool = some v →
      ∃ m, Visits (PoolSys.init C) l m ∧ c.value m.pool = v := by
    intro c v hv
    have hposted : (c.board req (PoolSys.init C)).posted = none := by cases c <;> rfl
    obtain ⟨m, hm, hval⟩ := noted_visited c.init_quiet hposted (board_run c h) (v := (v : ℤ))
      (Or.inl (by unfold Counter.board; rw [hv]; rfl))
    obtain ⟨m', hm', rfl⟩ := visits_map.mp hm
    exact ⟨m', hm', Int.ofNat.inj hval⟩
  refine ⟨hseen, fun v hv => ?_, fun v hv => ?_, leaving_pos h⟩
  · obtain ⟨m, hm, rfl⟩ := hseen .active v hv
    obtain ⟨l', hr⟩ := h.reach hm
    exact (Counter.value_le hr hreq).1
  · obtain ⟨m, hm, rfl⟩ := hseen .queued v hv
    obtain ⟨l', hr⟩ := h.reach hm
    exact (Counter.value_le hr hreq).2

/-- Two calls that overtake each other: both gauges show one, which `active` and `queued` have been. -/
theorem gauges_in_range_reordered :
    ∃ l s, Run (PoolSys.Step fun _ : Fin 2 => .one) (PoolSys.init 2) l s ∧
      s.pool.gaugeActive = some 1 ∧ s.pool.active = 2 ∧
      ∃ m, Visits (PoolSys.init 2) l m ∧ m.pool.active = 1 := by
  have hend : (exec (PoolSys.step fun _ : Fin 2 => .one) (PoolSys.init 2) reorderedActs).any fun s =>
      decide (s.pool.gaugeActive = some 1 ∧ s.pool.active = 2) := by decide
  obtain ⟨s, hs, hd⟩ := (Option.any_eq_true _ _).mp hend
  obtain ⟨hgauge, hactive⟩ := of_decide_eq_true hd
  obtain ⟨l, hr, -⟩ := exec_run hs .nil
  exact ⟨l, s, hr, hgauge, hactive, (gauges_in_range 2 _ (by decide) hr).1 .active 1 hgauge⟩

end S3o
