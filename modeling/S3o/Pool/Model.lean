import Mathlib.Logic.Function.Basic
import S3o.Async.Semaphore
import S3o.Lts.Run
import S3o.Error

/-!
# A half pool, one atomic step at a time

`pool.rs`: a FIFO semaphore, the counters `active` and `queued`, and their gauges. A call of
`acquire` or `acquire_bulk` goes through the phases below, one for every atomic operation between
its first `fetch_add` and the release of the inner permit.

The semaphore is tokio's: a request takes the permits there are and waits in line for the rest, permits
that come back go to the line in its order, and an `acquire_owned` future that is dropped leaves the line
and returns what it has been assigned. The counters are natural numbers: `pool_conservation` shows that
`active` stays within the capacity and is never decremented below zero, and `queued` counts calls.

* `HalfPool.step`: what each atomic operation does to the pool and to its call;
* **`HalfPool.step_moves`**: the operations, one case for each;
* `Phase.held`, `Phase.claimed`, `Phase.counted`: what a phase has of the semaphore and the counters;
* `step_fair`, `step_available`, `step_active`, `step_queued`: what every step keeps;
* `PoolSys`: any number of calls on one pool.
-/

namespace S3o

open Async

/-- A call of `acquire`, or of `acquire_bulk` with its argument. -/
inductive Acquire
  | one
  | bulk (n : ℕ)
  deriving DecidableEq

/-- What is asked of the semaphore: one, or `n as u32`. -/
def Acquire.permits : Acquire → ℕ
  | .one => 1
  | .bulk n => n % 2 ^ 32

/-- What is added to `active`: one, or `n as u64`. -/
def Acquire.count : Acquire → ℕ
  | .one => 1
  | .bulk n => n

/-- The message of the timeout of a pool called `name`. -/
def Acquire.timeoutMessage (name : String) : Acquire → String
  | .one => s!"{name} pool timeout"
  | .bulk n => s!"{name} pool bulk({n}) timeout"

def Acquire.timeoutError (name : String) (a : Acquire) : S3Error :=
  .backend .timeout (a.timeoutMessage name)

theorem Acquire.permits_eq_count {a : Acquire} (h : a.count < 2 ^ 32) : a.permits = a.count := by
  cases a with
  | one => rfl
  | bulk n => exact Nat.mod_eq_of_lt h

/-- The shared state of `HalfPool`: the semaphore, the counters, and the last values written to the
gauges. -/
structure HalfPool (ι : Type) extends sem : Semaphore ι where
  active : ℕ
  queued : ℕ
  gaugeActive : Option ℕ
  gaugeQueued : Option ℕ
  deriving DecidableEq

def HalfPool.new {ι : Type} (capacity : ℕ) : HalfPool ι := ⟨⟨capacity, []⟩, 0, 0, none, none⟩

/-- Where a call is. The values are the ones it has read. -/
inductive Phase
  /-- Not called. -/
  | idle
  /-- `queued.fetch_add` is done. -/
  | entered
  | loaded (queued : ℕ)
  /-- The gauge is written, the permit is not asked for. -/
  | reported
  /-- The semaphore is polled, and has the request in its line or has assigned it all it asks for. -/
  | waiting
  /-- All permits are assigned, and the call is woken. -/
  | granted
  /-- The `timeout` future has returned, with the permits or with `Elapsed`. -/
  | resumed (ok : Bool)
  /-- `queued.fetch_sub` is done. -/
  | leaving (ok : Bool) (q : ℕ)
  | left (ok : Bool)
  /-- `active.fetch_add` is done. -/
  | activated (a : ℕ)
  /-- The guard is live. -/
  | holding
  /-- `active.fetch_sub` of the guard's `Drop` is done. -/
  | dropped (prev : ℕ)
  /-- The `Drop` body is done, the inner permit is not released. -/
  | releasing
  | released
  /-- The call has returned the timeout error. -/
  | timedOut
  /-- The future was dropped while it waited. -/
  | cancelled
  deriving DecidableEq

inductive PoolAct
  | enqueue | load | gauge | join | grant | resume | expire | dequeue | fail | activate | drop
  | release | cancel
  deriving DecidableEq

section

variable {ι : Type} [DecidableEq ι]

/-- **One atomic operation** of call `i`, which asks for `a`. -/
def HalfPool.step (p : HalfPool ι) (i : ι) (a : Acquire) : Phase → PoolAct →
    Option (HalfPool ι × Phase)
  | .idle, .enqueue => some ({ p with queued := p.queued + 1 }, .entered)
  | .entered, .load => some (p, .loaded p.queued)
  | .loaded v, .gauge => some ({ p with gaugeQueued := some v }, .reported)
  | .reported, .join => some ({ p with sem := p.sem.acquire i a.permits }, .waiting)
  | .waiting, .grant => if p.lacking i = 0 then some (p, .granted) else none
  | .granted, .resume => some (p, .resumed true)
  -- the inner future is dropped with the `timeout` future
  | .waiting, .expire | .granted, .expire =>
    some ({ p with sem := p.sem.forget i a.permits }, .resumed false)
  | .resumed ok, .dequeue => some ({ p with queued := p.queued - 1 }, .leaving ok p.queued)
  | .leaving ok q, .gauge => some ({ p with gaugeQueued := some (q - 1) }, .left ok)
  | .left false, .fail => some (p, .timedOut)
  | .left true, .activate =>
    some ({ p with active := p.active + a.count }, .activated (p.active + a.count))
  | .activated v, .gauge => some ({ p with gaugeActive := some v }, .holding)
  | .holding, .drop => some ({ p with active := p.active - a.count }, .dropped p.active)
  | .dropped prev, .gauge => some ({ p with gaugeActive := some (prev - a.count) }, .releasing)
  | .releasing, .release => some ({ p with sem := p.sem.addPermits a.permits }, .released)
  | .waiting, .cancel | .granted, .cancel =>
    some ({ p with sem := p.sem.forget i a.permits }, .cancelled)
  | _, _ => none

/-- **The operations**, one case for each: where the call is before and after, and what the pool becomes. -/
inductive HalfPool.Moves (p : HalfPool ι) (i : ι) (a : Acquire) :
    Phase → PoolAct → HalfPool ι → Phase → Prop
  | enqueue : Moves p i a .idle .enqueue { p with queued := p.queued + 1 } .entered
  | load : Moves p i a .entered .load p (.loaded p.queued)
  | report (v : ℕ) : Moves p i a (.loaded v) .gauge { p with gaugeQueued := some v } .reported
  | join : Moves p i a .reported .join { p with sem := p.sem.acquire i a.permits } .waiting
  | grant : p.lacking i = 0 → Moves p i a .waiting .grant p .granted
  | resume : Moves p i a .granted .resume p (.resumed true)
  | expire {ph : Phase} : ph = .waiting ∨ ph = .granted →
      Moves p i a ph .expire { p with sem := p.sem.forget i a.permits } (.resumed false)
  | dequeue (ok : Bool) :
      Moves p i a (.resumed ok) .dequeue { p with queued := p.queued - 1 } (.leaving ok p.queued)
  | leave (ok : Bool) (q : ℕ) :
      Moves p i a (.leaving ok q) .gauge { p with gaugeQueued := some (q - 1) } (.left ok)
  | fail : Moves p i a (.left false) .fail p .timedOut
  | activate : Moves p i a (.left true) .activate { p with active := p.active + a.count }
      (.activated (p.active + a.count))
  | hold (v : ℕ) : Moves p i a (.activated v) .gauge { p with gaugeActive := some v } .holding
  | drop : Moves p i a .holding .drop { p with active := p.active - a.count } (.dropped p.active)
  | conclude (prev : ℕ) :
      Moves p i a (.dropped prev) .gauge { p with gaugeActive := some (prev - a.count) } .releasing
  | release : Moves p i a .releasing .release { p with sem := p.sem.addPermits a.permits } .released
  | cancel {ph : Phase} : ph = .waiting ∨ ph = .granted →
      Moves p i a ph .cancel { p with sem := p.sem.forget i a.permits } .cancelled

section

variable {p p' : HalfPool ι} {i : ι} {a : Acquire} {ph ph' : Phase} {x : PoolAct}

/-- **What an atomic operation does** is one of the cases. -/
theorem HalfPool.step_moves (h : p.step i a ph x = some (p', ph')) : p.Moves i a ph x p' ph' := by
  unfold HalfPool.step at h
  split at h
  case h_5 =>
    split_ifs at h with hg
    obtain ⟨rfl, rfl⟩ := Prod.mk.inj (Option.some.inj h)
    exact .grant hg
  case h_7 | h_8 =>
    obtain ⟨rfl, rfl⟩ := Prod.mk.inj (Option.some.inj h)
    exact .expire (by simp)
  case h_17 | h_18 =>
    obtain ⟨rfl, rfl⟩ := Prod.mk.inj (Option.some.inj h)
    exact .cancel (by simp)
  case h_19 => cases h
  all_goals
    obtain ⟨rfl, rfl⟩ := Prod.mk.inj (Option.some.inj h)
    constructor

end

/-! ## What a phase has -/

/-- The call has all its permits of the semaphore. -/
def Phase.holds : Phase → Bool
  | .resumed ok | .leaving ok _ | .left ok => ok
  | .granted | .activated _ | .holding | .dropped _ | .releasing => true
  | _ => false

/-- The call has permits of the semaphore, or waits for them. -/
def Phase.claims (ph : Phase) : Bool := ph.holds || decide (ph = .waiting)

/-- `active.fetch_add` is done and `active.fetch_sub` is not. -/
def Phase.counts : Phase → Bool
  | .activated _ | .holding => true
  | _ => false

/-- `queued.fetch_add` is done and `queued.fetch_sub` is not. -/
def Phase.queues : Phase → Bool
  | .entered | .loaded _ | .reported | .waiting | .granted | .resumed _ | .cancelled => true
  | _ => false

def Phase.suspended : Phase → Bool
  | .waiting | .granted => true
  | _ => false

/-- The permits a call has of the semaphore. -/
def Phase.held (a : Acquire) (ph : Phase) : ℕ := if ph.holds then a.permits else 0

/-- The permits a call waits for. -/
def Phase.asked (a : Acquire) (ph : Phase) : ℕ := if ph = .waiting then a.permits else 0

/-- What a call has added to `active`. -/
def Phase.counted (a : Acquire) (ph : Phase) : ℕ := if ph.counts then a.count else 0

theorem Phase.counted_le_held {a : Acquire} (h : a.count < 2 ^ 32) (ph : Phase) :
    ph.counted a ≤ ph.held a := by
  unfold counted held
  rw [Acquire.permits_eq_count h]
  cases ph <;> simp [counts, holds]

section

variable {p p' : HalfPool ι} {i : ι} {a : Acquire} {ph ph' : Phase} {x : PoolAct} {asked : ι → ℕ}

theorem not_mem_of_asked (hf : p.sem.Fair asked) (hi : asked i = 0) : i ∉ p.queue.map Prod.fst :=
  hf.lacking_eq_zero.mp (Nat.le_zero.mp (hi ▸ hf.lacking_le i))

/-- **The line stays in order**: the calls in it are those that wait. -/
theorem HalfPool.step_fair (h : p.step i a ph x = some (p', ph')) (hf : p.sem.Fair asked)
    (hi : asked i = ph.asked a) : p'.sem.Fair (Function.update asked i (ph'.asked a)) := by
  have hsame : ph'.asked a = ph.asked a → Function.update asked i (ph'.asked a) = asked := by
    intro heq
    rw [heq, ← hi, Function.update_eq_self]
  cases HalfPool.step_moves h with
  | join => exact hf.acquire (not_mem_of_asked hf hi) _
  | grant hg =>
    refine hf.congr fun y hy => Function.update_of_ne ?_ _ _
    rintro rfl
    exact hf.lacking_eq_zero.mp hg (List.mem_map_of_mem hy)
  | expire => exact hf.forget i _ _
  | cancel => exact hf.forget i _ _
  | release =>
    rw [hsame rfl]
    exact hf.addPermits _
  | _ =>
    rw [hsame rfl]
    exact hf

theorem HalfPool.forget_available (hf : p.sem.Fair asked) (hi : asked i = ph.asked a)
    (hph : ph = .waiting ∨ ph = .granted) :
    (p.sem.forget i a.permits).available + owed p.queue =
      p.available + (ph.held a + ph.asked a) + owed (p.sem.forget i a.permits).queue := by
  have hlack : p.lacking i ≤ ph.asked a := hi ▸ hf.lacking_le i
  have hall : ph.held a + ph.asked a = a.permits := by
    rcases hph with rfl | rfl
    · exact Nat.zero_add _
    · rfl
  have := Semaphore.forget_balance hf (n := a.permits) (hlack.trans (by omega))
  omega

/-- **Permits move** between the semaphore, its line and the call. -/
theorem HalfPool.step_available (h : p.step i a ph x = some (p', ph')) (hf : p.sem.Fair asked)
    (hi : asked i = ph.asked a) :
    p'.available + (ph'.held a + ph'.asked a) + owed p.queue =
      p.available + (ph.held a + ph.asked a) + owed p'.queue := by
  cases HalfPool.step_moves h with
  | join =>
    have hall : Phase.held a .waiting + Phase.asked a .waiting = a.permits := Nat.zero_add _
    rw [hall]
    exact Semaphore.acquire_balance p.sem i a.permits
  | grant => exact congrArg (p.available + · + owed p.queue) (Nat.add_comm a.permits 0)
  | expire hph => exact HalfPool.forget_available hf hi hph
  | cancel hph => exact HalfPool.forget_available hf hi hph
  | release =>
    have hadd : _ = p.available + owed _ + a.permits := Semaphore.addPermits_balance p.sem a.permits
    exact hadd.trans (Nat.add_right_comm _ _ _)
  | _ => rfl

theorem HalfPool.step_active (h : p.step i a ph x = some (p', ph')) (hp : ph.counted a ≤ p.active) :
    p'.active + ph.counted a = p.active + ph'.counted a := by
  cases HalfPool.step_moves h with
  | drop => exact Nat.sub_add_cancel hp
  | expire hph => rcases hph with rfl | rfl <;> rfl
  | cancel hph => rcases hph with rfl | rfl <;> rfl
  | _ => rfl

theorem HalfPool.step_queued (h : p.step i a ph x = some (p', ph'))
    (hp : ph.queues.toNat ≤ p.queued) :
    p'.queued + ph.queues.toNat = p.queued + ph'.queues.toNat := by
  cases HalfPool.step_moves h with
  | dequeue => exact Nat.sub_add_cancel hp
  | expire hph => rcases hph with rfl | rfl <;> rfl
  | cancel hph => rcases hph with rfl | rfl <;> rfl
  | _ => rfl

end

/-! ## Calls on one pool -/

structure PoolSys (ι : Type) where
  pool : HalfPool ι
  phase : ι → Phase

variable (req : ι → Acquire)

def PoolSys.init (capacity : ℕ) : PoolSys ι := ⟨.new capacity, fun _ => .idle⟩

/-- **A step**: call `x.1` does the atomic operation `x.2`. -/
def PoolSys.step (s : PoolSys ι) (x : ι × PoolAct) : Option (PoolSys ι) :=
  (s.pool.step x.1 (req x.1) (s.phase x.1) x.2).map fun r =>
    ⟨r.1, Function.update s.phase x.1 r.2⟩

def PoolSys.Step (s : PoolSys ι) (x : ι × PoolAct) (t : PoolSys ι) : Prop := s.step req x = some t

variable {req}

theorem PoolSys.step_cases {s t : PoolSys ι} {x : ι × PoolAct} (h : PoolSys.Step req s x t) :
    ∃ p' ph', s.pool.step x.1 (req x.1) (s.phase x.1) x.2 = some (p', ph') ∧
      t = ⟨p', Function.update s.phase x.1 ph'⟩ := by
  obtain ⟨⟨p', ph'⟩, hs, rfl⟩ := Option.map_eq_some_iff.mp h
  exact ⟨p', ph', hs, rfl⟩

end

end S3o
