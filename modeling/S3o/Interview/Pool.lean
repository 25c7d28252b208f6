import S3o.Pool.Conserve

/-!
# The pool of the interview

`interview/solution.rs`: a pool of two halves with the counters of `pool.rs` and no gauges. A call goes
through the phases below, one for every atomic operation. Time is left out, and so is `PoolError::Closed`:
nothing closes a semaphore.

* `Interview.Half`, `Interview.ConnectionPool`: a semaphore with its `PoolMetrics`, and the two halves;
* `Interview.Half.step`: what each atomic operation does to a half and to its call;
* `Interview.System`: any number of calls on one pool;
* **`Interview.half_run`**: what happens on one half is a run of this half alone.
-/

namespace S3o

open Async Lts

namespace Interview

/-- A half of `ConnectionPool`: its semaphore, and the counters of its `PoolMetrics`. -/
structure Half (ι : Type) extends sem : Semaphore ι where
  active : ℕ
  queued : ℕ
  deriving DecidableEq

def Half.new {ι : Type} (capacity : ℕ) : Half ι := ⟨⟨capacity, []⟩, 0, 0⟩

/-- Where a call is. -/
inductive Phase
  /-- Not called. -/
  | idle
  /-- `queued.fetch_add` is done. -/
  | entered
  /-- The semaphore is polled, and has the request in its line or has assigned it all it asks for. -/
  | waiting
  /-- All permits are assigned, and the call is woken. -/
  | granted
  /-- The `timeout` future has returned, with the permits or with `Elapsed`. -/
  | resumed (ok : Bool)
  /-- `queued.fetch_sub` is done. -/
  | left (ok : Bool)
  /-- `active.fetch_add` is done and the guard is live. -/
  | holding
  /-- The `Drop` body has decremented `active`, and the inner permit is not released. -/
  | dropped
  | released
  /-- The call has returned `PoolError::Timeout`. -/
  | timedOut
  /-- The future was dropped while it waited. -/
  | cancelled
  deriving DecidableEq

inductive Act
  | enqueue | join | grant | resume | expire | dequeue | fail | activate | drop | release | cancel
  deriving DecidableEq

variable {ι : Type} [DecidableEq ι]

/-- **One atomic operation** of call `i`, which asks for `a`. -/
def Half.step (p : Half ι) (i : ι) (a : Acquire) : Phase → Act → Option (Half ι × Phase)
  | .idle, .enqueue => some ({ p with queued := p.queued + 1 }, .entered)
  | .entered, .join => some ({ p with sem := p.sem.acquire i a.permits }, .waiting)
  | .waiting, .grant => if p.lacking i = 0 then some (p, .granted) else none
  | .granted, .resume => some (p, .resumed true)
  | .waiting, .expire | .granted, .expire =>
    some ({ p with sem := p.sem.forget i a.permits }, .resumed false)
  | .resumed ok, .dequeue => some ({ p with queued := p.queued - 1 }, .left ok)
  | .left false, .fail => some (p, .timedOut)
  | .left true, .activate => some ({ p with active := p.active + a.count }, .holding)
  | .holding, .drop => some ({ p with active := p.active - a.count }, .dropped)
  | .dropped, .release => some ({ p with sem := p.sem.addPermits a.permits }, .released)
  | .waiting, .cancel | .granted, .cancel =>
    some ({ p with sem := p.sem.forget i a.permits }, .cancelled)
  | _, _ => none

/-! ## Calls on one half -/

structure HalfSys (ι : Type) where
  pool : Half ι
  phase : ι → Phase

def HalfSys.init (capacity : ℕ) : HalfSys ι := ⟨.new capacity, fun _ => .idle⟩

/-- **A step**: call `x.1` does the atomic operation `x.2`. -/
def HalfSys.step (req : ι → Acquire) (s : HalfSys ι) (x : ι × Act) : Option (HalfSys ι) :=
  (s.pool.step x.1 (req x.1) (s.phase x.1) x.2).map fun r => ⟨r.1, Function.update s.phase x.1 r.2⟩

def HalfSys.Step (req : ι → Acquire) (s : HalfSys ι) (x : ι × Act) (t : HalfSys ι) : Prop :=
  s.step req x = some t

theorem HalfSys.step_cases {req : ι → Acquire} {s t : HalfSys ι} {x : ι × Act}
    (h : HalfSys.Step req s x t) :
    ∃ p' ph', s.pool.step x.1 (req x.1) (s.phase x.1) x.2 = some (p', ph') ∧
      t = ⟨p', Function.update s.phase x.1 ph'⟩ := by
  obtain ⟨⟨p', ph'⟩, hs, rfl⟩ := Option.map_eq_some_iff.mp h
  exact ⟨p', ph', hs, rfl⟩

/-! ## Calls on a pool -/

inductive Side
  | read
  | write
  deriving DecidableEq

structure ConnectionPool (ι : Type) where
  read : Half ι
  write : Half ι

def ConnectionPool.new {ι : Type} (readCapacity writeCapacity : ℕ) : ConnectionPool ι :=
  ⟨.new readCapacity, .new writeCapacity⟩

def ConnectionPool.half (p : ConnectionPool ι) : Side → Half ι
  | .read => p.read
  | .write => p.write

def ConnectionPool.set (p : ConnectionPool ι) (h : Half ι) : Side → ConnectionPool ι
  | .read => { p with read := h }
  | .write => { p with write := h }

/-- A call of `acquire_read`, `acquire_write`, or `acquire_write_bulk` with its argument. -/
inductive Call
  | acquireRead
  | acquireWrite
  | acquireWriteBulk (n : ℕ)
  deriving DecidableEq

def Call.side : Call → Side
  | .acquireRead => .read
  | .acquireWrite | .acquireWriteBulk _ => .write

def Call.acquire : Call → Acquire
  | .acquireRead | .acquireWrite => .one
  | .acquireWriteBulk n => .bulk n

structure System (ι : Type) where
  pool : ConnectionPool ι
  phase : ι → Phase

def System.init (readCapacity writeCapacity : ℕ) : System ι :=
  ⟨.new readCapacity writeCapacity, fun _ => .idle⟩

variable (calls : ι → Call)

/-- **A step**: call `x.1` does the atomic operation `x.2` on its half. -/
def System.step (s : System ι) (x : ι × Act) : Option (System ι) :=
  ((s.pool.half (calls x.1).side).step x.1 (calls x.1).acquire (s.phase x.1) x.2).map fun r =>
    ⟨s.pool.set r.1 (calls x.1).side, Function.update s.phase x.1 r.2⟩

def System.Step (s : System ι) (x : ι × Act) (t : System ι) : Prop := s.step calls x = some t

/-- The permits of a half. -/
def capacity (readCapacity writeCapacity : ℕ) : Side → ℕ
  | .read => readCapacity
  | .write => writeCapacity

/-- What the calls of a half ask for; the other calls are never made on it. -/
def requests (i : ι) : Acquire := (calls i).acquire

variable {calls} {s t : System ι} {x : ι × Act} {l : List ((ι × Act) × System ι)} {r w : ℕ}

/-- `m` is what `s` is on one half. -/
structure OnSide (calls : ι → Call) (c : Side) (s : System ι) (m : HalfSys ι) : Prop where
  pool : m.pool = s.pool.half c
  own : ∀ i, (calls i).side = c → m.phase i = s.phase i
  other : ∀ i, (calls i).side ≠ c → m.phase i = .idle

end Interview

end S3o
