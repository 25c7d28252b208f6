import S3o.Lts.Family
import S3o.Client

/-!
# Calls in progress

Any number of calls run interleaved on the pools of their clients. A call that has started runs its
program, holds a stack of guards, and can be dropped wherever it is suspended: then the futures in
progress are dropped first and the guards after them, newest first.

* `Ticket`: a guard, or an acquisition in progress;
* `Proc`, `Proc.Step`: one call and the steps that leave the pools alone;
* `Setup`, `Sys`, **`Sys.Step`**: the calls and the pools, and every step of either;
* `Proc.tally`, `Proc.records`: what the call has recorded.
-/

namespace S3o

open Async Lts

/-- What a call returns. -/
abbrev Outcome := S3Result Value

/-- A guard of `sem`, or an acquisition in progress. -/
structure Ticket (κ : Type) where
  sem : κ × Half
  amt : Acquire
  phase : Phase

/-- What a call is doing. -/
inductive Mode (κ : Type)
  /-- Not started. -/
  | fresh (p : Prog (S3 κ) Outcome)
  | live (p : Prog (S3 κ) Outcome)
  /-- Its future is being dropped; `n` futures in progress are still to be dropped. -/
  | unwinding (n : ℕ)
  /-- It has returned, or its future is dropped. -/
  | ended (r : Option Outcome)

/-- A call: its guards, newest first, the last instant it has seen, the number of requests it has
sent, and its events, newest first. -/
structure Proc (κ : Type) where
  mode : Mode κ
  tickets : List (Ticket κ)
  clock : ℕ
  sends : ℕ
  trace : List (Ev (S3 κ))

/-- The kinds of steps. -/
inductive Act (κ : Type)
  | start
  /-- The code of the call goes on, with an event that others can see or without. -/
  | code (e : Option (Ev (S3 κ)))
  /-- An atomic operation of the newest ticket. -/
  | pool (x : PoolAct)
  /-- The future is dropped while it waits for its futures. -/
  | cancel
  | dropFut
  | pop
  | finish

variable {κ : Type}

/-- The tickets after an event. `none`: the event is not possible. -/
def Ticket.after [DecidableEq κ] (e : Option (Ev (S3 κ))) (ts : List (Ticket κ)) :
    Option (List (Ticket κ)) :=
  match e, ts with
  | some (.want h a), ts => some (⟨h, a, .idle⟩ :: ts)
  | some (.got h a _), ⟨h', a', .holding⟩ :: ts =>
    if h = h' ∧ a = a' then some (⟨h', a', .holding⟩ :: ts) else none
  | some (.lost h a), ⟨h', a', .timedOut⟩ :: ts => if h = h' ∧ a = a' then some ts else none
  | some .freed, ⟨_, _, .released⟩ :: ts => some ts
  | some (.got _ _ _), _ | some (.lost _ _), _ | some .freed, _ => none
  | _, ts => some ts

/-- **What an event does to the tickets**: it adds one, or takes a finished one away, or neither. -/
theorem Ticket.after_cases [DecidableEq κ] {e : Option (Ev (S3 κ))} {ts ts' : List (Ticket κ)}
    (h : Ticket.after e ts = some ts') :
    (∃ k a, e = some (.want k a) ∧ ts' = ⟨k, a, .idle⟩ :: ts) ∨
    (∀ k a, e ≠ some (.want k a)) ∧
      (ts' = ts ∨ ∃ tk, ts = tk :: ts' ∧ (tk.phase = .timedOut ∨ tk.phase = .released)) := by
  unfold Ticket.after at h
  split at h
  · obtain rfl := Option.some.inj h
    exact Or.inl ⟨_, _, rfl, rfl⟩
  · split_ifs at h
    obtain rfl := Option.some.inj h
    exact Or.inr ⟨nofun, Or.inl rfl⟩
  · split_ifs at h
    obtain rfl := Option.some.inj h
    exact Or.inr ⟨nofun, Or.inr ⟨_, rfl, Or.inl rfl⟩⟩
  · obtain rfl := Option.some.inj h
    exact Or.inr ⟨nofun, Or.inr ⟨_, rfl, Or.inr rfl⟩⟩
  · cases h
  · cases h
  · cases h
  · rename_i hwant _ _ _ _ _ _
    obtain rfl := Option.some.inj h
    refine Or.inr ⟨?_, Or.inl rfl⟩
    rintro k a rfl
    exact hwant k a rfl

/-- The number of requests sent by an event. -/
def sentBy : Option (Ev (S3 κ)) → ℕ
  | some (.sent _ _) => 1
  | _ => 0

/-- The program is where a scope ends. -/
def AtRelease : Prog (S3 κ) Outcome → Bool
  | .release _ => true
  | _ => false

/-- Which atomic operations of its newest ticket a call does: a guard is dropped where its scope ends,
and a call being dropped drops its guards once its futures are gone. -/
def Mode.allows : Mode κ → PoolAct → Bool
  | .live p, x => decide (x ≠ .drop) || AtRelease p
  | .unwinding n, _ => decide (n = 0)
  | _, _ => false

/-- What a call is doing after an operation of its newest ticket. -/
def Mode.afterPool (m : Mode κ) (x : PoolAct) : Mode κ := if x = .cancel then .unwinding 0 else m

theorem Mode.afterPool_of_ne (m : Mode κ) {x : PoolAct} (hx : x ≠ .cancel) : m.afterPool x = m :=
  if_neg hx

/-- **A step of a call** that leaves the pools alone. -/
inductive Proc.Step [DecidableEq κ] : Proc κ → Act κ → Proc κ → Prop
  | start {p ts c n τ} (t : ℕ) : c ≤ t → Step ⟨.fresh p, ts, c, n, τ⟩ .start ⟨.live p, ts, t, n, τ⟩
  | code {p p' e ts ts' c n τ} (t : ℕ) : c ≤ t → Prog.Step t n p e p' →
      Ticket.after e ts = some ts' →
      Step ⟨.live p, ts, c, n, τ⟩ (.code e) ⟨.live p', ts', t, n + sentBy e, e.toList ++ τ⟩
  | cancel {p ts c n τ} : p.Suspended →
      Step ⟨.live p, ts, c, n, τ⟩ .cancel ⟨.unwinding p.inFlight, ts, c, n, τ⟩
  | dropFut {m ts c n τ} : Step ⟨.unwinding (m + 1), ts, c, n, τ⟩ .dropFut ⟨.unwinding m, ts, c, n, τ⟩
  | pop {h a ph ts c n τ} : ph = .released ∨ ph = .cancelled →
      Step ⟨.unwinding 0, ⟨h, a, ph⟩ :: ts, c, n, τ⟩ .pop ⟨.unwinding 0, ts, c, n, τ⟩
  | dead {c n τ} (t : ℕ) : c ≤ t → Step ⟨.unwinding 0, [], c, n, τ⟩ .finish ⟨.ended none, [], t, n, τ⟩
  | ret {r c n τ} (t : ℕ) : c ≤ t →
      Step ⟨.live (.ret r), [], c, n, τ⟩ .finish ⟨.ended (some r), [], t, n, τ⟩

/-- The clients and the calls of a system. A client and its clones have one pool and one
configuration. -/
structure Setup (κ ι : Type) where
  config : κ → S3Config
  valid : ∀ k, Validated (config k)
  chrono : Timestamp → Option Timestamp
  owner : ι → κ
  op : ι → Op

variable {ι : Type}

/-- The client of a call. -/
def Setup.client (S : Setup κ ι) (i : ι) : S3Client κ :=
  ⟨S.config (S.owner i), S.valid (S.owner i), S.owner i, S.chrono⟩

/-- The number of permits of a half pool. -/
def Setup.capacity (S : Setup κ ι) (h : κ × Half) : ℕ :=
  match h.2 with
  | .read => (S.config h.1).readConnections.toNat
  | .write => (S.config h.1).writeConnections.toNat

/-- The pools, and the calls. -/
structure Sys (κ ι : Type) where
  pools : κ × Half → HalfPool ι
  procs : ι → Proc κ

/-- New clients, and calls that have not started. -/
def Setup.init (S : Setup κ ι) : Sys κ ι where
  pools h := .new (S.capacity h)
  procs i := ⟨.fresh ((S.op i).program (S.client i)), [], 0, 0, []⟩

variable [DecidableEq κ] [DecidableEq ι]

/-- **A step of the system**, labelled with the call that takes it. -/
inductive Sys.Step : Sys κ ι → ι × Act κ → Sys κ ι → Prop
  | act {s i a q} : Proc.Step (s.procs i) a q →
      Step s (i, a) { s with procs := Function.update s.procs i q }
  | pool {s i tk ts x p ph} : (s.procs i).tickets = tk :: ts → (s.procs i).mode.allows x = true →
      (s.pools tk.sem).step i tk.amt tk.phase x = some (p, ph) →
      Step s (i, .pool x)
        { pools := Function.update s.pools tk.sem p
          procs := Function.update s.procs i
            { s.procs i with
              mode := (s.procs i).mode.afterPool x
              tickets := { tk with phase := ph } :: ts } }

theorem Sys.Step.other {s t : Sys κ ι} {i j : ι} {a : Act κ} (h : Sys.Step s (j, a) t) (hi : i ≠ j) :
    t.procs i = s.procs i := by
  cases h with
  | act hq => exact Function.update_of_ne hi _ _
  | pool htk hx hp => exact Function.update_of_ne hi _ _

/-! ## Observations -/

/-- The event of a step. -/
def Act.event : Act κ → Option (Ev (S3 κ))
  | .code e => e
  | _ => none

/-- The call has started. -/
def Proc.started (q : Proc κ) : Bool :=
  match q.mode with
  | .fresh _ => false
  | _ => true

/-- The call has returned or its future is dropped. -/
def Proc.hasEnded (q : Proc κ) : Bool :=
  match q.mode with
  | .ended _ => true
  | _ => false

omit [DecidableEq κ] [DecidableEq ι] in
theorem Proc.hasEnded_iff {q : Proc κ} : q.hasEnded = true ↔ ∃ r, q.mode = .ended r := by
  unfold Proc.hasEnded
  cases q.mode <;> simp

/-- Between the call and its end. -/
def Proc.active (q : Proc κ) : Bool := q.started && !q.hasEnded

/-- The requests whose headers or body the call is reading: one for each future in progress, until
it is dropped. -/
def Proc.outstanding (q : Proc κ) : ℕ :=
  match q.mode with
  | .live p => p.inFlight
  | .unwinding n => n
  | _ => 0

/-- What the tickets of `h` of a call add up to. -/
def Proc.total (f : Acquire → Phase → ℕ) (h : κ × Half) (q : Proc κ) : ℕ :=
  (q.tickets.map fun tk => if tk.sem = h then f tk.amt tk.phase else 0).sum

/-- The permits a call has of `h`. -/
def Proc.held (h : κ × Half) (q : Proc κ) : ℕ := q.total Phase.held h

/-- The permits of `h` a call waits for. -/
def Proc.wanted (h : κ × Half) (q : Proc κ) : ℕ := q.total Phase.asked h

/-- The events of a call. -/
def Proc.past (q : Proc κ) : Set (Ev (S3 κ)) := {e | e ∈ q.trace}

/-- An acquisition has timed out, or an error was received. -/
def Failed (past : Set (Ev (S3 κ))) : Prop :=
  (∃ h a, .lost h a ∈ past) ∨ (∃ n r e, replied n r (.error e) ∈ past) ∨
    ∃ n b e, collected n b (.error e) ∈ past

/-- The calls into `metrics.rs`, newest first. -/
def metricsOf (τ : List (Ev (S3 κ))) : List Metric :=
  τ.filterMap fun
    | .emit e => some e
    | _ => none

/-- What the call has counted. -/
def Proc.tally (q : Proc κ) : Tally := replay (metricsOf q.trace)

/-- What the call has recorded, its `Drop` included once it has ended. -/
def Proc.records (q : Proc κ) : List Record :=
  if q.hasEnded then q.tally.close q.clock else q.tally.records

/-! ## What a step does to the traces -/

omit [DecidableEq ι] in
theorem Proc.Step.trace_eq {q q' : Proc κ} {a : Act κ} (h : Proc.Step q a q') :
    q'.trace = a.event.toList ++ q.trace ∧ q.hasEnded = false := by
  cases h <;> exact ⟨rfl, rfl⟩

/-- **What a step does to each call**: one call may add an event, and those that have ended stay as they
are. -/
theorem Sys.Step.trace_eq {s t : Sys κ ι} {i : ι} {a : Act κ} (h : Sys.Step s (i, a) t) (j : ι) :
    (t.procs j).trace = (if j = i then a.event.toList else []) ++ (s.procs j).trace ∧
      ((s.procs j).hasEnded = true → t.procs j = s.procs j) := by
  by_cases hj : j = i
  · subst hj
    rw [if_pos rfl]
    cases h with
    | @act _ _ q hq =>
      obtain ⟨htr, hend⟩ := hq.trace_eq
      dsimp only
      rw [Function.update_self]
      refine ⟨htr, fun he => ?_⟩
      rw [hend] at he
      cases he
    | @pool _ tk ts x p ph htk hx hp =>
      dsimp only
      rw [Function.update_self]
      refine ⟨rfl, fun he => ?_⟩
      obtain ⟨r, hm⟩ := Proc.hasEnded_iff.mp he
      rw [hm] at hx
      cases hx
  · rw [if_neg hj]
    cases h with
    | act hq =>
      dsimp only
      rw [Function.update_of_ne hj]
      exact ⟨rfl, fun _ => rfl⟩
    | pool htk hx hp =>
      dsimp only
      rw [Function.update_of_ne hj]
      exact ⟨rfl, fun _ => rfl⟩

theorem Sys.Step.mem_trace {s t : Sys κ ι} {i j : ι} {a : Act κ} {e : Ev (S3 κ)}
    (h : Sys.Step s (i, a) t) (he : e ∈ (t.procs j).trace) :
    e ∈ (s.procs j).trace ∨ j = i ∧ a = .code (some e) := by
  rw [(h.trace_eq j).1] at he
  rcases List.mem_append.mp he with he | he
  · by_cases hj : j = i
    · rw [if_pos hj] at he
      have ha : a.event = some e := Option.mem_toList.mp he
      cases a with
      | code x => exact Or.inr ⟨hj, congrArg _ ha⟩
      | _ => cases ha
    · rw [if_neg hj] at he
      cases he
  · exact Or.inl he

/-- Only a running call causes an event. -/
theorem Sys.Step.event_active {s t : Sys κ ι} {i : ι} {a : Act κ} {e : Ev (S3 κ)}
    (h : Sys.Step s (i, a) t) (he : a.event = some e) :
    (s.procs i).active = true ∧ (t.procs i).active = true := by
  cases h with
  | @act _ _ q hq =>
    dsimp only
    rw [Function.update_self]
    generalize s.procs i = q₀ at hq
    cases hq with
    | code => exact ⟨rfl, rfl⟩
    | _ => cases he
  | pool htk hx hp => cases he

end S3o
