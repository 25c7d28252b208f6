import S3o.Service.Store
import S3o.System.Discipline

/-!
# Calls and the object store

The calls of a system talk to one store. The service may serve a request any number of times once it
is sent, also when the call no longer waits for it, and a call receives the reply of one serving of
its request, or an error. A body is read in full, or with an error.

* `World`, `World.Step`: the calls, the store, and the replies it has given;
* `World.sys_run`: the calls alone make a run of the system;
* `Served`, **`recorded_run`**: every reply that a call has received was given while the call ran.
-/

namespace S3o

open Async Lts

variable {κ ι : Type}

/-- The calls, the store, and the replies given: to which call, to which question, and what. -/
structure World (κ ι : Type) where
  sys : Sys κ ι
  store : Store
  replies : List (ι × ℕ × Σ r : Request, r.Output)

/-- New clients, calls that have not started, and a store with the given objects. -/
def Setup.world (S : Setup κ ι) (objects : String × String → Option Bytes) : World κ ι :=
  ⟨S.init, .new objects, []⟩

/-- The answers that a call may receive. -/
def World.Answers (w : World κ ι) (i : ι) : Act κ → Prop
  | .code (some (.answered n (Await.http r) x)) =>
    (∃ e, x = .error e) ∨ ∃ o, x = .ok o ∧ (i, n, ⟨r, o⟩) ∈ w.replies
  | .code (some (.answered _ (Await.collect b) x)) => (∃ e, x = .error e) ∨ x = .ok b
  | _ => True

/-- A step of a call, or the serving of its request `r`, question `n`. -/
inductive World.Label (κ ι : Type)
  | call (i : ι) (a : Act κ)
  | serve (i : ι) (n : ℕ) (r : Request)

/-- **A step of the world.** -/
inductive World.Step [DecidableEq κ] [DecidableEq ι] (w : World κ ι) :
    World.Label κ ι → World κ ι → Prop
  | call {i a t} : Sys.Step w.sys (i, a) t → w.Answers i a → Step w (.call i a) { w with sys := t }
  | serve {i n r c o σ} : requested n r ∈ (w.sys.procs i).trace → w.store.serve c r = some (o, σ) →
      Step w (.serve i n r) { w with store := σ, replies := (i, n, ⟨r, o⟩) :: w.replies }

variable [DecidableEq κ] [DecidableEq ι] {S : Setup κ ι} {w w₀ w' m : World κ ι}
  {l : List (World.Label κ ι × World κ ι)} {objects : String × String → Option Bytes}

theorem World.sys_run (h : Run World.Step (S.world objects) l w) :
    ∃ l', Run Sys.Step S.init l' w.sys := by
  induction h with
  | nil => exact ⟨[], .nil⟩
  | snoc _ hs ih =>
    obtain ⟨l', hr⟩ := ih
    cases hs with
    | call hs ha => exact ⟨_, hr.snoc hs⟩
    | serve hq hserve => exact ⟨l', hr⟩

/-! ## Replies and the moments they were given -/

/-- Request `r`, question `n` of call `i`, was served with the reply `o` while the call ran: `m` is the
world before and `m'` the world after. -/
def Served (w₀ : World κ ι) (l : List (World.Label κ ι × World κ ι)) (i : ι) (n : ℕ) (r : Request)
    (o : r.Output) : Prop :=
  ∃ l₁ m m' c, Run World.Step w₀ l₁ m ∧ Visits w₀ l m' ∧ m'.sys = m.sys ∧
    m.store.serve c r = some (o, m'.store) ∧ requested n r ∈ (m.sys.procs i).trace ∧
    (m'.sys.procs i).active = true

theorem Served.cons {i : ι} {n : ℕ} {r : Request} {o : r.Output} {x : World.Label κ ι × World κ ι}
    (h : Served w₀ l i n r o) : Served w₀ (x :: l) i n r o := by
  obtain ⟨l₁, m, m', c, hr, hv, h⟩ := h
  exact ⟨l₁, m, m', c, hr, hv.cons, h⟩

/-- **What the replies of a world are**: given for a question of the call, while the call ran. -/
structure Recorded (w₀ : World κ ι) (l : List (World.Label κ ι × World κ ι)) (w : World κ ι) : Prop where
  asked : ∀ i n r o, (i, n, ⟨r, o⟩) ∈ w.replies → requested n r ∈ (w.sys.procs i).trace
  pending : ∀ i n r o, (i, n, ⟨r, o⟩) ∈ w.replies → (w.sys.procs i).hasEnded = false →
    Served w₀ l i n r o
  known : ∀ i n r o, replied n r (.ok o) ∈ (w.sys.procs i).trace →
    (i, n, ⟨r, o⟩) ∈ w.replies ∧ Served w₀ l i n r o
  whole : ∀ i n b d, collected n b (.ok d) ∈ (w.sys.procs i).trace → d = b

theorem started_of_mem (h : Run World.Step (S.world objects) l w) {i : ι} {e : Ev (S3 κ)}
    (he : e ∈ (w.sys.procs i).trace) : (w.sys.procs i).started = true := by
  obtain ⟨l', hr⟩ := World.sys_run h
  have hd := tidy_run hr i
  generalize w.sys.procs i = q at *
  cases hd with
  | fresh hp => cases he
  | _ => rfl

/-- **Replies are given while the call runs.** -/
theorem recorded_run (h : Run World.Step (S.world objects) l w) :
    Recorded (S.world objects) l w := by
  refine h.history (I := Recorded (S.world objects)) ⟨?_, ?_, ?_, ?_⟩ ?_
  · exact fun i n r o hm => absurd hm List.not_mem_nil
  · exact fun i n r o hm => absurd hm List.not_mem_nil
  · exact fun i n r o hm => absurd hm List.not_mem_nil
  · exact fun i n b d hm => absurd hm List.not_mem_nil
  intro l w x t hr hI hs
  cases hs with
  | @call i a t hs ha =>
    refine ⟨?_, ?_, ?_, ?_⟩
    · intro j n r o hm
      dsimp only
      rw [(hs.trace_eq j).1]
      exact List.mem_append_right _ (hI.asked j n r o hm)
    · intro j n r o hm hend
      refine (hI.pending j n r o hm ?_).cons
      by_contra he
      rw [(hs.trace_eq j).2 (by simpa using he)] at hend
      exact he hend
    · intro j n r o hm
      rcases hs.mem_trace hm with hm | ⟨rfl, rfl⟩
      · obtain ⟨hrep, hserved⟩ := hI.known j n r o hm
        exact ⟨hrep, hserved.cons⟩
      · obtain ⟨e, hx⟩ | ⟨o', hx, hrep⟩ := ha
        · cases hx
        · cases hx
          have hact := (hs.event_active rfl).1
          refine ⟨hrep, (hI.pending j n r o hrep ?_).cons⟩
          unfold Proc.active at hact
          simpa using (Bool.and_eq_true_iff.mp hact).2
    · intro j n b d hm
      rcases hs.mem_trace hm with hm | ⟨rfl, rfl⟩
      · exact hI.whole j n b d hm
      · obtain ⟨e, hx⟩ | hx := ha
        · cases hx
        · exact Except.ok.inj hx
  | @serve i n r c o σ hq hserve =>
    refine ⟨?_, ?_, ?_, hI.whole⟩
    · intro j n' r' o' hm
      rcases List.mem_cons.mp hm with heq | hm
      · cases heq
        exact hq
      · exact hI.asked j n' r' o' hm
    · intro j n' r' o' hm hend
      rcases List.mem_cons.mp hm with heq | hm
      · cases heq
        refine ⟨_, w, _, c, hr, Visits.head, rfl, hserve, hq, ?_⟩
        unfold Proc.active
        rw [started_of_mem hr hq, hend]
        rfl
      · exact (hI.pending j n' r' o' hm hend).cons
    · intro j n' r' o' hm
      obtain ⟨hrep, hserved⟩ := hI.known j n' r' o' hm
      exact ⟨List.mem_cons_of_mem _ hrep, hserved.cons⟩

end S3o
