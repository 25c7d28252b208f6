import S3o.Service.World
import S3o.System.Advance

/-!
# Scripted worlds

* `World.oracle`: the answers that a call can receive;
* `World.next`, `World.cmd`: commands;
* **`World.play`**, `Setup.play`: runs that are computed;
* `World.ask`: steps of one call that is served when it is answered.
-/

namespace S3o

open Async Lts

variable {κ ι : Type} [DecidableEq κ] [DecidableEq ι]

/-- The replies that the service has given for a call, and every body in full. -/
def World.oracle (w : World κ ι) (i : ι) (n : ℕ) : ∀ q, (S3 κ).Ans q
  | .http r =>
    match w.replies.findSome? (fun x =>
      if h : x.1 = i ∧ x.2.1 = n ∧ x.2.2.1 = r then some (h.2.2 ▸ x.2.2.2 : r.Output) else none) with
    | some o => .ok o
    | none => .error (.other "no reply")
  | .collect b => .ok b

/-- A command to a call, or to the service: to serve question `n` of a call. -/
inductive World.Cmd (ι : Type)
  | go (i : ι)
  | pool (i : ι) (x : PoolAct)
  | serve (i : ι) (n : ℕ) (c : Choice)

/-- The request that a call has sent as question `n`. -/
def Proc.request (q : Proc κ) (n : ℕ) : Option Request :=
  q.trace.findSome? fun
    | .sent m (Await.http r) => if m = n then some r else none
    | _ => none

/-- The step of a command. -/
def World.next (w : World κ ι) : World.Cmd ι → Option (World.Label κ ι × World κ ι)
  | .go i => (w.sys.go (w.oracle i) i).map fun x => (.call i x.1, { w with sys := x.2 })
  | .pool i x => (w.sys.op i x).map fun t => (.call i (.pool x), { w with sys := t })
  | .serve i n c => ((w.sys.procs i).request n).bind fun r => (w.store.serve c r).map fun x =>
    (.serve i n r, { w with store := x.2, replies := (i, n, ⟨r, x.1⟩) :: w.replies })

/-- The world after a command, if the label of its step is allowed. -/
def World.cmd (ok : World.Label κ ι → Bool) (w : World κ ι) (c : World.Cmd ι) : Option (World κ ι) :=
  (w.next c).bind fun x => if ok x.1 then some x.2 else none

omit [DecidableEq κ] [DecidableEq ι] in
theorem Proc.request_mem {q : Proc κ} {n : ℕ} {r : Request} (h : q.request n = some r) :
    requested n r ∈ q.trace := by
  obtain ⟨e, he, h⟩ := List.exists_of_findSome?_eq_some h
  split at h
  · split_ifs at h with hn
    cases h
    rw [← hn]
    exact he
  · cases h

omit [DecidableEq κ] in
theorem World.oracle_ok {w : World κ ι} {i : ι} {n : ℕ} {r : Request} {o : r.Output}
    (h : w.oracle i n (Await.http r) = .ok o) : (i, n, ⟨r, o⟩) ∈ w.replies := by
  unfold World.oracle at h
  dsimp only at h
  split at h
  · rename_i o' hfind
    cases h
    obtain ⟨⟨j, m, r', o'⟩, hx, h⟩ := List.exists_of_findSome?_eq_some hfind
    split_ifs at h with hc
    obtain ⟨rfl, rfl, rfl⟩ := hc
    cases h
    exact hx
  · cases h

theorem Proc.move_answer {o : ℕ → ∀ q, (S3 κ).Ans q} {q q' : Proc κ} {m : ℕ} {x : (S3 κ).Ask}
    {r : (S3 κ).Ans x} (h : q.move o = some (.act (.code (some (.answered m x r))) q')) :
    r = o m x := by
  have hcode : ∀ {p granted}, q.codeMove o p granted =
      some (.act (.code (some (.answered m x r))) q') → r = o m x := by
    intro p granted h
    obtain ⟨y, hy, h⟩ := Option.bind_eq_some_iff.mp h
    obtain ⟨ts, -, h⟩ := Option.map_eq_some_iff.mp h
    injection h with h₁ h₂
    injection h₁ with h₁
    exact Prog.next_answer hy h₁
  unfold Proc.move at h
  split at h
  · cases h
  · unfold Proc.liveMove at h
    split at h
    · cases h
    · split_ifs at h with hh
      · exact hcode h
      · split at h
        · cases h
        · exact hcode h
    · split at h
      · cases h
      · exact hcode h
    · exact hcode h
  · unfold Proc.unwindMove at h
    split at h
    · cases h
    · split at h
      · cases h
      · split at h
        · cases h
        · split_ifs at h
          cases h
  · cases h

theorem Sys.go_answer {o : ℕ → ∀ q, (S3 κ).Ans q} {s t : Sys κ ι} {i : ι} {n : ℕ} {q : (S3 κ).Ask}
    {x : (S3 κ).Ans q} (h : s.go o i = some (.code (some (.answered n q x)), t)) : x = o n q := by
  obtain ⟨m, hm, h⟩ := Option.bind_eq_some_iff.mp h
  cases m with
  | act a q' =>
    cases h
    exact Proc.move_answer hm
  | pool y =>
    obtain ⟨t', -, h⟩ := Option.map_eq_some_iff.mp h
    cases h

theorem World.go_answers {w : World κ ι} {i : ι} {a : Act κ} {t : Sys κ ι}
    (h : w.sys.go (w.oracle i) i = some (a, t)) : w.Answers i a := by
  unfold World.Answers
  split
  · rename_i n r x
    have hx := Sys.go_answer h
    cases x with
    | error e => exact Or.inl ⟨e, rfl⟩
    | ok o => exact Or.inr ⟨o, rfl, World.oracle_ok hx.symm⟩
  · exact Or.inr (Sys.go_answer h)
  · trivial

theorem World.next_step {w w' : World κ ι} {c : World.Cmd ι} {x : World.Label κ ι}
    (h : w.next c = some (x, w')) : World.Step w x w' := by
  cases c with
  | go i =>
    obtain ⟨⟨a, t⟩, hgo, heq⟩ := Option.map_eq_some_iff.mp h
    cases heq
    exact .call (Sys.go_step hgo).1 (World.go_answers hgo)
  | pool i x =>
    obtain ⟨t, hop, heq⟩ := Option.map_eq_some_iff.mp h
    cases heq
    exact .call (Sys.op_step hop) trivial
  | serve i n c =>
    obtain ⟨r, hr, h⟩ := Option.bind_eq_some_iff.mp h
    obtain ⟨⟨o, σ⟩, hs, heq⟩ := Option.map_eq_some_iff.mp h
    cases heq
    exact .serve (Proc.request_mem hr) hs

theorem World.cmd_step {ok : World.Label κ ι → Bool} {w w' : World κ ι} {c : World.Cmd ι}
    (h : w.cmd ok c = some w') : ∃ x, World.Step w x w' ∧ ok x = true := by
  obtain ⟨⟨x, t⟩, hn, h⟩ := Option.bind_eq_some_iff.mp h
  split_ifs at h with hok
  cases h
  exact ⟨x, World.next_step hn, hok⟩

/-- **The run of a script**, with steps that are allowed. -/
theorem World.play {ok : World.Label κ ι → Bool} {w w' : World κ ι} {cs : List (World.Cmd ι)}
    (h : exec (World.cmd ok) w cs = some w') :
    ∃ l, Run (fun w x w' => World.Step w x w' ∧ ok x = true) w l w' :=
  exec_reach (fun _ _ _ => World.cmd_step) h .nil

theorem Setup.play (S : Setup κ ι) (objects : String × String → Option Bytes) (cs : List (World.Cmd ι))
    (h : (exec (World.cmd fun _ => true) (S.world objects) cs).isSome = true) :
    ∃ l w, Run World.Step (S.world objects) l w ∧
      exec (World.cmd fun _ => true) (S.world objects) cs = some w := by
  obtain ⟨w, hw⟩ := Option.isSome_iff_exists.mp h
  obtain ⟨l, hr⟩ := World.play hw
  exact ⟨l, w, hr.imp fun _ _ _ h => h.1, hw⟩

/-- The answers of a service that serves a question when it answers it. -/
def World.service (w : World κ ι) (c : Choice) : ∀ q, (S3 κ).Ans q
  | .http r => ((w.store.serve c r).map fun x => .ok x.1).getD (.error (.other "refused"))
  | .collect b => .ok b

/-- Call `i` goes on, answered by such a service. -/
def World.ask (c : Choice) (w : World κ ι) (i : ι) : Option (World κ ι) :=
  (w.sys.go (fun _ => w.service c) i).map fun
    | (.code (some (.answered n (Await.http r) _)), t) =>
      ((w.store.serve c r).map fun x => ⟨t, x.2, (i, n, ⟨r, x.1⟩) :: w.replies⟩).getD { w with sys := t }
    | (_, t) => { w with sys := t }

/-- The step is one of call `i`, or the serving of one of its requests. -/
def World.Label.by (i : ι) : World.Label κ ι → Prop
  | .call j _ | .serve j _ _ => j = i

/-- A service that tells every id. -/
def plainChoice (uid : String) : Choice := ⟨uid, "etag", true, ⟨none, none, none, none⟩,
  ⟨none, none, none, none⟩⟩

/-- Call `i` alone, an upload of one part under the id `uid`. -/
def uploadScript {ι : Type} (i : ι) (uid : String) : List (World.Cmd ι) :=
  List.replicate 18 (.go i) ++ .serve i 0 (plainChoice uid) :: List.replicate 5 (.go i) ++
    .serve i 1 (plainChoice uid) :: List.replicate 7 (.go i) ++
    .serve i 2 (plainChoice uid) :: List.replicate 10 (.go i)

/-- Call `i` alone, a download, as far as the GET of its only range. -/
def measureScript {ι : Type} (i : ι) : List (World.Cmd ι) :=
  List.replicate 17 (.go i) ++ .serve i 0 (plainChoice "") :: List.replicate 22 (.go i)

/-- The rest of it. -/
def rangeScript {ι : Type} (i : ι) : List (World.Cmd ι) :=
  .serve i 1 (plainChoice "") :: List.replicate 18 (.go i)

end S3o
