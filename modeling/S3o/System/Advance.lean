import S3o.Async.Next
import S3o.System.Discipline

/-!
# Calls that go on by themselves

* `Phase.act`, `Proc.move`, `Sys.go`, `Sys.goAt`: the next step of a call, with the answers of an oracle;
* `Cmd`, `Sys.command`, `Setup.script`, `Setup.observeRun`: scripted runs.
-/

namespace S3o

open Async Lts

variable {κ ι : Type}

/-- The operation with which a ticket goes on by itself. -/
def Phase.act : Phase → Option PoolAct
  | .idle => some .enqueue
  | .entered => some .load
  | .loaded _ | .leaving _ _ | .activated _ | .dropped _ => some .gauge
  | .reported => some .join
  | .waiting => some .grant
  | .granted => some .resume
  | .resumed _ => some .dequeue
  | .left true => some .activate
  | .left false => some .fail
  | .holding => some .drop
  | .releasing => some .release
  | .released | .timedOut | .cancelled => none

/-- What a call does next: a step of its own, or an operation of its newest ticket. -/
inductive Move (κ : Type)
  | act (a : Act κ) (q : Proc κ)
  | pool (x : PoolAct)

/-- The next step of the code. -/
def Proc.codeMove [DecidableEq κ] (o : ℕ → ∀ q, (S3 κ).Ans q) (q : Proc κ) (p : Prog (S3 κ) Outcome)
    (granted : Bool) : Option (Move κ) :=
  (p.next o q.clock q.sends granted).bind fun x =>
    (Ticket.after x.1 q.tickets).map fun ts =>
      .act (.code x.1) ⟨.live x.2, ts, q.clock, q.sends + sentBy x.1, x.1.toList ++ q.trace⟩

/-- The next move of a call whose future is dropped. -/
def Proc.unwindMove (q : Proc κ) : ℕ → Option (Move κ)
  | m + 1 => some (.act .dropFut { q with mode := .unwinding m })
  | 0 => match q.tickets with
    | [] => some (.act .finish { q with mode := .ended none })
    | tk :: ts => match tk.phase.act with
      | some x => some (.pool x)
      | none => if tk.phase = .released ∨ tk.phase = .cancelled then
          some (.act .pop { q with tickets := ts }) else none

/-- The next move of a live call. -/
def Proc.liveMove [DecidableEq κ] (o : ℕ → ∀ q, (S3 κ).Ans q) (q : Proc κ) (p : Prog (S3 κ) Outcome) :
    Option (Move κ) :=
  match p, q.tickets with
  | .ret r, [] => some (.act .finish { q with mode := .ended (some r) })
  | .acquiring h a s k, tk :: _ =>
    if tk.phase = .holding then q.codeMove o (.acquiring h a s k) true
    else match tk.phase.act with
      | some x => some (.pool x)
      | none => q.codeMove o (.acquiring h a s k) false
  | .release k, tk :: _ => match tk.phase.act with
    | some x => some (.pool x)
    | none => q.codeMove o (.release k) false
  | p, _ => q.codeMove o p false

/-- The next move of a call. -/
def Proc.move [DecidableEq κ] (o : ℕ → ∀ q, (S3 κ).Ans q) (q : Proc κ) : Option (Move κ) :=
  match q.mode with
  | .fresh p => some (.act .start { q with mode := .live p })
  | .live p => q.liveMove o p
  | .unwinding m => q.unwindMove m
  | .ended _ => none

theorem Proc.codeMove_step [DecidableEq κ] {o : ℕ → ∀ q, (S3 κ).Ans q} {q q' : Proc κ}
    {p : Prog (S3 κ) Outcome} {granted : Bool} {a : Act κ} (hm : q.mode = .live p)
    (h : q.codeMove o p granted = some (.act a q')) : Proc.Step q a q' ∧ ∃ e, a = .code e := by
  obtain ⟨⟨e, p'⟩, hn, h⟩ := Option.bind_eq_some_iff.mp h
  obtain ⟨ts, ht, h⟩ := Option.map_eq_some_iff.mp h
  cases h
  obtain ⟨mode, tickets, clock, sends, trace⟩ := q
  obtain rfl : mode = .live p := hm
  exact ⟨.code clock le_rfl (Prog.next_step hn) ht, e, rfl⟩

/-- Not a timeout and not a drop. -/
def Act.calm : Act κ → Bool
  | .pool .expire | .pool .cancel | .cancel => false
  | _ => true

/-- A step that reads the clock. -/
def Act.timed : Act κ → Bool
  | .start | .code _ | .finish => true
  | _ => false

theorem Proc.unwindMove_step [DecidableEq κ] {q q' : Proc κ} {m : ℕ} {a : Act κ}
    (hm : q.mode = .unwinding m) (h : q.unwindMove m = some (.act a q')) :
    Proc.Step q a q' ∧ a.calm = true := by
  obtain ⟨mode, tickets, clock, sends, trace⟩ := q
  obtain rfl : mode = .unwinding m := hm
  cases m with
  | succ m => cases h; exact ⟨.dropFut, rfl⟩
  | zero =>
    cases tickets with
    | nil => cases h; exact ⟨.dead clock le_rfl, rfl⟩
    | cons tk ts =>
      rw [Proc.unwindMove] at h
      dsimp only at h
      split at h
      · cases h
      · split_ifs at h with hph
        cases h
        exact ⟨.pop hph, rfl⟩

theorem Proc.liveMove_step [DecidableEq κ] {o : ℕ → ∀ q, (S3 κ).Ans q} {q q' : Proc κ}
    {p : Prog (S3 κ) Outcome} {a : Act κ} (hm : q.mode = .live p)
    (h : q.liveMove o p = some (.act a q')) : Proc.Step q a q' ∧ a.calm = true := by
  have hcode : ∀ {granted}, q.codeMove o p granted = some (.act a q') →
      Proc.Step q a q' ∧ a.calm = true := by
    intro granted h
    obtain ⟨hs, e, rfl⟩ := Proc.codeMove_step hm h
    exact ⟨hs, rfl⟩
  unfold Proc.liveMove at h
  split at h
  · rename_i r ht
    cases h
    obtain ⟨mode, tickets, clock, sends, trace⟩ := q
    obtain rfl : mode = .live (.ret r) := hm
    obtain rfl : tickets = [] := ht
    exact ⟨.ret clock le_rfl, rfl⟩
  · split_ifs at h with hh
    · exact hcode h
    · split at h
      · cases h
      · exact hcode h
  · split at h
    · cases h
    · exact hcode h
  · exact hcode h

theorem Proc.move_step [DecidableEq κ] {o : ℕ → ∀ q, (S3 κ).Ans q} {q q' : Proc κ} {a : Act κ}
    (h : q.move o = some (.act a q')) : Proc.Step q a q' ∧ a.calm = true := by
  unfold Proc.move at h
  split at h
  · rename_i p hm
    cases h
    obtain ⟨mode, tickets, clock, sends, trace⟩ := q
    obtain rfl : mode = .fresh p := hm
    exact ⟨.start clock le_rfl, rfl⟩
  · exact Proc.liveMove_step ‹_› h
  · exact Proc.unwindMove_step ‹_› h
  · cases h

/-! ## The system -/

variable [DecidableEq κ] [DecidableEq ι]

/-- Operation `x` of the newest ticket of call `i`. -/
def Sys.op (s : Sys κ ι) (i : ι) (x : PoolAct) : Option (Sys κ ι) :=
  match (s.procs i).tickets with
  | [] => none
  | tk :: ts =>
    if (s.procs i).mode.allows x then
      ((s.pools tk.sem).step i tk.amt tk.phase x).map fun r =>
        { pools := Function.update s.pools tk.sem r.1
          procs := Function.update s.procs i
            { s.procs i with
              mode := (s.procs i).mode.afterPool x
              tickets := { tk with phase := r.2 } :: ts } }
    else none

/-- The next step of call `i`, with its label. -/
def Sys.go (o : ℕ → ∀ q, (S3 κ).Ans q) (s : Sys κ ι) (i : ι) : Option (Act κ × Sys κ ι) :=
  ((s.procs i).move o).bind fun
    | .act a q => some (a, { s with procs := Function.update s.procs i q })
    | .pool x => (s.op i x).map fun t => (.pool x, t)

theorem Sys.op_step {s t : Sys κ ι} {i : ι} {x : PoolAct} (h : s.op i x = some t) :
    Sys.Step s (i, .pool x) t := by
  unfold Sys.op at h
  split at h
  · cases h
  · rename_i tk ts ht
    split_ifs at h with hx
    obtain ⟨⟨p, ph⟩, hp, rfl⟩ := Option.map_eq_some_iff.mp h
    exact .pool ht hx hp

theorem Phase.act_calm {ph : Phase} {x : PoolAct} (h : ph.act = some x) :
    x ≠ .expire ∧ x ≠ .cancel := by
  cases ph with
  | left ok => cases ok <;> cases h <;> simp
  | _ => cases h <;> simp

theorem Proc.move_pool {o : ℕ → ∀ q, (S3 κ).Ans q} {q : Proc κ} {x : PoolAct}
    (h : q.move o = some (.pool x)) : ∃ ph : Phase, ph.act = some x := by
  have hcode : ∀ {p granted}, q.codeMove o p granted ≠ some (.pool x) := by
    intro p granted h
    obtain ⟨y, hn, h⟩ := Option.bind_eq_some_iff.mp h
    obtain ⟨ts, ht, h⟩ := Option.map_eq_some_iff.mp h
    cases h
  unfold Proc.move at h
  split at h
  · cases h
  · unfold Proc.liveMove at h
    split at h
    · cases h
    · split_ifs at h with hh
      · exact absurd h hcode
      · split at h
        · cases h
          exact ⟨_, ‹_›⟩
        · exact absurd h hcode
    · split at h
      · cases h
        exact ⟨_, ‹_›⟩
      · exact absurd h hcode
    · exact absurd h hcode
  · unfold Proc.unwindMove at h
    split at h
    · cases h
    · split at h
      · cases h
      · split at h
        · cases h
          exact ⟨_, ‹_›⟩
        · split_ifs at h
          cases h
  · cases h

/-- **What is computed is a step**, neither a timeout nor a drop. -/
theorem Sys.go_step {o : ℕ → ∀ q, (S3 κ).Ans q} {s t : Sys κ ι} {i : ι} {a : Act κ}
    (h : s.go o i = some (a, t)) : Sys.Step s (i, a) t ∧ a.calm = true := by
  obtain ⟨m, hm, h⟩ := Option.bind_eq_some_iff.mp h
  cases m with
  | act a' q =>
    cases h
    obtain ⟨hs, ha⟩ := Proc.move_step hm
    exact ⟨.act hs, ha⟩
  | pool x =>
    obtain ⟨t', ht, h⟩ := Option.map_eq_some_iff.mp h
    cases h
    obtain ⟨ph, hph⟩ := Proc.move_pool hm
    obtain ⟨he, hc⟩ := Phase.act_calm hph
    refine ⟨Sys.op_step ht, ?_⟩
    cases x <;> simp_all [Act.calm]

/-- The next step of the code of call `i`, at instant `t`. -/
def Sys.goAt (o : ℕ → ∀ q, (S3 κ).Ans q) (s : Sys κ ι) (i : ι) (t : ℕ) : Option (Act κ × Sys κ ι) :=
  match ({ s.procs i with clock := t }).move o with
  | some (.act a q) =>
    if a.timed = true ∧ (s.procs i).clock ≤ t then
      some (a, { s with procs := Function.update s.procs i q })
    else none
  | _ => none

/-- A step that reads the clock may be taken later. -/
theorem Proc.Step.later {q q' : Proc κ} {a : Act κ} {t : ℕ} (h : Proc.Step { q with clock := t } a q')
    (ha : a.timed = true) (ht : q.clock ≤ t) : Proc.Step q a q' := by
  obtain ⟨mode, tickets, clock, sends, trace⟩ := q
  cases h with
  | start u hu => exact .start u (ht.trans hu)
  | code u hu hp hts => exact .code u (ht.trans hu) hp hts
  | dead u hu => exact .dead u (ht.trans hu)
  | ret u hu => exact .ret u (ht.trans hu)
  | _ => cases ha

theorem Sys.goAt_step {o : ℕ → ∀ q, (S3 κ).Ans q} {s s' : Sys κ ι} {i : ι} {t : ℕ} {a : Act κ}
    (h : s.goAt o i t = some (a, s')) : Sys.Step s (i, a) s' := by
  unfold Sys.goAt at h
  split at h
  · rename_i a' q hm
    split_ifs at h with hc
    cases h
    exact .act ((Proc.move_step hm).1.later hc.1 hc.2)
  · cases h

/-! ## Scripts -/

/-- A command to a call: to go on by itself, at once or at an instant, to do an operation of its ticket, to
be dropped. -/
inductive Cmd
  | go
  | at (t : ℕ)
  | pool (x : PoolAct)

/-- The step of a command, with its label. -/
def Sys.command (o : ℕ → ∀ q, (S3 κ).Ans q) (s : Sys κ ι) (c : ι × Cmd) :
    Option ((ι × Act κ) × Sys κ ι) :=
  match c.2 with
  | .go => (s.go o c.1).map fun x => ((c.1, x.1), x.2)
  | .at t => (s.goAt o c.1 t).map fun x => ((c.1, x.1), x.2)
  | .pool x => (s.op c.1 x).map fun t => ((c.1, .pool x), t)

def Sys.cmd (o : ℕ → ∀ q, (S3 κ).Ans q) (s : Sys κ ι) (c : ι × Cmd) : Option (Sys κ ι) :=
  (s.command o c).map Prod.snd

theorem Sys.command_step {o : ℕ → ∀ q, (S3 κ).Ans q} {s t : Sys κ ι} {c : ι × Cmd} {x : ι × Act κ}
    (h : s.command o c = some (x, t)) : Sys.Step s x t := by
  obtain ⟨i, c⟩ := c
  cases c with
  | go =>
    obtain ⟨⟨a, t'⟩, hs, heq⟩ := Option.map_eq_some_iff.mp h
    cases heq
    exact (Sys.go_step hs).1
  | «at» u =>
    obtain ⟨⟨a, t'⟩, hs, heq⟩ := Option.map_eq_some_iff.mp h
    cases heq
    exact Sys.goAt_step hs
  | pool y =>
    obtain ⟨t', hs, heq⟩ := Option.map_eq_some_iff.mp h
    cases heq
    exact Sys.op_step hs

theorem Sys.cmd_step {o : ℕ → ∀ q, (S3 κ).Ans q} {s t : Sys κ ι} {c : ι × Cmd} (h : s.cmd o c = some t) :
    ∃ x, Sys.Step s x t := by
  obtain ⟨⟨x, t'⟩, hs, rfl⟩ := Option.map_eq_some_iff.mp h
  exact ⟨x, Sys.command_step hs⟩

theorem Setup.script (S : Setup κ ι) (o : ℕ → ∀ q, (S3 κ).Ans q) (cs : List (ι × Cmd))
    (h : (exec (Sys.cmd o) S.init cs).isSome = true) :
    ∃ l s, Run Sys.Step S.init l s ∧ exec (Sys.cmd o) S.init cs = some s := by
  obtain ⟨s, hs⟩ := Option.isSome_iff_exists.mp h
  obtain ⟨l, hr⟩ := exec_reach (fun _ _ _ => Sys.cmd_step) hs .nil
  exact ⟨l, s, hr, hs⟩

/-- **What is computed of a script** is seen at the end of its run. -/
theorem Setup.observe {β : Type*} (S : Setup κ ι) (o : ℕ → ∀ q, (S3 κ).Ans q) (cs : List (ι × Cmd))
    (f : Sys κ ι → β) {v : β} (h : (exec (Sys.cmd o) S.init cs).map f = some v) :
    ∃ l s, Run Sys.Step S.init l s ∧ f s = v := by
  obtain ⟨s, hs, hv⟩ := Option.map_eq_some_iff.mp h
  obtain ⟨l, s', hr, hs'⟩ := S.script o cs (Option.isSome_iff_exists.mpr ⟨s, hs⟩)
  obtain rfl := Option.some.inj (hs'.symm.trans hs)
  exact ⟨l, s', hr, hv⟩

theorem Setup.observeRun {β : Type*} (S : Setup κ ι) (o : ℕ → ∀ q, (S3 κ).Ans q) (cs : List (ι × Cmd))
    (f : List ((ι × Act κ) × Sys κ ι) × Sys κ ι → β) {v : β}
    (h : (exec (record (Sys.command o)) ([], S.init) cs).map f = some v) :
    ∃ l s, Run Sys.Step S.init l s ∧ f (l, s) = v := by
  obtain ⟨⟨l, s⟩, hs, hv⟩ := Option.map_eq_some_iff.mp h
  exact ⟨l, s, exec_record (fun _ _ _ _ => Sys.command_step) hs .nil, hv⟩

theorem one_le_isizeMax : 1 ≤ isizeMax := by decide

/-- A client of `smallConfig` with its clones. -/
def smallSetup (op : ι → Op) : Setup Unit ι where
  config _ := smallConfig
  valid _ := small_validated
  chrono := some
  owner _ := ()
  op := op

/-- The answers of a service that knows one object and accepts every write. -/
def sampleAnswer (body : Bytes) (_ : ℕ) : ∀ q, (S3 κ).Ans q
  | .http (.putObject ..) => .ok ()
  | .http (.getObject ..) => .ok ⟨body⟩
  | .http (.headObject ..) => .ok ⟨some body.length, none, none, none⟩
  | .http (.deleteObject ..) => .ok ()
  | .http (.listObjectsV2 ..) => .ok ⟨none, none, none, none⟩
  | .http (.createMultipartUpload ..) => .ok ⟨some "upload"⟩
  | .http (.uploadPart ..) => .ok ⟨some "etag"⟩
  | .http (.completeMultipartUpload ..) => .ok ()
  | .http (.abortMultipartUpload ..) => .ok ()
  | .collect stream => .ok stream

end S3o
