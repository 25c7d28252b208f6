import S3o.Async.Questions
import S3o.System.Cleanup

/-!
# Requests and their answers

A call numbers its requests apart, and is answered each at most once, with the answer to this request. It
does not return, and does not give a permit back, before all that it has sent is answered: when a part or a
range has failed, the others are still waited for.

* `op_fresh`: the operations start with no future in progress;
* `Proc.Paired`, `paired_run`: questions and answers in every run;
* `Proc.Paired.reply`: a request of a call that has returned has a reply;
* **`replies_paired`**: every request is answered once, and none is left open by a return.
-/

namespace S3o

open Async Lts

variable {κ ι : Type}

/-! ## The operations -/

section

variable {self : S3Client κ}

theorem structural_fresh : Structural (fun _ => True) True fun _ (p : Prog (S3 κ) _) => p.Fresh where
  ret _ := trivial
  bind := Prog.Fresh.bind
  clock _ := trivial
  log _ := trivial
  record _ := trivial
  acquire h := h
  release h := h
  wait _ := ⟨rfl, fun _ => trivial⟩
  stream _ _ := ⟨rfl, fun _ => trivial⟩
  loop _ _ _ := ⟨rfl, fun _ => trivial⟩

/-- **No operation starts with a future in progress.** -/
theorem op_fresh (op : Op) : (op.program self).Fresh :=
  op_of_structural structural_fresh trivial fun _ _ _ => trivial

end

/-! ## Calls -/

/-- **The questions and answers of a call.** -/
inductive Proc.Paired : Proc κ → Prop
  | fresh {p ts c} : p.Fresh → Paired ⟨.fresh p, ts, c, 0, []⟩
  | live {p ts c n τ} : p.Converses n τ → Paired ⟨.live p, ts, c, n, τ⟩
  | unwinding {p m ts c n τ} : Prog.Converses (α := Outcome) p n τ → Paired ⟨.unwinding m, ts, c, n, τ⟩
  | dropped {p ts c n τ} : Prog.Converses (α := Outcome) p n τ → Paired ⟨.ended none, ts, c, n, τ⟩
  | returned {r ts c n τ} : (Prog.ret r).Converses n τ → Paired ⟨.ended (some r), ts, c, n, τ⟩

section

variable {q q' : Proc κ}

theorem lt_sentBy {n : ℕ} {e : Option (Ev (S3 κ))} : ∀ x ∈ asked e.toList, n < n + sentBy e := by
  intro x hx
  cases e with
  | none => cases hx
  | some e =>
    cases e with
    | sent m q => exact Nat.lt_succ_self n
    | _ => cases hx

theorem Proc.Paired.step [DecidableEq κ] {a : Act κ} (h : q.Paired) (hs : Proc.Step q a q') :
    q'.Paired := by
  cases hs with
  | start t ht =>
    cases h with
    | fresh hp => exact .live (hp.converses 0)
  | code t ht hstep hts =>
    cases h with
    | live hp => exact .live (hp.step hstep (Nat.le_add_right _ _) lt_sentBy)
  | cancel hsus =>
    cases h with
    | live hp => exact .unwinding hp
  | dropFut =>
    cases h with
    | unwinding hp => exact .unwinding hp
  | pop hph =>
    cases h with
    | unwinding hp => exact .unwinding hp
  | dead t ht =>
    cases h with
    | unwinding hp => exact .dropped hp
  | ret t ht =>
    cases h with
    | live hp => exact .returned hp

theorem Proc.Paired.pool {x : PoolAct} {ts : List (Ticket κ)} (h : q.Paired)
    (hx : q.mode.allows x = true) :
    ({ q with mode := q.mode.afterPool x, tickets := ts } : Proc κ).Paired := by
  cases h with
  | fresh hp => cases hx
  | live hp =>
    dsimp only
    unfold Mode.afterPool
    split_ifs
    · exact .unwinding hp
    · exact .live hp
  | unwinding hp =>
    dsimp only
    unfold Mode.afterPool
    split_ifs
    · exact .unwinding hp
    · exact .unwinding hp
  | dropped hp => cases hx
  | returned hp => cases hx

/-- The trace of a call is that of a program, which is where the call is. -/
theorem Proc.Paired.converses (h : q.Paired) : ∃ (p : Prog (S3 κ) Outcome) (n : ℕ), p.Converses n q.trace ∧
    (∀ p', q.mode = .live p' → p = p') ∧ ∀ r, q.mode = .ended (some r) → p = .ret r := by
  cases h with
  | fresh hp => exact ⟨_, 0, hp.converses 0, nofun, nofun⟩
  | live hp => exact ⟨_, _, hp, fun p' hp' => Mode.live.inj hp', nofun⟩
  | unwinding hp => exact ⟨_, _, hp, nofun, nofun⟩
  | dropped hp => exact ⟨_, _, hp, nofun, nofun⟩
  | returned hp =>
    refine ⟨_, _, hp, nofun, fun r hr => ?_⟩
    cases hr
    rfl

theorem Proc.Paired.settled (h : q.Paired) {r : Outcome} (hm : q.mode = .ended (some r)) :
    (asked q.trace).Perm (answered q.trace) := by
  obtain ⟨p, n, hp, -, hret⟩ := h.converses
  obtain rfl := hret r hm
  exact (List.append_nil (answered q.trace)) ▸ hp.pairs

/-- **A request of a call that has returned has a reply.** -/
theorem Proc.Paired.reply (h : q.Paired) {r : Outcome} (hm : q.mode = .ended (some r)) {n : ℕ}
    {a : (S3 κ).Ask} (ha : .sent n a ∈ q.trace) : ∃ x, .answered n a x ∈ q.trace := by
  have hmem : (n, a) ∈ asked q.trace := List.mem_filterMap.mpr ⟨_, ha, rfl⟩
  obtain ⟨e, he, heq⟩ := List.mem_filterMap.mp ((h.settled hm).mem_iff.mp hmem)
  cases e with
  | answered n' a' x =>
    cases heq
    exact ⟨x, he⟩
  | _ => cases heq

end

/-! ## Every run -/

variable [DecidableEq κ] [DecidableEq ι] {S : Setup κ ι} {s : Sys κ ι} {l : List ((ι × Act κ) × Sys κ ι)}

theorem paired_run (h : Run Sys.Step S.init l s) (i : ι) : (s.procs i).Paired := by
  refine h.invariant (I := fun s => (s.procs i).Paired) (.fresh (op_fresh _)) fun s x t hI hs => ?_
  cases hs with
  | @act j a q hq =>
    by_cases hi : i = j
    · subst hi
      simpa using hI.step hq
    · simpa [Function.update_of_ne hi] using hI
  | @pool j tk ts x p ph htk hx hp =>
    by_cases hi : i = j
    · subst hi
      simpa using hI.pool hx
    · simpa [Function.update_of_ne hi] using hI

/-- **Every request is answered once, and none is left open by a return.** In every run a call numbers its
questions (requests and the bodies it reads) apart, and is answered each at most once. While it runs, no
more of them are open than futures are in progress. All are answered when it returns and wherever it gives
back its permits, whatever has failed. -/
theorem replies_paired (S : Setup κ ι) (h : Run Sys.Step S.init l s) (i : ι) :
    ((asked (s.procs i).trace).map Prod.fst).Nodup ∧
    (answered (s.procs i).trace).Subperm (asked (s.procs i).trace) ∧
    (∀ p, (s.procs i).mode = .live p → (asked (s.procs i).trace).length ≤
      (answered (s.procs i).trace).length + (s.procs i).outstanding) ∧
    (∀ r, (s.procs i).mode = .ended (some r) →
      (asked (s.procs i).trace).Perm (answered (s.procs i).trace)) ∧
    ∀ τ, .freed :: τ <:+ (s.procs i).trace → (asked τ).Perm (answered τ) := by
  obtain ⟨p, n, hp, hlive, -⟩ := (paired_run h i).converses
  refine ⟨hp.nodup, ?_, fun p' hm => ?_, fun r hm => (paired_run h i).settled hm, hp.freed⟩
  · exact (List.sublist_append_left _ _).subperm.trans hp.pairs.symm.subperm
  · obtain rfl := hlive p' hm
    have hout : (s.procs i).outstanding = p.inFlight := by
      unfold Proc.outstanding
      rw [hm]
    calc (asked (s.procs i).trace).length
        = (answered (s.procs i).trace).length + p.waiting.length := by
          rw [hp.pairs.length_eq, List.length_append]
      _ ≤ (answered (s.procs i).trace).length + (s.procs i).outstanding := by
          rw [hout]
          exact Nat.add_le_add_left p.waiting_length_le _

/-- An upload whose part fails has waited for all three of its replies when it returns. -/
theorem replies_paired_part : ∃ l s, Run Sys.Step putSetup.init l s ∧
    (s.procs 0).mode = .ended (some (.error (.backend .serverError "internal error"))) ∧
    (answered (s.procs 0).trace).length = 3 := by
  obtain ⟨l, s, hr, hrun⟩ := putSetup.observe failingPart putScript
    (fun s => ((s.procs 0).mode, (asked (s.procs 0).trace).length))
    (v := (.ended (some (.error (.backend .serverError "internal error"))), 3)) rfl
  obtain ⟨hm, hasked⟩ := Prod.mk.inj hrun
  exact ⟨l, s, hr, hm, ((replies_paired putSetup hr 0).2.2.2.1 _ hm).length_eq.symm.trans hasked⟩

end S3o
