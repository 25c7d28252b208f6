import S3o.Async.Ends
import S3o.System.Rest
import S3o.System.Return

/-!
# Calls that are served

A service that grants every acquisition and gives every question its answer brings the calls without loops
to their ends. So there are such runs of any length, without computing one.

* `returns_of_loopFree`, `run_of_loopFree`: such programs return;
* `Act.heeds`, `Proc.Served`: a step that keeps to the service, and a call that has only seen such steps;
* **`Setup.serves`**: a run in which every call returns, and has seen nothing but the service's answers;
* `bodySetup_serves`: an upload of any length.
-/

namespace S3o

open Async Lts Multiset

variable {κ ι : Type}

/-! ## One program -/

section

variable {self : S3Client κ} {h : Half} {α : Type} {p : Prog (S3 κ) α}

/-- **A program without loops returns**, whatever the schedule is. -/
theorem returns_of_loopFree (hfree : p.LoopFree)
    (hsafe : p.Safe (permits (self.pool, h) (fun _ => True) fun _ w => 0 < w) (fun g _ => g = .free) .free)
    {K : History (S3 κ) → Prop} (o : ∀ q, (S3 κ).Ans q)
    (hK : ∀ τ t y, K τ → (∀ e, y = .event e → e.Heeds o) → K ((t, y) :: τ)) : p.Returns K := by
  refine Prog.returns_of_safe hsafe ?_ o hK 0 ?_
  · rintro g w ⟨a, -, hw⟩
    exact hw
  · intro τ q hr _
    rw [(hfree.run hr).turn]

/-- A run of such a program that a service answers with `o`. -/
theorem run_of_loopFree (hfree : p.LoopFree)
    (hsafe : p.Safe (permits (self.pool, h) (fun _ => True) fun _ w => 0 < w) (fun g _ => g = .free) .free)
    (o : ∀ q, (S3 κ).Ans q) : ∃ τ r, p.Runs τ (.ret r) ∧ Heeded o τ.events := by
  have hreturns : p.Returns fun τ => Heeded o τ.events :=
    returns_of_loopFree hfree hsafe o fun τ t y h hy => h.cons t hy
  exact hreturns.exists fun e he => nomatch he

end

/-! ## The system -/

/-- **The step keeps to the service**: it is neither a drop nor a timeout, and its answer is one of `o`. -/
structure Act.heeds (o : ∀ q, (S3 κ).Ans q) (a : Act κ) : Prop where
  kept : a ≠ .cancel ∧ a ≠ .pool .cancel ∧ a ≠ .pool .expire
  answer : ∀ m q r, a.event = some (.answered m q r) → r = o q

/-- **A call that has been granted all it has asked for, and answered by `o`.** -/
structure Proc.Served (o : ∀ q, (S3 κ).Ans q) (q : Proc κ) : Prop extends q.Granted where
  heeded : Heeded o q.trace

variable {o : ∀ q, (S3 κ).Ans q}

section

variable [DecidableEq κ]

theorem Proc.Served.step {q q' : Proc κ} {a : Act κ} (h : q.Served o) (hs : Proc.Step q a q')
    (ha : a.heeds o) : q'.Served o := by
  obtain ⟨hgranted, hlost⟩ := h.toGranted.step hs ha.kept.1
  refine ⟨hgranted, ?_⟩
  rw [hs.trace_eq.1]
  intro e he
  rcases List.mem_append.mp he with he | he
  · have he := Option.mem_toList.mp he
    cases e with
    | answered m q r => exact ha.answer m q r he
    | lost k x => exact absurd he (hlost k x)
    | _ => trivial
  · exact h.heeded e he

variable [DecidableEq ι] {S : Setup κ ι} {s t : Sys κ ι} {l : List ((ι × Act κ) × Sys κ ι)}

/-- **Calls that are served stay so.** -/
theorem served_step {x : ι × Act κ} (hs : Sys.Step s x t) (ha : x.2.heeds o)
    (h : ∀ i, (s.procs i).Served o) (i : ι) : (t.procs i).Served o := by
  cases hs with
  | @act j a q hq =>
    by_cases hi : i = j
    · subst hi
      dsimp only
      rw [Function.update_self]
      exact (h i).step hq ha
    · dsimp only
      rw [Function.update_of_ne hi]
      exact h i
  | @pool j tk ts x p ph htk hx hp =>
    by_cases hi : i = j
    · subst hi
      have hexp : x ≠ .expire := fun h => ha.kept.2.2 (congrArg Act.pool h)
      have hcan : x ≠ .cancel := fun h => ha.kept.2.1 (congrArg Act.pool h)
      dsimp only
      rw [Function.update_self]
      exact ⟨(h i).toGranted.pool htk hp hexp hcan, (h i).heeded⟩
    · dsimp only
      rw [Function.update_of_ne hi]
      exact h i

theorem heeding_step (o : ∀ q, (S3 κ).Ans q) {i : ι} (h : s.GoesOn i) :
    ∃ a t, Sys.Step s (i, a) t ∧ a.heeds o := by
  rcases h with ⟨a, t, hs, hgood, hnone⟩ | ⟨m, q, hany⟩
  · refine ⟨a, t, hs, ⟨(good_ne_cancel hgood).1, (good_ne_cancel hgood).2, ?_⟩, fun m q r he => ?_⟩
    · rintro rfl
      cases hgood
    · cases a with
      | code e =>
        obtain rfl : e = _ := he
        cases hnone
      | _ => cases he
  · obtain ⟨t, hs⟩ := hany (o q)
    refine ⟨_, t, hs, ⟨nofun, nofun, nofun⟩, fun m q r he => ?_⟩
    cases he
    rfl

variable [Fintype ι]

theorem can_go (hS : S.Narrow) (hr : Run Sys.Step S.init l s) {i : ι}
    (hi : (s.procs i).hasEnded = false) :
    ∃ j, s.GoesOn j ∧ (j = i ∨ (s.procs j).active = true) := by
  cases hstart : (s.procs i).started with
  | false => exact ⟨i, goesOn_of_fresh hstart, Or.inl rfl⟩
  | true =>
    have hactive : (s.procs i).active = true := by
      unfold Proc.active
      rw [hstart, hi]
      rfl
    obtain ⟨⟨j, a⟩, t, hs⟩ := progress hS hr ⟨i, hactive⟩
    exact ⟨j, goesOn_of_steady hs, Or.inr (steady_active hs)⟩

/-- **A run that is served.** Calls without loops return when all their acquisitions are granted and all
their questions are answered, whatever the answers are. -/
theorem Setup.serves (S : Setup κ ι) (hS : S.Narrow) (o : ∀ q, (S3 κ).Ans q)
    (hfree : ∀ i, ((S.op i).program (S.client i)).LoopFree) : ∃ l s, Run Sys.Step S.init l s ∧
      ∀ i, (∃ r, (s.procs i).mode = .ended (some r)) ∧ Heeded o (s.procs i).trace := by
  have hdown : ∀ s t : Sys κ ι, ((∃ x, Sys.Step s x t ∧ x.2.heeds o) ∧ ∀ i, (s.procs i).LoopFree) →
      IsDershowitzMannaLT (t.bag 0) (s.bag 0) := by
    rintro s t ⟨⟨⟨i, a⟩, hs, ha⟩, hs'⟩
    obtain ⟨hupd, hlt⟩ := hs.bag_lt ha.kept.1 ha.kept.2.1 (loopFree_step hs (hs' i)).turn.le
    exact Sys.bag_update hupd hlt
  obtain ⟨s, hpath, hstuck⟩ := comes_to_end (Sys.bag 0) hdown S.init
  have hrun : ∃ l, Run Sys.Step S.init l s ∧ ∀ i, (s.procs i).Served o ∧ (s.procs i).LoopFree := by
    clear hstuck
    induction hpath with
    | refl =>
      refine ⟨[], .nil, fun i => ⟨⟨⟨⟨nofun, nofun⟩, fun tk htk => ?_⟩, fun e he => ?_⟩, hfree i⟩⟩
      · cases htk
      · cases he
    | tail _ hstep ih =>
      obtain ⟨l, hr, hall⟩ := ih
      obtain ⟨⟨x, hs, ha⟩, -⟩ := hstep
      exact ⟨_, hr.snoc hs, fun i => ⟨served_step hs ha (fun i => (hall i).1) i,
        loopFree_step hs (hall i).2⟩⟩
  obtain ⟨l, hr, hall⟩ := hrun
  refine ⟨l, s, hr, fun i => ?_⟩
  have hended : (s.procs i).hasEnded = true := by
    by_contra hi
    obtain ⟨j, hgo, -⟩ := can_go hS hr (eq_false_of_ne_true hi)
    obtain ⟨a, t, hs, ha⟩ := heeding_step o hgo
    exact hstuck t ⟨⟨_, hs, ha⟩, fun i => (hall i).2⟩
  obtain ⟨r, hm⟩ := Proc.hasEnded_iff.mp hended
  cases r with
  | none => exact absurd hm (hall i).1.kept.1
  | some r => exact ⟨⟨r, hm⟩, (hall i).1.heeded⟩

end

/-- An upload. -/
def bodySetup (body : Body) : Setup Unit (Fin 1) := smallSetup fun _ => .put "key" body

/-- An upload that is served, however long its body is. -/
theorem bodySetup_serves (body : Body) (o : ∀ q, (S3 Unit).Ans q) :
    ∃ l s r, Run Sys.Step (bodySetup body).init l s ∧ (s.procs 0).mode = .ended (some r) ∧
      Heeded o (s.procs 0).trace := by
  obtain ⟨l, s, hr, hs⟩ := (bodySetup body).serves (small_narrow _) o
    fun i => op_loopFree _ nofun
  obtain ⟨⟨r, hm⟩, hheeded⟩ := hs 0
  exact ⟨l, s, r, hr, hm, hheeded⟩

end S3o
