import Mathlib.Algebra.Group.Basic
import Mathlib.Logic.Function.Basic
import S3o.Lts.Run

/-!
# A value and a board

Parts change a shared value, read it, and write what they have read on a board, each of these a step of
its own. Between its read and its note on the board a part can be overtaken by others, and then the board
shows an old value although nobody has anything left to write.

* `Board`, `Board.Step`: the value, the board, and what each part has still to write;
* `drift`: what the value has changed since a part has read it;
* `told_run`: a part that has read `v` is wrong by its drift;
* `noted_visited`: what is on the board, or is to be written on it, was once the value;
* **`board_current_iff`**: the board shows the value whenever nobody has anything to do exactly when no
  part writes the last note with a drift;
* `timely_of_turns`: so it does when the parts take turns.
-/

namespace Lts

variable {ι V : Type*}

/-- What a part has to do: nothing, to read the value it has changed, or to write `v` on the board. -/
inductive Errand (V : Type*)
  | none
  | read
  | post (v : V)
  deriving DecidableEq

/-- The value, the last note on the board, and the errands of the parts. -/
structure Board (ι V : Type*) where
  value : V
  posted : Option V
  errand : ι → Errand V

/-- What a part does: it changes the value, reads it, does both at once, writes its note, or none of
these. -/
inductive BoardAct (V : Type*)
  | change (d : V)
  | read
  | fetch (d : V)
  | post
  | skip
  deriving DecidableEq

/-- By how much the value changes. -/
def BoardAct.delta [Zero V] : BoardAct V → V
  | .change d | .fetch d => d
  | _ => 0

/-- Whether the part learns the value. -/
def BoardAct.reads : BoardAct V → Bool
  | .read | .fetch _ => true
  | _ => false

variable [DecidableEq ι] [AddCommGroup V]

/-- **A step** of part `x.1`. -/
inductive Board.Step : Board ι V → ι × BoardAct V → Board ι V → Prop
  | change {s i d} : s.errand i = .none →
      Step s (i, .change d) ⟨s.value + d, s.posted, Function.update s.errand i .read⟩
  | read {s i} : s.errand i = .read →
      Step s (i, .read) ⟨s.value, s.posted, Function.update s.errand i (.post s.value)⟩
  | fetch {s i d} : s.errand i = .none →
      Step s (i, .fetch d) ⟨s.value + d, s.posted, Function.update s.errand i (.post (s.value + d))⟩
  | post {s i v} : s.errand i = .post v →
      Step s (i, .post) ⟨s.value, some v, Function.update s.errand i .none⟩
  | skip {s i} : Step s (i, .skip) s

/-- Nobody has anything to do. -/
def Board.Quiet (s : Board ι V) : Prop := ∀ i, s.errand i = .none

/-- The last note on the board, if there is one, is the value. -/
def Board.Current (s : Board ι V) : Prop := ∀ v, s.posted = some v → v = s.value

/-- What the value has changed since part `i` has read it. -/
def drift (i : ι) : List (ι × BoardAct V) → V
  | [] => 0
  | x :: l => if x.1 = i ∧ x.2.reads then 0 else x.2.delta + drift i l

/-- **In every run so far, a part that has written while nobody else had anything to do has had no
drift.** -/
def Timely : List ((ι × BoardAct V) × Board ι V) → Prop
  | [] => True
  | x :: l => (x.1.2 = .post → x.2.Quiet → drift x.1.1 (l.map Prod.fst) = 0) ∧ Timely l

section

variable {s₀ s t : Board ι V} {x : ι × BoardAct V} {l : List ((ι × BoardAct V) × Board ι V)}

/-! ## What a step does -/

/-- An idle step leaves the errand of its part as it is. -/
theorem Board.Step.idle {i : ι} {e : Errand V} (he : s.errand i = e) :
    Board.Step s (i, .skip) ⟨s.value, s.posted, Function.update s.errand i e⟩ := by
  rw [← he, Function.update_eq_self]
  exact .skip

theorem Board.Step.value (h : Board.Step s x t) : t.value = s.value + x.2.delta := by
  cases h with
  | change _ => rfl
  | read _ => exact (add_zero _).symm
  | fetch _ => rfl
  | post _ => exact (add_zero _).symm
  | skip => exact (add_zero _).symm

theorem Board.Step.other (h : Board.Step s x t) {i : ι} (hi : i ≠ x.1) : t.errand i = s.errand i := by
  cases h with
  | skip => rfl
  | _ => exact Function.update_of_ne hi _ _

/-- A part that has a value to write has just read it, if its step was not idle. -/
theorem Board.Step.learns (h : Board.Step s x t) {v : V} (hv : t.errand x.1 = .post v) :
    (x.2.reads = true ∧ v = t.value) ∨ (x.2 = .skip ∧ t = s) := by
  cases h with
  | change _ =>
    cases (Function.update_self ..).symm.trans hv
  | read _ =>
    cases (Function.update_self ..).symm.trans hv
    exact Or.inl ⟨rfl, rfl⟩
  | fetch _ =>
    cases (Function.update_self ..).symm.trans hv
    exact Or.inl ⟨rfl, rfl⟩
  | post _ =>
    cases (Function.update_self ..).symm.trans hv
  | skip => exact Or.inr ⟨rfl, rfl⟩

/-- A step after which nobody has anything to do was a note, or nothing. -/
theorem Board.Step.quiet (h : Board.Step s x t) (ht : t.Quiet) :
    (x.2 = .skip ∧ t = s) ∨
      ∃ v, x.2 = .post ∧ s.errand x.1 = .post v ∧ t.posted = some v ∧ t.value = s.value := by
  have hx := ht x.1
  cases h with
  | change _ =>
    cases (Function.update_self ..).symm.trans hx
  | read _ =>
    cases (Function.update_self ..).symm.trans hx
  | fetch _ =>
    cases (Function.update_self ..).symm.trans hx
  | post hi => exact Or.inr ⟨_, rfl, hi, rfl, rfl⟩
  | skip => exact Or.inl ⟨rfl, rfl⟩

theorem Board.Step.posted (h : Board.Step s x t) :
    t.posted = s.posted ∨ ∃ v, s.errand x.1 = .post v ∧ t.posted = some v := by
  cases h with
  | post hi => exact Or.inr ⟨_, hi, rfl⟩
  | _ => exact Or.inl rfl

/-! ## Every run -/

/-- **A value that was read is wrong by the drift.** -/
theorem told_run (h₀ : s₀.Quiet) (h : Run Board.Step s₀ l s) :
    ∀ i v, s.errand i = .post v → v + drift i (l.map Prod.fst) = s.value := by
  induction h with
  | nil =>
    intro i v hi
    rw [h₀ i] at hi
    cases hi
  | @snoc l s x t _ hs ih =>
    intro i v hi
    -- if part `i` has not read, the value and the drift have changed alike
    have hkeep : ¬ (x.1 = i ∧ x.2.reads = true) → s.errand i = .post v →
        v + drift i (((x, t) :: l).map Prod.fst) = t.value := by
      intro hne hs'
      show v + (if _ then _ else _) = _
      rw [if_neg hne, hs.value, ← ih i v hs', add_assoc, add_comm (drift _ _)]
    by_cases hix : i = x.1
    · subst hix
      rcases hs.learns hi with ⟨hread, rfl⟩ | ⟨hskip, rfl⟩
      · show _ + (if _ then _ else _) = _
        rw [if_pos ⟨rfl, hread⟩, add_zero]
      · exact hkeep (fun hr => by rw [hskip] at hr; cases hr.2) hi
    · exact hkeep (fun hr => hix hr.1.symm) (hs.other hix ▸ hi)

/-- **What is on the board, or is to be written on it, was once the value.** -/
theorem noted_visited (h₀ : s₀.Quiet) (hp : s₀.posted = none) (h : Run Board.Step s₀ l s) {v : V}
    (hv : s.posted = some v ∨ ∃ i, s.errand i = .post v) : ∃ m, Visits s₀ l m ∧ m.value = v := by
  induction h with
  | nil =>
    rcases hv with hv | ⟨i, hi⟩
    · rw [hp] at hv
      cases hv
    · rw [h₀ i] at hi
      cases hi
  | @snoc l s x t _ hs ih =>
    have hold : (s.posted = some v ∨ ∃ i, s.errand i = .post v) →
        ∃ m, Visits s₀ ((x, t) :: l) m ∧ m.value = v := by
      intro h
      obtain ⟨m, hm, hv⟩ := ih h
      exact ⟨m, hm.cons, hv⟩
    rcases hv with hv | ⟨i, hi⟩
    · rcases hs.posted with hsame | ⟨w, hw, hpost⟩
      · exact hold (Or.inl (hsame ▸ hv))
      · obtain rfl : w = v := Option.some.inj (hpost.symm.trans hv)
        exact hold (Or.inr ⟨x.1, hw⟩)
    · by_cases hix : i = x.1
      · subst hix
        rcases hs.learns hi with ⟨-, rfl⟩ | ⟨-, rfl⟩
        · exact ⟨t, Visits.head, rfl⟩
        · exact hold (Or.inr ⟨_, hi⟩)
      · exact hold (Or.inr ⟨i, hs.other hix ▸ hi⟩)

/-- **The board is current whenever nobody has anything to do exactly when no last note has a drift.** -/
theorem board_current_iff (h₀ : s₀.Quiet) (hc : s₀.Current) (h : Run Board.Step s₀ l s) :
    (∀ m, Visits s₀ l m → m.Quiet → m.Current) ↔ Timely l := by
  induction h with
  | nil => exact ⟨fun _ => trivial, fun _ m hm _ => visits_nil.mp hm ▸ hc⟩
  | @snoc l s x t hr hs ih =>
    have hvisits : (∀ m, Visits s₀ ((x, t) :: l) m → m.Quiet → m.Current) ↔
        (t.Quiet → t.Current) ∧ ∀ m, Visits s₀ l m → m.Quiet → m.Current := by
      simp only [visits_cons, or_imp, forall_and, forall_eq]
      exact and_comm
    rw [hvisits, ih]
    refine and_congr_left fun hl => ?_
    have hs' : s.Quiet → s.Current := ih.mpr hl s hr.visits
    constructor
    · intro ht hpost hq
      rcases hs.quiet hq with ⟨hskip, -⟩ | ⟨v, -, hv, hposted, hvalue⟩
      · rw [hskip] at hpost
        cases hpost
      · have hdrift := told_run h₀ hr x.1 v hv
        rw [← hvalue, ← ht hq v hposted] at hdrift
        exact add_eq_left.mp hdrift
    · intro ht hq
      rcases hs.quiet hq with ⟨-, rfl⟩ | ⟨v, hpost, hv, hposted, hvalue⟩
      · exact hs' hq
      · intro w hw
        obtain rfl : v = w := Option.some.inj (hposted.symm.trans hw)
        have hdrift := told_run h₀ hr x.1 v hv
        rw [ht hpost hq, add_zero] at hdrift
        rw [hvalue, hdrift]

/-- **Parts that take turns are timely**: nobody changes the value while another part has something to
do. -/
theorem timely_of_turns (h₀ : s₀.Quiet) (h : Run Board.Step s₀ l s)
    (hl : ∀ x ∈ l, x.1.2.delta ≠ 0 → ∀ j, j ≠ x.1.1 → x.2.errand j = .none) : Timely l := by
  -- a value that was read stays the value
  have hexact : (∀ i v, s.errand i = .post v → v = s.value) ∧ Timely l := by
    induction h with
    | nil =>
      refine ⟨fun i v hi => ?_, trivial⟩
      rw [h₀ i] at hi
      cases hi
    | @snoc l s x t hr hs ih =>
      obtain ⟨hold, htimely⟩ := ih fun y hy => hl y (List.mem_cons_of_mem _ hy)
      refine ⟨fun i v hi => ?_, fun hpost ht => ?_, htimely⟩
      · by_cases hix : i = x.1
        · subst hix
          rcases hs.learns hi with ⟨-, hv⟩ | ⟨-, rfl⟩
          · exact hv
          · exact hold _ v hi
        · rw [hs.value, hold i v (hs.other hix ▸ hi)]
          by_cases hd : x.2.delta = 0
          · rw [hd, add_zero]
          · rw [hl (x, t) List.mem_cons_self hd i hix] at hi
            cases hi
      · rcases hs.quiet ht with ⟨hskip, -⟩ | ⟨v, -, hv, -, -⟩
        · rw [hskip] at hpost
          cases hpost
        · have hdrift := told_run h₀ hr x.1 v hv
          rw [hold x.1 v hv] at hdrift
          exact add_eq_left.mp hdrift
  exact hexact.2

end

end Lts
