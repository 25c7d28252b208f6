import Mathlib.Algebra.Order.BigOperators.Group.Finset
import S3o.Async.Stream

/-!
# Balanced programs

Two kinds of events balance in a program when the first never gets ahead of the second, wherever the
program is, and it has as many of both when it returns. Streams of balanced futures are balanced.

* `History.tally`, `Woven.tally`: the events of a kind, and how they add up in a stream;
* `behind`, `Leaf.Balanced`: two kinds of events that balance;
* **`Prog.spec_balanced`**: a stream of balanced futures.
-/

namespace Async

open Lts

variable {S : Sig} {β : Type} {P Q : Ev S → Bool}

/-- How many events of a kind a history has. -/
def History.tally (P : Ev S → Bool) (τ : History S) : ℕ := τ.events.countP P

section

variable {τ τ' : History S} {t : ℕ} {e : Ev S}

theorem History.tally_append : History.tally P (τ ++ τ') = τ.tally P + τ'.tally P := by
  unfold History.tally History.events
  rw [List.filterMap_append, List.countP_append]

theorem History.tally_of (he : P e = true) : History.tally P ((t, .event e) :: τ) = τ.tally P + 1 :=
  List.countP_cons_of_pos he

theorem History.tally_of_not (he : P e = false) : History.tally P ((t, .event e) :: τ) = τ.tally P :=
  List.countP_cons_of_neg (by rw [he]; exact Bool.false_ne_true)

end

/-- **The events of a stream are those of its futures.** -/
theorem Woven.tally {n : ℕ} {A : ℕ → History S → Prop} {loc : ℕ → History S} {τ : History S}
    (h : Woven n A loc τ) : τ.tally P = ∑ j ∈ Finset.range n, (loc j).tally P := by
  refine (h.shuffle.filterMap _).countP P fun j hj => ?_
  rw [h.outside j (not_lt.mp fun hlt => hj (Finset.mem_range.mpr hlt))]
  rfl

/-- **The events `P` are never ahead of the events `Q`.** -/
abbrev behind (P Q : Ev S → Bool) : Watch S := .of fun τ => τ.tally P ≤ τ.tally Q

/-- **A future in which the events `P` balance the events `Q`.** -/
def Leaf.Balanced (P Q : Ev S → Bool) (l : Leaf S β) : Prop :=
  l.Spec (behind P Q) (fun _ τ => τ.tally P = τ.tally Q) []

/-- **A stream of balanced futures.** -/
theorem Prog.spec_balanced {w : ℕ} {ls : List (Leaf S β)} {τ : History S}
    (hl : ∀ l ∈ ls, l.Balanced P Q) (hτ : τ.tally P = τ.tally Q) :
    (Prog.bufferUnordered w ls).Spec (behind P Q) (fun _ τ' => τ'.tally P = τ'.tally Q) τ := by
  refine Prog.spec_bufferUnordered (fun _ τ => τ.tally P ≤ τ.tally Q) (fun _ _ τ => τ.tally P = τ.tally Q)
    (fun j l hj => hl l (List.mem_of_getElem? hj)) ?_ ?_
  · intro loc new R hwoven _ _
    refine ⟨?_, trivial⟩
    show History.tally P (new ++ τ) ≤ History.tally Q (new ++ τ)
    rw [History.tally_append, History.tally_append, hτ, hwoven.tally, hwoven.tally]
    exact Nat.add_le_add_right (Finset.sum_le_sum fun j hj => hwoven.kept j (Finset.mem_range.mp hj)) _
  · intro loc new rs t hwoven hperm hres
    have heven : History.tally P (new ++ τ) = History.tally Q (new ++ τ) := by
      rw [History.tally_append, History.tally_append, hτ, hwoven.tally, hwoven.tally]
      refine congrArg (· + _) (Finset.sum_congr rfl fun j hj => ?_)
      obtain ⟨x, hx, rfl⟩ := List.mem_map.mp (hperm.mem_iff.mpr hj)
      exact hres x hx
    exact ⟨heven.le, heven⟩

end Async
