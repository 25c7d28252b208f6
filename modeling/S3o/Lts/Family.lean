import Mathlib.Algebra.GroupWithZero.Nat
import Mathlib.Algebra.BigOperators.Group.Finset.Basic
import Mathlib.Algebra.BigOperators.Group.Finset.Piecewise
import Mathlib.Algebra.Order.BigOperators.Group.Finset

/-!
# Families of parts

A system of finitely many parts changes one part at a time. A sum over the parts then changes by
what the part changes.

* `sum_split`, **`sum_update`**: the sum before and after;
* `sum_eq_of_update`: a quantity that moves between a shared place and the parts is conserved.
-/

namespace Lts

/-- The parts of a small family are numbered. -/
instance (priority := high) numbered {n i : ℕ} : OfNat (Fin (n + 1)) i := ⟨Fin.ofNat (n + 1) i⟩

variable {ι α : Type*} [Fintype ι] [DecidableEq ι]

/-- The sum before and after one part has changed. -/
theorem sum_split {M : Type*} [AddCommMonoid M] (g : ι → α → M) (f : ι → α) (i : ι) (a : α) :
    ∃ r, ∑ j, g j (f j) = g i (f i) + r ∧ ∑ j, g j (Function.update f i a j) = g i a + r := by
  have hrest : ∑ j ∈ Finset.univ.erase i, g j (Function.update f i a j) =
      ∑ j ∈ Finset.univ.erase i, g j (f j) := by
    refine Finset.sum_congr rfl fun j hj => ?_
    rw [Function.update_of_ne (Finset.ne_of_mem_erase hj)]
  refine ⟨∑ j ∈ Finset.univ.erase i, g j (f j), ?_, ?_⟩
  · rw [Finset.add_sum_erase Finset.univ (fun j => g j (f j)) (Finset.mem_univ i)]
  · rw [← Finset.add_sum_erase _ _ (Finset.mem_univ i), hrest, Function.update_self]

/-- **The sum after one part has changed.** -/
theorem sum_update (g : ι → α → ℕ) (f : ι → α) (i : ι) (a : α) :
    ∑ j, g j (Function.update f i a j) + g i (f i) = ∑ j, g j (f j) + g i a := by
  obtain ⟨r, h₁, h₂⟩ := sum_split g f i a
  omega

omit [DecidableEq ι] in
theorem le_sum (g : ι → α → ℕ) (f : ι → α) (i : ι) : g i (f i) ≤ ∑ j, g j (f j) :=
  Finset.single_le_sum (f := fun j => g j (f j)) (fun _ _ => Nat.zero_le _) (Finset.mem_univ i)

/-- **Moving between a shared place and a part.** -/
theorem sum_eq_of_update {g : ι → α → ℕ} {f : ι → α} {i : ι} {a : α} {x x' c : ℕ}
    (h : x + ∑ j, g j (f j) = c) (hx : x' + g i a = x + g i (f i)) :
    x' + ∑ j, g j (Function.update f i a j) = c := by
  have := sum_update g f i a
  omega

omit [Fintype ι] in
/-- Two families that agree somewhere still do after one part of both has changed in the same way. -/
theorem update_agree {f g : ι → α} {P : ι → Prop} (h : ∀ j, P j → g j = f j) (i : ι) (a : α) :
    ∀ j, P j → Function.update g i a j = Function.update f i a j := by
  intro j hj
  by_cases hji : j = i
  · subst hji
    rw [Function.update_self, Function.update_self]
  · rw [Function.update_of_ne hji, Function.update_of_ne hji, h j hj]

end Lts
