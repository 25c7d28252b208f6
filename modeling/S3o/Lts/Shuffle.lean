import Mathlib.Algebra.BigOperators.Group.Finset.Piecewise
import Mathlib.Data.List.Nodup

/-!
# Interleavings

Several lists, one for each index, may be interleaved into one list that keeps the order of each.

* `Shuffle`, `Shuffle.mem_iff`, `Shuffle.sublist`: what an interleaving is made of;
* `Shuffle.filterMap`: the part of it that is of interest;
* **`Shuffle.countP`**: counts add up;
* `Shuffle.singles`: lists of at most one member;
* `each`, `shuffle_one`, `Shuffle.countP_each`: the lists of the members of a list.
-/

namespace Lts

variable {ι α β : Type*} [DecidableEq ι]

/-- **An interleaving** of the lists `f i`. -/
inductive Shuffle : (ι → List α) → List α → Prop
  | nil : Shuffle (fun _ => []) []
  | cons {f : ι → List α} {l : List α} (i : ι) (x : α) : Shuffle f l →
      Shuffle (Function.update f i (x :: f i)) (x :: l)

variable {f : ι → List α} {l : List α}

theorem Shuffle.mem_iff (h : Shuffle f l) {x : α} : x ∈ l ↔ ∃ i, x ∈ f i := by
  induction h with
  | nil => simp
  | @cons f l i y _ ih =>
    rw [List.mem_cons, ih]
    constructor
    · rintro (rfl | ⟨j, hj⟩)
      · exact ⟨i, by simp⟩
      · by_cases hji : j = i
        · subst hji
          exact ⟨j, by simp [hj]⟩
        · exact ⟨j, by simpa [Function.update_of_ne hji] using hj⟩
    · rintro ⟨j, hj⟩
      by_cases hji : j = i
      · subst hji
        rw [Function.update_self] at hj
        exact (List.mem_cons.mp hj).imp_right fun hj => ⟨j, hj⟩
      · rw [Function.update_of_ne hji] at hj
        exact Or.inr ⟨j, hj⟩

/-- **Each list keeps its order.** -/
theorem Shuffle.sublist (h : Shuffle f l) (i : ι) : (f i).Sublist l := by
  induction h with
  | nil => exact List.Sublist.refl _
  | @cons f l j x _ ih =>
    by_cases hij : i = j
    · subst hij
      rw [Function.update_self]
      exact ih.cons_cons x
    · rw [Function.update_of_ne hij]
      exact ih.cons x

theorem Shuffle.filterMap (g : α → Option β) (h : Shuffle f l) :
    Shuffle (fun i => (f i).filterMap g) (l.filterMap g) := by
  induction h with
  | nil => exact .nil
  | @cons f l i x _ ih =>
    have hupd : (fun j => (Function.update f i (x :: f i) j).filterMap g) =
        Function.update (fun j => (f j).filterMap g) i ((x :: f i).filterMap g) := by
      funext j
      exact Function.apply_update (fun _ l => List.filterMap g l) f i _ j
    rw [hupd, List.filterMap_cons, List.filterMap_cons]
    cases g x with
    | none =>
      dsimp only
      rw [Function.update_eq_self]
      exact ih
    | some y => exact ih.cons i y

/-- **Counts add up.** -/
theorem Shuffle.countP (P : α → Bool) (h : Shuffle f l) {s : Finset ι} (hs : ∀ i, i ∉ s → f i = []) :
    l.countP P = ∑ i ∈ s, (f i).countP P := by
  induction h with
  | nil => simp
  | @cons f l i x _ ih =>
    have hi : i ∈ s := by
      by_contra hi
      have := hs i hi
      rw [Function.update_self] at this
      cases this
    have hrest : ∀ j, j ∉ s → f j = [] := by
      intro j hj
      have := hs j hj
      rwa [Function.update_of_ne (ne_of_mem_of_not_mem hi hj).symm] at this
    have hupd : (fun j => (Function.update f i (x :: f i) j).countP P) =
        Function.update (fun j => (f j).countP P) i ((x :: f i).countP P) := by
      funext j
      exact Function.apply_update (fun _ l => List.countP P l) f i _ j
    rw [hupd, Finset.sum_update_of_mem hi, List.countP_cons, List.countP_cons, ih hrest,
      ← Finset.add_sum_erase s _ hi, Finset.sdiff_singleton_eq_erase]
    exact Nat.add_right_comm _ _ _

/-- **Lists of at most one member.** The interleaving takes those that are not empty in some order. -/
theorem Shuffle.singles (g : ι → α) (h : Shuffle f l) (hf : ∀ i, f i = [] ∨ f i = [g i]) :
    ∃ is : List ι, is.Nodup ∧ (∀ i, i ∈ is ↔ f i ≠ []) ∧ l = is.map g := by
  induction h with
  | nil => exact ⟨[], List.nodup_nil, fun i => by simp, rfl⟩
  | @cons f l i x _ ih =>
    have hi : x :: f i = [g i] := by
      have := hf i
      rw [Function.update_self] at this
      exact this.resolve_left (List.cons_ne_nil _ _)
    obtain ⟨rfl, hempty⟩ := List.cons.inj hi
    obtain ⟨is, hnodup, hmem, rfl⟩ := ih fun j => by
      by_cases hji : j = i
      · exact Or.inl (hji ▸ hempty)
      · have := hf j
        rwa [Function.update_of_ne hji] at this
    refine ⟨i :: is, ?_, fun j => ?_, rfl⟩
    · exact List.nodup_cons.mpr ⟨fun hin => (hmem i).mp hin hempty, hnodup⟩
    · rw [List.mem_cons, hmem]
      by_cases hji : j = i
      · subst hji
        simp
      · rw [Function.update_of_ne hji]
        exact ⟨fun h => h.resolve_left hji, Or.inr⟩

/-! ## The lists of the members of a list -/

theorem shuffle_update (i : ι) (l : List α) : Shuffle (Function.update (fun _ => []) i l) l := by
  induction l with
  | nil =>
    rw [Function.update_eq_self]
    exact .nil
  | cons x l ih =>
    have h := Shuffle.cons i x ih
    rwa [Function.update_self, Function.update_idem] at h

variable {γ : Type*} {g : γ → List α}

/-- The list `g t` of the member at position `j` of `ts`. -/
def each (g : γ → List α) (ts : List γ) (j : ℕ) : List α := (ts[j]?).elim [] g

theorem each_eq_nil {ts : List γ} {j : ℕ} (h : ts.length ≤ j) : each g ts j = [] := by
  unfold each
  rw [List.getElem?_eq_none h]
  rfl

theorem each_filterMap (k : α → Option β) (ts : List γ) (j : ℕ) :
    (each g ts j).filterMap k = each (fun t => (g t).filterMap k) ts j := by
  unfold each
  cases ts[j]? <;> rfl

theorem shuffle_one (g : γ → List α) (t : γ) : Shuffle (each g [t]) (g t) := by
  have hfun : each g [t] = Function.update (fun _ => []) 0 (g t) := by
    funext j
    cases j with
    | zero => rfl
    | succ j => rfl
  exact hfun ▸ shuffle_update 0 (g t)

theorem mem_each {ts : List γ} {x : α} : (∃ j, x ∈ each g ts j) ↔ ∃ t ∈ ts, x ∈ g t := by
  constructor
  · rintro ⟨j, hj⟩
    unfold each at hj
    cases ht : ts[j]? with
    | none =>
      rw [ht] at hj
      cases hj
    | some t =>
      rw [ht] at hj
      exact ⟨t, List.mem_of_getElem? ht, hj⟩
  · rintro ⟨t, ht, hx⟩
    obtain ⟨j, hj⟩ := List.mem_iff_getElem?.mp ht
    refine ⟨j, ?_⟩
    unfold each
    rw [hj]
    exact hx

/-- **Counts of the members.** If `P` holds once in `g t` when `Q t` does and never otherwise, `P` counts
the members with `Q`. -/
theorem Shuffle.countP_each {ts : List γ} (h : Shuffle (each g ts) l) {P : α → Bool} {Q : γ → Bool}
    (hg : ∀ t, (g t).countP P = (Q t).toNat) : l.countP P = ts.countP Q := by
  rw [h.countP P (s := Finset.range ts.length) fun j hj =>
    each_eq_nil (not_lt.mp fun hlt => hj (Finset.mem_range.mpr hlt))]
  clear h
  induction ts with
  | nil => rfl
  | cons t ts ih =>
    have hhead : (each g (t :: ts) 0).countP P = if Q t = true then 1 else 0 :=
      (hg t).trans (by cases Q t <;> rfl)
    rw [List.length_cons, Finset.sum_range_succ', List.countP_cons, hhead]
    exact congrArg (· + _) ih

end Lts
