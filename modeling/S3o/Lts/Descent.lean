import Mathlib.Data.Multiset.DershowitzManna
import Mathlib.Order.OrderIsoNat
import Mathlib.SetTheory.Ordinal.Family

/-!
# Descent

A state is measured by a finite bag of ordinals. A step that trades some members of the bag for
smaller ones goes down in the order of Dershowitz and Manna, so it cannot be repeated for ever.

* `add_right`, `add_left`, `lt_add`, `lt_of_add`, `trade`, `discard`, `replicate_lt`: ways to go down;
* `above`: an ordinal above all members of a family of bags;
* **`no_descent`**, `comes_to_end`, `settles`: there is no infinite descent, so what only goes down comes
  to an end, or to rest.
-/

namespace Lts

open Multiset

universe u

section

variable {α : Type u} [Preorder α] {M N K : Multiset α}

theorem add_right (h : IsDershowitzMannaLT M N) (K : Multiset α) :
    IsDershowitzMannaLT (M + K) (N + K) := by
  obtain ⟨X, Y, Z, hZ, rfl, rfl, hlt⟩ := h
  exact ⟨X + K, Y, Z, hZ, add_right_comm X Y K, add_right_comm X Z K, hlt⟩

theorem add_left (K : Multiset α) (h : IsDershowitzMannaLT M N) :
    IsDershowitzMannaLT (K + M) (K + N) := by
  rw [add_comm K M, add_comm K N]
  exact add_right h K

theorem lt_add (h : IsDershowitzMannaLT M N) (K : Multiset α) : IsDershowitzMannaLT M (N + K) := by
  obtain ⟨X, Y, Z, hZ, rfl, rfl, hlt⟩ := h
  refine ⟨X, Y, Z + K, ?_, rfl, add_assoc X Z K, fun y hy => ?_⟩
  · rw [ne_eq, Multiset.empty_eq_zero] at *
    intro h0
    exact hZ (Multiset.le_zero.mp (h0 ▸ Multiset.le_add_right Z K))
  · obtain ⟨z, hz, hyz⟩ := hlt y hy
    exact ⟨z, Multiset.mem_add.mpr (Or.inl hz), hyz⟩

theorem lt_of_add (h : IsDershowitzMannaLT (M + K) N) : IsDershowitzMannaLT M N := by
  by_cases hK : K = 0
  · rwa [hK, add_zero] at h
  · refine IsDershowitzMannaLT.trans ⟨M, 0, K, hK, (add_zero M).symm, rfl, ?_⟩ h
    intro y hy
    exact absurd hy (Multiset.notMem_zero y)

/-- **Trading** one member for smaller ones. -/
theorem trade {z : α} (h : ∀ y ∈ M, y < z) : IsDershowitzMannaLT M {z} :=
  ⟨0, M, {z}, Multiset.singleton_ne_zero z, (zero_add M).symm, (zero_add _).symm, fun y hy =>
    ⟨z, Multiset.mem_singleton_self z, h y hy⟩⟩

theorem discard (z : α) (M : Multiset α) : IsDershowitzMannaLT M ({z} + M) := by
  have h := add_right (trade (M := (0 : Multiset α)) (z := z) (by simp)) M
  rwa [zero_add] at h

end

theorem replicate_lt {n : ℕ} {M : Multiset Ordinal.{0}} (h : n < Multiset.card M) :
    IsDershowitzMannaLT (replicate n 0) M := by
  by_cases hz : ∃ z ∈ M, 0 < z
  · obtain ⟨z, hz, hpos⟩ := hz
    refine ⟨0, replicate n 0, M, ?_, (zero_add _).symm, (zero_add _).symm, fun y hy => ⟨z, hz, ?_⟩⟩
    · rintro rfl
      cases hz
    · rw [Multiset.eq_of_mem_replicate hy]
      exact hpos
  · have hM : M = replicate (Multiset.card M) 0 :=
      Multiset.eq_replicate_card.mpr fun z hz' => by
        by_contra hne
        exact hz ⟨z, hz', pos_iff_ne_zero.mpr hne⟩
    have hsplit : M = replicate n 0 + replicate (Multiset.card M - n) 0 := by
      rw [← Multiset.replicate_add, Nat.add_sub_cancel' h.le]
      exact hM
    refine ⟨replicate n 0, 0, replicate (Multiset.card M - n) 0, ?_, (add_zero _).symm, hsplit, ?_⟩
    · rw [Multiset.empty_eq_zero, ne_eq, ← Multiset.card_eq_zero, Multiset.card_replicate]
      omega
    · exact fun y hy => absurd hy (Multiset.notMem_zero y)

/-- An ordinal above all members of the bags `f x`. -/
noncomputable def above {X : Type} (f : X → Multiset Ordinal.{0}) : Ordinal.{0} :=
  ⨆ x, ((f x).sup + 1)

theorem lt_above {X : Type} (f : X → Multiset Ordinal.{0}) {x : X} {y : Ordinal.{0}} (h : y ∈ f x) :
    y < above f :=
  lt_of_le_of_lt (Multiset.le_sup h) (Ordinal.lt_iSup_add_one (fun x => (f x).sup) x)

theorem trade_above {X : Type} (f : X → Multiset Ordinal.{0}) (x : X) :
    IsDershowitzMannaLT (f x) {above f} := trade fun _ h => lt_above f h

/-- **No infinite descent.** -/
theorem no_descent {σ : Type u} (bag : σ → Multiset Ordinal.{0}) {r : σ → σ → Prop}
    (h : ∀ s t, r s t → IsDershowitzMannaLT (bag t) (bag s)) (f : ℕ → σ) :
    ¬ ∀ n, r (f n) (f (n + 1)) := by
  intro hf
  have hwf : WellFounded (InvImage IsDershowitzMannaLT bag) :=
    InvImage.wf bag Multiset.wellFounded_isDershowitzMannaLT
  have hacc := hwf.apply (f 0)
  exact not_acc_iff_exists_descending_chain.mpr ⟨f, rfl, fun n => h _ _ (hf n)⟩ hacc

/-- **What goes down comes to an end.** -/
theorem comes_to_end {σ : Type u} (bag : σ → Multiset Ordinal.{0}) {r : σ → σ → Prop}
    (h : ∀ s t, r s t → IsDershowitzMannaLT (bag t) (bag s)) (s : σ) :
    ∃ t, Relation.ReflTransGen r s t ∧ ∀ u, ¬ r t u := by
  have hwf : WellFounded (InvImage IsDershowitzMannaLT bag) :=
    InvImage.wf bag Multiset.wellFounded_isDershowitzMannaLT
  obtain ⟨t, ht, hmin⟩ := hwf.has_min {t | Relation.ReflTransGen r s t} ⟨s, .refl⟩
  exact ⟨t, ht, fun u hu => hmin u (ht.tail hu) (h t u hu)⟩

/-- **What stays or goes down comes to rest.** -/
theorem settles {σ : Type u} (bag : σ → Multiset Ordinal.{0}) {f : ℕ → σ}
    (h : ∀ n, f (n + 1) = f n ∨ IsDershowitzMannaLT (bag (f (n + 1))) (bag (f n))) :
    ∃ N, ∀ n, N ≤ n → f n = f N := by
  have hwf : WellFounded (InvImage IsDershowitzMannaLT bag) :=
    InvImage.wf bag Multiset.wellFounded_isDershowitzMannaLT
  obtain ⟨-, ⟨N, rfl⟩, hmin⟩ := hwf.has_min (Set.range f) ⟨f 0, 0, rfl⟩
  refine ⟨N, fun n hn => ?_⟩
  induction n, hn using Nat.le_induction with
  | base => rfl
  | succ n hn ih =>
    rcases h n with heq | hlt
    · rw [heq, ih]
    · rw [ih] at hlt
      exact absurd hlt (hmin _ ⟨n + 1, rfl⟩)

theorem bag_irrefl {M : Multiset Ordinal.{0}} : ¬ IsDershowitzMannaLT M M :=
  fun h => no_descent id (r := fun s t => IsDershowitzMannaLT t s) (fun _ _ h => h) (fun _ => M) fun _ => h

end Lts
