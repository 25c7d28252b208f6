import Mathlib.Data.List.Nodup
import S3o.Lts.Run

/-!
# Linearizability

Calls that overlap behave like one sequential object when each takes effect at a single step, on a part
of the state that no other step changes.

* `Affects`, `Linearization`: the effect of a step, and an order in which the calls could have been made
  one after the other;
* `Run.reach_suffix`, `Run.points`: what a part of a run has visited, and its effects;
* **`Run.linearization`**: the order of the effects is a linearization.
-/

namespace Lts

universe u v w

variable {σ : Type u} {L : Type v} {ι R A : Type w}

/-- **A linearization** of the run `l` from `s₀` to `s`: the list `e` of calls with their results, newest
first. It is a run of the sequential object `spec` from `a₀` to `a`. Every call has begun and takes
effect once, one that has returned is in the list with its result, and one that had returned when
another had not begun comes before it. -/
structure Linearization (spec : A → ι × R → A → Prop) (fresh : σ → ι → Prop)
    (returned : σ → ι → R → Prop) (a₀ : A) (s₀ : σ) (l : List (L × σ)) (s : σ) (e : List (ι × R))
    (a : A) : Prop where
  run : ∃ h, Run spec a₀ h a ∧ h.map Prod.fst = e
  nodup : (e.map Prod.fst).Nodup
  begun : ∀ x ∈ e, ¬ fresh s x.1
  complete : ∀ i r, returned s i r → (i, r) ∈ e
  order : ∀ m, Visits s₀ l m → ∀ i r j r', returned m i r → fresh m j → (j, r') ∈ e →
    [(j, r'), (i, r)].Sublist e

/-- A step from `a` to `b` with this effect on the sequential object, or with none. -/
def Affects (spec : A → ι × R → A → Prop) (a : A) : Option (ι × R) → A → Prop
  | none, b => b = a
  | some y, b => spec a y b

variable {step : σ → L → σ → Prop} {s₀ s m : σ} {l : List (L × σ)}

theorem Run.reach_suffix (h : Run step s₀ l s) (hm : Visits s₀ l m) :
    ∃ l₁, Run step s₀ l₁ m ∧ l₁ <:+ l := by
  induction h with
  | nil => exact ⟨[], visits_nil.mp hm ▸ .nil, List.suffix_rfl⟩
  | snoc hr hs ih =>
    rcases visits_cons.mp hm with hm | rfl
    · obtain ⟨l₁, h₁, hl⟩ := ih hm
      exact ⟨l₁, h₁, hl.trans (List.suffix_cons _ _)⟩
    · exact ⟨_, hr.snoc hs, List.suffix_rfl⟩

theorem Visits.mono {l₁ : List (L × σ)} (hl : l₁ <:+ l) (hm : Visits s₀ l₁ m) : Visits s₀ l m := by
  obtain ⟨l₂, rfl⟩ := hl
  rcases hm with hm | hm
  · exact Or.inl hm
  · rw [Visits, List.map_append]
    exact Or.inr (List.mem_append_right _ hm)

section

variable {spec : A → ι × R → A → Prop} {f : σ → A} {point : L × σ → Option (ι × R)}

/-- **The effects of a run** are a run of the sequential object. -/
theorem Run.points
    (hspec : ∀ l s x t, Run step s₀ l s → step s x t → Affects spec (f s) (point (x, t)) (f t))
    (h : Run step s₀ l s) : ∃ e, Run spec (f s₀) e (f s) ∧ e.map Prod.fst = l.filterMap point := by
  induction h with
  | nil => exact ⟨[], .nil, rfl⟩
  | @snoc l s x t hr hs ih =>
    obtain ⟨e, he, hmap⟩ := ih
    have hstep := hspec l s x t hr hs
    cases hp : point (x, t) with
    | none =>
      rw [hp] at hstep
      refine ⟨e, ?_, ?_⟩
      · rw [show f t = f s from hstep]
        exact he
      · rw [List.filterMap_cons_none hp, hmap]
    | some y =>
      rw [hp] at hstep
      refine ⟨_, he.snoc hstep, ?_⟩
      rw [List.filterMap_cons_some hp, List.map_cons, hmap]

/-- **Calls that take effect at points are linearizable.** Every step is an effect on the sequential
object or leaves it alone, every call has at most one effect, after it has begun, and one that has
returned had the effect that its result tells. -/
theorem Run.linearization {fresh : σ → ι → Prop} {returned : σ → ι → R → Prop}
    (h : Run step s₀ l s)
    (hspec : ∀ l s x t, Run step s₀ l s → step s x t → Affects spec (f s) (point (x, t)) (f t))
    (hbegun : ∀ l₁ m, Run step s₀ l₁ m → ∀ x ∈ l₁.filterMap point, ¬ fresh m x.1)
    (hsingle : ((l.filterMap point).map Prod.fst).Nodup)
    (hreturned : ∀ l₁ m, Run step s₀ l₁ m → l₁ <:+ l → ∀ i r, returned m i r →
      (i, r) ∈ l₁.filterMap point) :
    Linearization spec fresh returned (f s₀) s₀ l s (l.filterMap point) (f s) := by
  refine ⟨h.points hspec, hsingle, hbegun l s h, hreturned l s h List.suffix_rfl, ?_⟩
  intro m hm i r j r' hi hj hmem
  obtain ⟨l₁, h₁, l₂, rfl⟩ := h.reach_suffix hm
  rw [List.filterMap_append] at hmem ⊢
  have hold : (i, r) ∈ l₁.filterMap point := hreturned l₁ m h₁ ⟨l₂, rfl⟩ i r hi
  have hnew : (j, r') ∈ l₂.filterMap point :=
    (List.mem_append.mp hmem).resolve_right fun hmem => hbegun l₁ m h₁ _ hmem hj
  exact (List.singleton_sublist.mpr hnew).append (List.singleton_sublist.mpr hold)

end

end Lts
