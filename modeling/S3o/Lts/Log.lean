import Mathlib.Data.List.Basic

/-!
# Systems that keep a log

Every step of a system writes a list of entries. What is proved of a state together with its log is
proved of all that may come after it.

* `Logs`: the log of a run, newest entry first;
* `Throughout`, `throughout_iff`: what holds in every state of every run, with its log;
* **`Throughout.of_invariant`**: an invariant of states and logs holds throughout.
-/

namespace Lts

universe u v

variable {σ : Type u} {τ : Type v}

/-- **A run** from `s`, the entries it has logged, and where it is. -/
inductive Logs (step : σ → List τ → σ → Prop) (s : σ) : List τ → σ → Prop
  | nil : Logs step s [] s
  | snoc {l x t u} : Logs step s l t → step t x u → Logs step s (x ++ l) u

/-- `P` holds of the log and the state after every run from `s`, where `l` is logged. -/
def Throughout (step : σ → List τ → σ → Prop) (P : List τ → σ → Prop) (s : σ) (l : List τ) : Prop :=
  ∀ l' t, Logs step s l' t → P (l' ++ l) t

variable {step : σ → List τ → σ → Prop} {s t u : σ} {l l' x : List τ}

theorem Logs.cons (hs : step s x t) (h : Logs step t l u) : Logs step s (l ++ x) u := by
  induction h with
  | nil => simpa using Logs.nil.snoc hs
  | snoc _ ht ih =>
    rw [List.append_assoc]
    exact ih.snoc ht

theorem Logs.head (h : Logs step s l u) :
    (l = [] ∧ u = s) ∨ ∃ x t l', step s x t ∧ Logs step t l' u ∧ l = l' ++ x := by
  induction h with
  | nil => exact Or.inl ⟨rfl, rfl⟩
  | @snoc l y t u _ ht ih =>
    right
    rcases ih with ⟨rfl, rfl⟩ | ⟨x, m, l', hs, hm, rfl⟩
    · exact ⟨y, u, [], ht, .nil, by rw [List.append_nil, List.nil_append]⟩
    · exact ⟨x, m, y ++ l', hs, hm.snoc ht, (List.append_assoc _ _ _).symm⟩

theorem Logs.append (h : Logs step s l t) (h' : Logs step t l' u) : Logs step s (l' ++ l) u := by
  induction h' with
  | nil => exact h
  | snoc _ ht ih =>
    rw [List.append_assoc]
    exact ih.snoc ht

/-- **What holds throughout** holds now and throughout after any step. -/
theorem throughout_iff {P : List τ → σ → Prop} :
    Throughout step P s l ↔ P l s ∧ ∀ x t, step s x t → Throughout step P t (x ++ l) := by
  constructor
  · refine fun h => ⟨h [] s .nil, fun x t hs l' u hu => ?_⟩
    have := h _ u (hu.cons hs)
    rwa [List.append_assoc] at this
  · rintro ⟨h₀, hs⟩ l' u hu
    rcases hu.head with ⟨rfl, rfl⟩ | ⟨x, t, l', hx, ht, rfl⟩
    · exact h₀
    · rw [List.append_assoc]
      exact hs x t hx l' u ht

theorem Throughout.imp {P Q : List τ → σ → Prop} (h : Throughout step P s l)
    (hPQ : ∀ l s, P l s → Q l s) : Throughout step Q s l := fun l' t ht => hPQ _ _ (h l' t ht)

/-- **An invariant of states and logs holds throughout.** -/
theorem Throughout.of_invariant {P : List τ → σ → Prop} (I : List τ → σ → Prop)
    (hP : ∀ l s, I l s → P l s) (hI : ∀ l s x t, I l s → step s x t → I (x ++ l) t) (h : I l s) :
    Throughout step P s l := by
  intro l' t ht
  refine hP _ _ ?_
  induction ht with
  | nil => exact h
  | snoc _ hs ih =>
    rw [List.append_assoc]
    exact hI _ _ _ _ ih hs

end Lts
