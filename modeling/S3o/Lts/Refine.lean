import S3o.Lts.Run

/-!
# Refinement with silent steps

A system refines another when a map of states takes every step to a step of the other or to none. If every
step of the other can also be followed by a run, the two systems have the same traces.

* `observed`: the labels of a run that the other system sees;
* `Run.observe`: the image of a run;
* `Run.realize`: a run with a given image;
* **`traces_iff`**: the same traces, with the same states at their ends.
-/

namespace Lts

universe u v w x

variable {σ : Type u} {L : Type v} {τ : Type w} {K : Type x} {step : σ → L → σ → Prop}
  {step' : τ → K → τ → Prop} {s₀ s : σ} {l : List (L × σ)}

/-- **The labels that are seen**, newest first. -/
def observed (vis : L → Option K) (l : List (L × σ)) : List K := (l.map Prod.fst).filterMap vis

theorem observed_append (vis : L → Option K) (l l' : List (L × σ)) :
    observed vis (l ++ l') = observed vis l ++ observed vis l' := by
  unfold observed
  rw [List.map_append, List.filterMap_append]

/-- A step is one of the other system, or is not seen. -/
def Mirrors (step' : τ → K → τ → Prop) (f : σ → τ) (vis : L → Option K) (s : σ) (a : L) (t : σ) : Prop :=
  match vis a with
  | some b => step' (f s) b (f t)
  | none => f t = f s

variable {f : σ → τ} {vis : L → Option K}

/-- **The image of a run.** -/
theorem Run.observe (hs : ∀ s a t, step s a t → Mirrors step' f vis s a t) (h : Run step s₀ l s) :
    ∃ l', Run step' (f s₀) l' (f s) ∧ l'.map Prod.fst = observed vis l := by
  induction h with
  | nil => exact ⟨[], .nil, rfl⟩
  | @snoc l s a t _ ht ih =>
    obtain ⟨l', hr, hl⟩ := ih
    have hstep := hs s a t ht
    unfold Mirrors at hstep
    unfold observed at hl ⊢
    rw [List.map_cons, List.filterMap_cons]
    cases hv : vis a with
    | some b =>
      rw [hv] at hstep
      exact ⟨(b, f t) :: l', hr.snoc hstep, congrArg (b :: ·) hl⟩
    | none =>
      rw [hv] at hstep
      have hsame : f t = f s := hstep
      exact ⟨l', hsame ▸ hr, hl⟩

/-- **A run with a given image.** `Q` holds where the system has nothing silent left to do. -/
theorem Run.realize {l' : List (K × τ)} {s' : τ} (Q : σ → Prop) (h₀ : Q s₀)
    (hs : ∀ s b t', Q s → step' (f s) b t' →
      ∃ l t, Run step s l t ∧ f t = t' ∧ Q t ∧ observed vis l = [b])
    (h : Run step' (f s₀) l' s') :
    ∃ l s, Run step s₀ l s ∧ f s = s' ∧ Q s ∧ observed vis l = l'.map Prod.fst := by
  induction h with
  | nil => exact ⟨[], s₀, .nil, rfl, h₀, rfl⟩
  | @snoc l' s' b t' _ ht ih =>
    obtain ⟨l, s, hr, rfl, hQ, hl⟩ := ih
    obtain ⟨l₂, t, hr₂, rfl, hQ', hl₂⟩ := hs s b t' hQ ht
    refine ⟨l₂ ++ l, t, hr.append hr₂, rfl, hQ', ?_⟩
    rw [observed_append, hl₂, hl]
    rfl

variable (s₀) in
/-- **The two systems have the same traces.** -/
theorem traces_iff {s' : τ} {xs : List K} (hs : ∀ s a t, step s a t → Mirrors step' f vis s a t)
    (Q : σ → Prop) (h₀ : Q s₀)
    (hb : ∀ s b t', Q s → step' (f s) b t' →
      ∃ l t, Run step s l t ∧ f t = t' ∧ Q t ∧ observed vis l = [b]) :
    (∃ l', Run step' (f s₀) l' s' ∧ l'.map Prod.fst = xs) ↔
      ∃ l s, Run step s₀ l s ∧ f s = s' ∧ observed vis l = xs := by
  constructor
  · rintro ⟨l', hr, rfl⟩
    obtain ⟨l, s, hr', hf, -, hl⟩ := Run.realize Q h₀ hb hr
    exact ⟨l, s, hr', hf, hl⟩
  · rintro ⟨l, s, hr, rfl, rfl⟩
    exact hr.observe hs

end Lts
