import Mathlib.Data.List.Basic
import Mathlib.Data.List.Forall2

/-!
# Runs of a labelled transition system

A run keeps the label of every step and the state after it, newest first, so that a statement
about *some moment of the run* can point at a state the run really visited.

* `Run`, `Visits`, `Run.invariant`, `Run.history`: invariants of states and of whole runs;
* `Run.erase`: deleting the steps whose labels are not kept, when a relation absorbs them;
* `Run.map`, `visits_map`: the image of a run under a map of states;
* `exec`, `exec_append`, `exec_run`, `exec_log`, `exec_reach`, `exec_record`: runs that are computed.
-/

namespace Lts

universe u v w

variable {σ : Type u} {L : Type v} {τ : Type w}

/-- **A run** of `step` from `s₀`: the labels taken, each with the state it led to, newest first,
and the state the run is in. -/
inductive Run (step : σ → L → σ → Prop) (s₀ : σ) : List (L × σ) → σ → Prop
  | nil : Run step s₀ [] s₀
  | snoc {l s a t} : Run step s₀ l s → step s a t → Run step s₀ ((a, t) :: l) t

/-- The states a run from `s₀` has visited. -/
def Visits (s₀ : σ) (l : List (L × σ)) (m : σ) : Prop := m = s₀ ∨ m ∈ l.map Prod.snd

variable {step : σ → L → σ → Prop} {s₀ s t : σ} {l : List (L × σ)}

theorem Visits.start : Visits s₀ l s₀ := Or.inl rfl

theorem Visits.cons {a : L} {m : σ} (h : Visits s₀ l m) : Visits s₀ ((a, t) :: l) m := by
  rcases h with rfl | h
  · exact Or.inl rfl
  · exact Or.inr (List.mem_cons_of_mem _ h)

theorem Visits.head {a : L} : Visits s₀ ((a, t) :: l) t := Or.inr List.mem_cons_self

theorem visits_nil {m : σ} : Visits (L := L) s₀ [] m ↔ m = s₀ := by simp [Visits]

theorem visits_cons {a : L} {m : σ} : Visits s₀ ((a, t) :: l) m ↔ Visits s₀ l m ∨ m = t := by
  simp only [Visits, List.map_cons, List.mem_cons]
  tauto

theorem Run.reach (h : Run step s₀ l s) {m : σ} (hm : Visits s₀ l m) : ∃ l', Run step s₀ l' m := by
  induction h with
  | nil => exact ⟨[], visits_nil.mp hm ▸ .nil⟩
  | snoc hr hs ih =>
    rcases visits_cons.mp hm with hm | rfl
    · exact ih hm
    · exact ⟨_, hr.snoc hs⟩

theorem Run.visits (h : Run step s₀ l s) : Visits s₀ l s := by
  cases h with
  | nil => exact Visits.start
  | snoc _ _ => exact Visits.head

/-- **An invariant of steps holds along runs.** -/
theorem Run.invariant {I : σ → Prop} (h₀ : I s₀) (hs : ∀ s a t, I s → step s a t → I t)
    (h : Run step s₀ l s) : I s := by
  induction h with
  | nil => exact h₀
  | snoc _ ht ih => exact hs _ _ _ ih ht

/-- **An invariant of a run with its past.** The step may use the states visited so far. -/
theorem Run.history {I : List (L × σ) → σ → Prop} (h₀ : I [] s₀)
    (hs : ∀ l s a t, Run step s₀ l s → I l s → step s a t → I ((a, t) :: l) t)
    (h : Run step s₀ l s) : I l s := by
  induction h with
  | nil => exact h₀
  | snoc hr ht ih => exact hs _ _ _ _ hr ih ht

theorem Run.append {l' : List (L × σ)} (h : Run step s₀ l s) (h' : Run step s l' t) :
    Run step s₀ (l' ++ l) t := by
  induction h' with
  | nil => exact h
  | snoc _ ht ih => exact ih.snoc ht

/-- **Erasing steps.** `R` relates the states of two systems. If the second can follow every kept
step under the same label, and the other steps keep `R`, then the kept labels of a run are those
of a run of the second system, with related states all along. -/
theorem Run.erase (step' : τ → L → τ → Prop) (R : σ → τ → Prop) (keep : L → Bool) {t₀ : τ}
    (h₀ : R s₀ t₀)
    (hk : ∀ l s a t s', Run step s₀ l s → step s a t → keep a = true → R s s' →
      ∃ t', step' s' a t' ∧ R t t')
    (hd : ∀ l s a t s', Run step s₀ l s → step s a t → keep a = false → R s s' → R t s')
    (h : Run step s₀ l s) :
    ∃ l' s', Run step' t₀ l' s' ∧ R s s' ∧
      List.Forall₂ (fun x y => x.1 = y.1 ∧ R x.2 y.2) (l.filter fun x => keep x.1) l' := by
  induction h with
  | nil => exact ⟨[], t₀, .nil, h₀, .nil⟩
  | @snoc l s a t hr ht ih =>
    obtain ⟨l', s', hr', hR, hl⟩ := ih
    cases hka : keep a with
    | true =>
      obtain ⟨t', hs', hR'⟩ := hk l s a t s' hr ht hka hR
      refine ⟨(a, t') :: l', t', hr'.snoc hs', hR', ?_⟩
      rw [List.filter_cons, if_pos hka]
      exact .cons ⟨rfl, hR'⟩ hl
    | false =>
      refine ⟨l', s', hr', hd l s a t s' hr ht hka hR, ?_⟩
      rw [List.filter_cons, if_neg (by simp [hka])]
      exact hl

theorem labels_eq {R : σ → τ → Prop} {keep : L → Bool} {l' : List (L × τ)}
    (h : List.Forall₂ (fun x y => x.1 = y.1 ∧ R x.2 y.2) (l.filter fun x => keep x.1) l') :
    l'.map Prod.fst = (l.map Prod.fst).filter keep := by
  have hmap : ∀ {a : List (L × σ)} {b : List (L × τ)},
      List.Forall₂ (fun x y => x.1 = y.1 ∧ R x.2 y.2) a b → b.map Prod.fst = a.map Prod.fst := by
    intro a b hab
    induction hab with
    | nil => rfl
    | cons hx _ ih => rw [List.map_cons, List.map_cons, hx.1, ih]
  rw [hmap h, List.filter_map]
  rfl

/-- A run of one system is a run of another whose steps include those taken. -/
theorem Run.mono {step' : σ → L → σ → Prop} {I : σ → Prop} (h₀ : I s₀)
    (hI : ∀ s a t, I s → step s a t → I t) (hs : ∀ s a t, I s → step s a t → step' s a t)
    (h : Run step s₀ l s) : Run step' s₀ l s := by
  induction h with
  | nil => exact .nil
  | snoc hr ht ih => exact ih.snoc (hs _ _ _ (hr.invariant h₀ hI) ht)

theorem Run.imp {step' : σ → L → σ → Prop} (hs : ∀ s a t, step s a t → step' s a t)
    (h : Run step s₀ l s) : Run step' s₀ l s :=
  h.mono (I := fun _ => True) trivial (fun _ _ _ _ _ => trivial) fun s a t _ => hs s a t

section

variable {K : Type*} {step' : τ → K → τ → Prop}

/-- **A map of states** under which every step is one of another system makes its runs runs of that. The
new label may depend on where the step has led. -/
theorem Run.map (f : σ → τ) (g : L × σ → K)
    (hs : ∀ l s a t, Run step s₀ l s → step s a t → step' (f s) (g (a, t)) (f t))
    (h : Run step s₀ l s) : Run step' (f s₀) (l.map fun x => (g x, f x.2)) (f s) := by
  induction h with
  | nil => exact .nil
  | snoc hr ht ih => exact ih.snoc (hs _ _ _ _ hr ht)

theorem visits_map {f : σ → τ} {g : L × σ → K} {m' : τ} :
    Visits (f s₀) (l.map fun x => (g x, f x.2)) m' ↔ ∃ m, Visits s₀ l m ∧ f m = m' := by
  unfold Visits
  rw [List.map_map, List.mem_map]
  constructor
  · rintro (rfl | ⟨x, hx, rfl⟩)
    · exact ⟨s₀, Or.inl rfl, rfl⟩
    · exact ⟨x.2, Or.inr (List.mem_map_of_mem hx), rfl⟩
  · rintro ⟨m, rfl | hm, rfl⟩
    · exact Or.inl rfl
    · obtain ⟨x, hx, rfl⟩ := List.mem_map.mp hm
      exact Or.inr ⟨x, hx, rfl⟩

end

/-- Follow the labels of a list, oldest first, in a system that computes its steps. -/
def exec (f : σ → L → Option σ) (s : σ) : List L → Option σ
  | [] => some s
  | a :: as => (f s a).bind fun t => exec f t as

theorem exec_append (f : σ → L → Option σ) (s : σ) (as bs : List L) :
    exec f s (as ++ bs) = (exec f s as).bind fun t => exec f t bs := by
  induction as generalizing s with
  | nil => rfl
  | cons a as ih =>
    show (f s a).bind (fun t => exec f t (as ++ bs)) = ((f s a).bind fun t => exec f t as).bind _
    cases f s a with
    | none => rfl
    | some t => exact ih t

theorem exec_run {f : σ → L → Option σ} {as : List L} (h : exec f s as = some t)
    (hr : Run (fun s a t => f s a = some t) s₀ l s) :
    ∃ l', Run (fun s a t => f s a = some t) s₀ l' t ∧
      l'.map Prod.fst = as.reverse ++ l.map Prod.fst := by
  induction as generalizing s l with
  | nil =>
    obtain rfl := Option.some.inj h
    exact ⟨l, hr, rfl⟩
  | cons a as ih =>
    obtain ⟨m, hm, h⟩ := Option.bind_eq_some_iff.mp h
    obtain ⟨l', hr', hl⟩ := ih h (hr.snoc hm)
    refine ⟨l', hr', ?_⟩
    rw [hl, List.map_cons, List.reverse_cons, List.append_assoc]
    rfl

/-- The run that `exec` computes, newest step first. -/
def execLog (f : σ → L → Option σ) (s : σ) : List L → List (L × σ)
  | [] => []
  | a :: as => ((f s a).map fun t => execLog f t as ++ [(a, t)]).getD []

theorem exec_log {f : σ → L → Option σ} {as : List L} (h : exec f s as = some t)
    (hr : Run (fun s a t => f s a = some t) s₀ l s) :
    Run (fun s a t => f s a = some t) s₀ (execLog f s as ++ l) t := by
  induction as generalizing s l with
  | nil => exact Option.some.inj h ▸ hr
  | cons a as ih =>
    obtain ⟨m, hm, h⟩ := Option.bind_eq_some_iff.mp h
    have hlog : execLog f s (a :: as) = execLog f m as ++ [(a, m)] := by
      show ((f s a).map fun t => execLog f t as ++ [(a, t)]).getD [] = _
      rw [hm]
      rfl
    rw [hlog, List.append_assoc]
    exact ih h (hr.snoc hm)

/-- Commands that compute steps of a system make a run of it. -/
theorem exec_reach {C : Type*} {f : σ → C → Option σ} (hf : ∀ s c t, f s c = some t → ∃ a, step s a t)
    {cs : List C} (h : exec f s cs = some t) (hr : Run step s₀ l s) : ∃ l', Run step s₀ l' t := by
  induction cs generalizing s l with
  | nil =>
    obtain rfl := Option.some.inj h
    exact ⟨l, hr⟩
  | cons c cs ih =>
    obtain ⟨m, hm, h⟩ := Option.bind_eq_some_iff.mp h
    obtain ⟨a, ha⟩ := hf _ _ _ hm
    exact ih h (hr.snoc ha)

/-- A step that is computed with its label, put before the run that it continues. -/
def record {C : Type*} (f : σ → C → Option (L × σ)) (r : List (L × σ) × σ) (c : C) :
    Option (List (L × σ) × σ) :=
  (f r.2 c).map fun x => (x :: r.1, x.2)

theorem exec_record {C : Type*} {f : σ → C → Option (L × σ)} {r r' : List (L × σ) × σ} {cs : List C}
    (hf : ∀ s c a t, f s c = some (a, t) → step s a t) (h : exec (record f) r cs = some r')
    (hr : Run step s₀ r.1 r.2) : Run step s₀ r'.1 r'.2 := by
  induction cs generalizing r with
  | nil =>
    obtain rfl := Option.some.inj h
    exact hr
  | cons c cs ih =>
    obtain ⟨m, hm, h⟩ := Option.bind_eq_some_iff.mp h
    obtain ⟨⟨a, t⟩, hs, rfl⟩ := Option.map_eq_some_iff.mp hm
    exact ih h (hr.snoc (hf _ _ _ _ hs))

end Lts
