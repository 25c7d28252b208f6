import Mathlib.Data.List.Nodup
import Mathlib.Data.List.Perm.Basic
import S3o.Async.Prog

/-!
# Questions and their answers

A program numbers its questions apart, and each is answered at most once. All of them are answered when it
returns, and wherever it releases a guard.

* `asked`, `answered`: the questions of a trace, and those with an answer;
* `Prog.waiting`: the questions that the futures in progress wait on;
* `Prog.Fresh`, `Prog.Orderly`: nothing that comes later is in progress;
* `Prog.Step.waiting`: what a step asks and what it is answered;
* **`Prog.Converses.step`**: questions and answers stay paired.
-/

namespace Async

variable {S : Sig} {α β : Type}

/-- The questions of a trace with their numbers, newest first. -/
def asked (τ : List (Ev S)) : List (ℕ × S.Ask) :=
  τ.filterMap fun
    | .sent n q => some (n, q)
    | _ => none

/-- The questions that have been answered. -/
def answered (τ : List (Ev S)) : List (ℕ × S.Ask) :=
  τ.filterMap fun
    | .answered n q _ => some (n, q)
    | _ => none

/-- The question that a future waits on. -/
def Fut.waiting (f : Fut S β) : Option (ℕ × S.Ask) :=
  match f.tok, f.code with
  | some m, .ask q _ => some (m, q)
  | _, _ => none

/-- The questions that are open. -/
def Prog.waiting : Prog S α → List (ℕ × S.Ask)
  | .run f _ => f.waiting.toList
  | .loop _ _ f _ => f.waiting.toList
  | .join _ _ r _ _ => r.filterMap fun x => x.2.waiting
  | _ => []

/-- No future of the code is in progress. -/
def Prog.Fresh : Prog S α → Prop
  | .ret _ => True
  | .now k => ∀ t, (k t).Fresh
  | .emit _ k => k.Fresh
  | .acquire _ _ k => ∀ d, (k d).Fresh
  | .acquiring _ _ _ k => ∀ d, (k d).Fresh
  | .release k => k.Fresh
  | .run f k => f.waiting = none ∧ ∀ x, (k x).Fresh
  | .loop _ _ f k => f.waiting = none ∧ ∀ x, (k x).Fresh
  | .join _ _ r _ k => r = [] ∧ ∀ xs, (k xs).Fresh

/-- No future of the code that comes later is in progress. -/
def Prog.Orderly : Prog S α → Prop
  | .run _ k => ∀ x, (k x).Fresh
  | .loop _ _ _ k => ∀ x, (k x).Fresh
  | .join _ _ _ _ k => ∀ xs, (k xs).Fresh
  | p => p.Fresh

section

variable {p : Prog S α}

theorem Prog.Fresh.waiting (h : p.Fresh) : p.waiting = [] := by
  cases p with
  | run f k => exact congrArg Option.toList h.1
  | loop body i f k => exact congrArg Option.toList h.1
  | join w pd r d k =>
    obtain ⟨rfl, -⟩ := h
    rfl
  | _ => rfl

theorem Prog.Fresh.orderly (h : p.Fresh) : p.Orderly := by
  cases p with
  | run f k => exact h.2
  | loop body i f k => exact h.2
  | join w pd r d k => exact h.2
  | _ => exact h

theorem Prog.Fresh.bind {f : α → Prog S β} (h : p.Fresh) (hf : ∀ a, (f a).Fresh) : (p.bind f).Fresh := by
  induction p with
  | ret a => exact hf a
  | now k ih => exact fun t => ih t (h t)
  | emit e k ih => exact ih h
  | acquire s a k ih => exact fun d => ih d (h d)
  | acquiring s a t k ih => exact fun d => ih d (h d)
  | release k ih => exact ih h
  | run g k ih => exact ⟨h.1, fun x => ih x (h.2 x)⟩
  | loop body i g k ih => exact ⟨h.1, fun x => ih x (h.2 x)⟩
  | join w p r d k ih => exact ⟨h.1, fun xs => ih xs (h.2 xs)⟩

theorem Prog.waiting_length_le (p : Prog S α) : p.waiting.length ≤ p.inFlight := by
  have hone : ∀ {γ : Type} (f : Fut S γ), f.waiting.toList.length ≤ 1 := by
    intro γ f
    cases f.waiting with
    | none => exact Nat.zero_le 1
    | some x => exact Nat.le_refl _
  cases p with
  | run f k => exact hone f
  | loop body i f k => exact hone f
  | join w pd r d k => exact List.length_filterMap_le ..
  | _ => exact Nat.le_refl _

end

/-! ## Steps -/

section

variable {t n : ℕ} {e : Option (Ev S)}

theorem Fut.Step.waiting {f f' : Fut S β} (h : Fut.Step t n f e f') :
    asked e.toList ++ f.waiting.toList = answered e.toList ++ f'.waiting.toList := by
  cases h <;> rfl

theorem Fut.Step.number {f f' : Fut S β} (h : Fut.Step t n f e f') : ∀ x ∈ asked e.toList, x.1 = n := by
  intro x hx
  cases h with
  | ask =>
    obtain rfl := List.mem_singleton.mp hx
    rfl
  | _ => cases hx

/-- **A program asks under the next number.** -/
theorem Prog.Step.number {p p' : Prog S α} (h : Prog.Step t n p e p') : ∀ x ∈ asked e.toList, x.1 = n := by
  cases h with
  | run hf => exact hf.number
  | loop hf => exact hf.number
  | join hf => exact hf.number
  | _ => exact fun x hx => absurd hx List.not_mem_nil

/-- No question is open where a guard is released. -/
theorem Prog.Step.waiting_of_freed {p p' : Prog S α} (h : Prog.Step t n p (some .freed) p') :
    p.waiting = [] := by
  cases h with
  | freed => rfl
  | run hf => cases hf
  | loop hf => cases hf
  | join hf => cases hf

/-- **What a step asks becomes open, and what is answered was.** -/
theorem Prog.Step.waiting {p p' : Prog S α} (h : Prog.Step t n p e p') (hp : p.Orderly) : p'.Orderly ∧
    (asked e.toList ++ p.waiting).Perm (answered e.toList ++ p'.waiting) := by
  -- a step to code that is not in progress
  have hfresh : ∀ {q : Prog S α}, q.Fresh → q.Orderly ∧ ([] : List (ℕ × S.Ask)).Perm q.waiting := by
    intro q hq
    rw [hq.waiting]
    exact ⟨hq.orderly, .refl _⟩
  cases h with
  | now => exact hfresh (hp t)
  | emit => exact hfresh hp
  | want => exact ⟨hp, .refl _⟩
  | got => exact hfresh (hp _)
  | lost => exact hfresh (hp _)
  | freed => exact hfresh hp
  | run hf =>
    refine ⟨hp, ?_⟩
    show (asked _ ++ Option.toList _).Perm (answered _ ++ Option.toList _)
    rw [hf.waiting]
  | ran => exact hfresh (hp _)
  | loop hf =>
    refine ⟨hp, ?_⟩
    show (asked _ ++ Option.toList _).Perm (answered _ ++ Option.toList _)
    rw [hf.waiting]
  | again => exact ⟨hp, .refl _⟩
  | leave => exact hfresh (hp _)
  | @start γ w j l pd r d k hw =>
    refine ⟨hp, ?_⟩
    have hnone : (Fut.waiting ⟨l, none⟩ : Option (ℕ × S.Ask)) = none := rfl
    show (List.filterMap _ r).Perm (List.filterMap _ (r ++ [(j, ⟨l, none⟩)]))
    simp [hnone]
  | @join γ w j f f' _ pd r₁ r₂ d k hf =>
    refine ⟨hp, ?_⟩
    show (asked e.toList ++ List.filterMap _ (r₁ ++ (j, f) :: r₂)).Perm
      (answered e.toList ++ List.filterMap _ (r₁ ++ (j, f') :: r₂))
    have hsplit : ∀ g : Fut S γ, ((r₁ ++ (j, g) :: r₂).filterMap fun x => x.2.waiting).Perm
        (g.waiting.toList ++ ((r₁ ++ r₂).filterMap fun x => x.2.waiting)) := by
      intro g
      refine (List.perm_middle.filterMap _).trans ?_
      rw [List.filterMap_cons]
      cases g.waiting <;> exact .refl _
    refine ((hsplit f).append_left _).trans (.trans ?_ ((hsplit f').append_left _).symm)
    rw [← List.append_assoc, ← List.append_assoc, hf.waiting]
  | @finish γ w j b pd r₁ r₂ d k =>
    refine ⟨hp, ?_⟩
    have hnone : (Fut.waiting ⟨.ret b, none⟩ : Option (ℕ × S.Ask)) = none := rfl
    show (List.filterMap _ (r₁ ++ (j, ⟨.ret b, none⟩) :: r₂)).Perm (List.filterMap _ (r₁ ++ r₂))
    simp [hnone]
  | collect => exact hfresh (hp _)

end

/-! ## Traces -/

/-- **A program with its trace**, when `n` is the next number: its questions are numbered apart, those
without an answer are open, and none was where it has released a guard. -/
structure Prog.Converses (p : Prog S α) (n : ℕ) (τ : List (Ev S)) : Prop where
  orderly : p.Orderly
  pairs : (asked τ).Perm (answered τ ++ p.waiting)
  nodup : ((asked τ).map Prod.fst).Nodup
  bound : ∀ x ∈ asked τ, x.1 < n
  freed : ∀ τ', .freed :: τ' <:+ τ → (asked τ').Perm (answered τ')

theorem Prog.Fresh.converses {p : Prog S α} (h : p.Fresh) (n : ℕ) : p.Converses n [] where
  orderly := h.orderly
  pairs := by
    rw [h.waiting]
    exact .refl _
  nodup := List.nodup_nil
  bound x hx := absurd hx List.not_mem_nil
  freed τ' h := absurd h.length_le (by simp)

/-- **Questions and answers stay paired.** -/
theorem Prog.Converses.step {p p' : Prog S α} {t n n' : ℕ} {e : Option (Ev S)} {τ : List (Ev S)}
    (h : p.Converses n τ) (hs : Prog.Step t n p e p') (hle : n ≤ n')
    (hlt : ∀ x ∈ asked e.toList, n < n') : p'.Converses n' (e.toList ++ τ) := by
  obtain ⟨hp', hwait⟩ := hs.waiting h.orderly
  have hasked : asked (e.toList ++ τ) = asked e.toList ++ asked τ := List.filterMap_append
  have hanswered : answered (e.toList ++ τ) = answered e.toList ++ answered τ := List.filterMap_append
  refine ⟨hp', ?_, ?_, ?_, ?_⟩
  · rw [hasked, hanswered, List.append_assoc]
    calc (asked e.toList ++ asked τ).Perm (asked e.toList ++ (answered τ ++ p.waiting)) :=
          h.pairs.append_left _
      _ |>.Perm (answered τ ++ (asked e.toList ++ p.waiting)) := List.perm_append_comm_assoc ..
      _ |>.Perm (answered τ ++ (answered e.toList ++ p'.waiting)) := hwait.append_left _
      _ |>.Perm (answered e.toList ++ (answered τ ++ p'.waiting)) := List.perm_append_comm_assoc ..
  · have hone : ((asked e.toList).map Prod.fst).Nodup := by
      cases e with
      | none => exact List.nodup_nil
      | some e => cases e <;> simp [asked]
    rw [hasked, List.map_append, List.nodup_append]
    refine ⟨hone, h.nodup, ?_⟩
    intro a ha b hb hab
    obtain ⟨x, hx, rfl⟩ := List.mem_map.mp ha
    obtain ⟨y, hy, rfl⟩ := List.mem_map.mp hb
    have hold := h.bound y hy
    rw [← hab, hs.number x hx] at hold
    exact Nat.lt_irrefl n hold
  · intro x hx
    rw [hasked] at hx
    rcases List.mem_append.mp hx with hx | hx
    · rw [hs.number x hx]
      exact hlt x hx
    · exact Nat.lt_of_lt_of_le (h.bound x hx) hle
  · intro τ' hτ'
    cases e with
    | none => exact h.freed τ' hτ'
    | some e =>
      rcases List.suffix_cons_iff.mp hτ' with heq | hτ'
      · obtain ⟨rfl, rfl⟩ := List.cons.inj heq
        have hpairs := h.pairs
        rwa [hs.waiting_of_freed, List.append_nil] at hpairs
      · exact h.freed τ' hτ'

end Async
