import S3o.Async.Descent
import S3o.Async.Next
import S3o.Async.Trace

/-!
# Programs that return

* `Prog.Returns`: a program that returns in every run whose history keeps `K`;
* **`Prog.returns_of_safe`**: a safe program with bounded loops does;
* `Prog.Returns.exists`: a run that has returned.
-/

namespace Async

open Lts

variable {S : Sig} {α : Type}

/-- **The program returns in every run that keeps `K`**: it can go on until it has returned, and no run
goes on for ever. -/
structure Prog.Returns (K : History S → Prop) (p : Prog S α) : Prop where
  goes_on : ∀ τ q, p.Runs τ q → K τ → (∃ a, q = .ret a) ∨ ∃ x q', q.Noted x q' ∧ K (x ++ τ)
  finite : ∀ f : ℕ → History S × Prog S α, f 0 = ([], p) → (∀ n, K (f n).1) →
    ¬ ∀ n, ∃ x, (f n).2.Noted x (f (n + 1)).2 ∧ (f (n + 1)).1 = x ++ (f n).1

/-- An event that a step writes is its own. -/
theorem Prog.note_event {p : Prog S α} {e : Option (Ev S)} {x : Ev S} (h : p.note e = some (.event x)) :
    e = some x := by
  cases e with
  | some e =>
    cases h
    rfl
  | none =>
    cases p with
    | join w pd rs d k => cases pd <;> cases rs <;> cases h
    | _ => cases h

section

variable {M : Monitor S} {ψ : M.G → α → Prop} {g : M.G} {K : History S → Prop} {p q : Prog S α}
  {τ : History S}

theorem Prog.LoopFree.run (h : p.LoopFree) (hr : p.Runs τ q) : q.LoopFree := by
  induction hr with
  | nil => exact h
  | snoc _ hstep ih =>
    obtain ⟨t, n, e, hstep, -⟩ := hstep
    exact ih.step hstep

/-- **A safe program returns**, if its streams have some width, its loops take at most `P` turns, and what
heeds the answers `o` keeps `K`. -/
theorem Prog.returns_of_safe (hs : p.Safe M ψ g) (hw : ∀ g w, M.width g w → 0 < w) (o : ∀ q, S.Ans q)
    (hK : ∀ τ t y, K τ → (∀ e, y = .event e → e.Heeds o) → K ((t, y) :: τ))
    (P : ℕ) (hP : ∀ τ q, p.Runs τ q → K τ → q.turn ≤ P) : p.Returns K := by
  constructor
  · intro τ q hr hτ
    rcases q.ret_or with hret | hne
    · exact Or.inl hret
    · right
      obtain ⟨-, hq⟩ := hs.run hr
      obtain ⟨y, hy⟩ := Option.isSome_iff_exists.mp
        (Prog.next_isSome (fun _ => o) 0 0 true hq (hw _) hne)
      refine ⟨_, y.2, ⟨0, 0, y.1, Prog.next_step hy, rfl⟩, ?_⟩
      cases hnote : q.note y.1 with
      | none => exact hτ
      | some x =>
        refine hK τ 0 x hτ fun e hx => ?_
        subst hx
        exact Prog.next_heeds hy (Prog.note_event hnote)
  · intro f h₀ hKf hf
    have hruns : ∀ n, p.Runs (f n).1 (f n).2 := by
      intro n
      induction n with
      | zero =>
        rw [h₀]
        exact .nil
      | succ n ih =>
        obtain ⟨x, hx, heq⟩ := hf n
        rw [heq]
        exact ih.snoc hx
    refine no_descent (fun s : History S × Prog S α => s.2.bag P 0)
      (r := fun s t => ∃ x, s.2.Noted x t.2 ∧ t.2.turn ≤ P) ?_ f fun n => ?_
    · rintro s t ⟨x, ⟨u, m, e, hstep, -⟩, ht⟩
      exact lt_of_add (Prog.bag_lt hstep ht)
    · obtain ⟨x, hx, -⟩ := hf n
      exact ⟨x, hx, hP _ _ (hruns (n + 1)) (hKf (n + 1))⟩

theorem Heeded.cons {o : ∀ q, S.Ans q} (h : Heeded o τ.events) (t : ℕ) {y : Note S}
    (hy : ∀ e, y = .event e → e.Heeds o) : Heeded o (History.events ((t, y) :: τ)) := by
  cases y with
  | event e => exact List.forall_mem_cons.mpr ⟨hy e rfl, h⟩
  | _ => exact h

/-- **A program that returns has a run that has returned.** -/
theorem Prog.Returns.exists (h : p.Returns K) (h₀ : K []) : ∃ τ a, p.Runs τ (.ret a) ∧ K τ := by
  by_contra hno
  -- a run that keeps `K` can always go on, so that some run never ends
  have hstep : ∀ s : {s : History S × Prog S α // p.Runs s.1 s.2 ∧ K s.1},
      ∃ t : {s : History S × Prog S α // p.Runs s.1 s.2 ∧ K s.1},
        ∃ x, s.1.2.Noted x t.1.2 ∧ t.1.1 = x ++ s.1.1 := by
    rintro ⟨⟨τ, q⟩, hr, hτ⟩
    rcases h.goes_on τ q hr hτ with ⟨a, rfl⟩ | ⟨x, q', hx, hK⟩
    · exact absurd ⟨τ, a, hr, hτ⟩ hno
    · exact ⟨⟨(x ++ τ, q'), hr.snoc hx, hK⟩, x, hx, rfl⟩
  choose next hnext using hstep
  let f : ℕ → {s : History S × Prog S α // p.Runs s.1 s.2 ∧ K s.1} :=
    Nat.rec ⟨([], p), .nil, h₀⟩ fun _ s => next s
  exact h.finite (fun n => (f n).1) rfl (fun n => (f n).2.2) fun n => hnext (f n)

end

end Async
