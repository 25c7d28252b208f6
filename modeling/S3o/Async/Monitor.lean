import Mathlib.Data.Set.Insert
import Mathlib.Data.List.Perm.Basic
import S3o.Async.Prog

/-!
# Monitors and safe programs

A monitor watches the events of a program and keeps a state. `Prog.Safe` is the rule system that
proves, by recursion on the code, that every event is allowed when it happens and that the result
meets a postcondition on the final monitor state. Futures in a `join` run interleaved, so their
events may only move the monitor up in its order, and what they establish must be stable upwards.
A future that is waited for alone may move the monitor freely.

* `Monitor`, `Monitor.strict` (the state never moves inside a `join`), `Monitor.project` (the state
  lists the events of interest), `Monitor.memory` (the state is the set of past events);
* `Leaf.Safe`, `Fut.Safe`, `Prog.Safe`, with the rules `safe_bind`, `Prog.Safe.weaken`,
  `safe_repeat`, `safe_bufferUnordered`;
* **`Prog.Safe.step`**: a step of a safe program is allowed and leaves it safe.
-/

namespace Async

variable {S : Sig} {α β γ σ : Type}

/-- **A monitor**: a state that follows the events, what it allows in each state, how many futures
may be in progress, and where a program may be suspended. -/
structure Monitor (S : Sig) where
  G : Type
  le : G → G → Prop
  next : G → Ev S → G
  ok : G → Ev S → Prop
  width : G → ℕ → Prop
  pause : G → Prop
  refl : ∀ g, le g g
  trans : ∀ {g₁ g₂ g₃}, le g₁ g₂ → le g₂ g₃ → le g₁ g₃
  next_mono : ∀ {g g'} e, le g g' → le (next g e) (next g' e)
  ok_mono : ∀ {g g' e}, le g g' → ok g e → le g (next g e) → ok g' e ∧ le g' (next g' e)
  width_mono : ∀ {g g' w}, le g g' → width g w → width g' w
  pause_mono : ∀ {g g'}, le g g' → pause g → pause g'

/-- A monitor whose state the events of joined futures leave alone. -/
@[reducible] def Monitor.strict (G : Type) (next : G → Ev S → G) (ok : G → Ev S → Prop)
    (width : G → ℕ → Prop) (pause : G → Prop) : Monitor S where
  G := G
  le := Eq
  next := next
  ok := ok
  width := width
  pause := pause
  refl _ := rfl
  trans h₁ h₂ := h₁.trans h₂
  next_mono _ h := h ▸ rfl
  ok_mono h h₁ h₂ := h ▸ ⟨h₁, h₂⟩
  width_mono h h₁ := h ▸ h₁
  pause_mono h h₁ := h ▸ h₁

/-- A monitor that remembers every event and allows an event on the strength of what happened. -/
@[reducible] def Monitor.memory (ok : Set (Ev S) → Ev S → Prop)
    (mono : ∀ {g g' e}, g ⊆ g' → ok g e → ok g' e) : Monitor S where
  G := Set (Ev S)
  le g g' := g ⊆ g'
  next g e := insert e g
  ok := ok
  width _ _ := True
  pause _ := True
  refl _ := Set.Subset.rfl
  trans h₁ h₂ := h₁.trans h₂
  next_mono _ h := Set.insert_subset_insert h
  ok_mono h h₁ _ := ⟨mono h h₁, Set.subset_insert _ _⟩
  width_mono _ h := h
  pause_mono _ h := h

/-- A monitor that lists what `f` sees of the past, newest first. Joined futures do nothing that `f`
sees. -/
@[reducible] def Monitor.project (f : Ev S → Option β) (pause : List β → Prop) : Monitor S :=
  .strict (List β) (fun g e => (f e).toList ++ g) (fun _ _ => True) (fun _ _ => True) pause

variable (M : Monitor S)

/-- An event that a joined future may cause: allowed, and moving the monitor up. -/
def Monitor.Fine (g : M.G) (e : Ev S) : Prop := M.ok g e ∧ M.le g (M.next g e)

/-- An event that a future waited for alone may cause. -/
def Monitor.Solo (g : M.G) (e : Ev S) : Prop := M.ok g e ∧ M.width (M.next g e) 1

/-- The state after a step. -/
def Monitor.after (g : M.G) : Option (Ev S) → M.G
  | none => g
  | some e => M.next g e

/-- The state after a history, newest event first. -/
def Monitor.exec (g : M.G) : List (Ev S) → M.G
  | [] => g
  | e :: τ => M.next (exec g τ) e

/-- Every event of a history was allowed when it happened. -/
def Monitor.Accepts (g : M.G) : List (Ev S) → Prop
  | [] => True
  | e :: τ => Accepts g τ ∧ M.ok (M.exec g τ) e

theorem Monitor.exec_toList (g : M.G) (e : Option (Ev S)) (τ : List (Ev S)) :
    M.exec g (e.toList ++ τ) = M.after (M.exec g τ) e := by
  cases e <;> rfl

theorem Monitor.exec_project (f : Ev S → Option β) (pause : List β → Prop) (τ : List (Ev S)) :
    (Monitor.project f pause).exec [] τ = τ.filterMap f := by
  induction τ with
  | nil => rfl
  | cons e τ ih =>
    show (f e).toList ++ (Monitor.project f pause).exec [] τ = (e :: τ).filterMap f
    rw [ih, List.filterMap_cons]
    cases f e <;> rfl

section

variable {ok : Set (Ev S) → Ev S → Prop} {mono : ∀ {g g' e}, g ⊆ g' → ok g e → ok g' e}
  {τ : List (Ev S)}

theorem Monitor.exec_memory : (Monitor.memory ok mono).exec ∅ τ = {e | e ∈ τ} := by
  induction τ with
  | nil =>
    ext e
    simp [Monitor.exec]
  | cons e τ ih =>
    show insert e ((Monitor.memory ok mono).exec ∅ τ) = _
    rw [ih]
    ext x
    simp

/-- What was allowed when it happened is allowed on the strength of the whole past. -/
theorem Monitor.Accepts.memory (h : (Monitor.memory ok mono).Accepts ∅ τ) :
    ∀ e ∈ τ, ok {e | e ∈ τ} e := by
  induction τ with
  | nil => exact fun e he => nomatch he
  | cons x τ ih =>
    obtain ⟨hτ, hx⟩ := h
    rw [Monitor.exec_memory] at hx
    have hsub : {e | e ∈ τ} ⊆ {e | e ∈ x :: τ} := fun e he => List.mem_cons_of_mem _ he
    intro e he
    rcases List.mem_cons.mp he with rfl | he
    · exact mono hsub hx
    · exact mono hsub (ih hτ e he)

end

/-- What `ψ` says of a result stays true when the monitor moves up. -/
def Monitor.Stable (ψ : M.G → β → Prop) : Prop := ∀ g g' b, M.le g g' → ψ g b → ψ g' b

/-! ## Safe code -/

/-- The code of a future is safe from state `g` and its result satisfies `ψ`; `A` allows its events. -/
def Leaf.Safe (A : M.G → Ev S → Prop) (ψ : M.G → β → Prop) : Leaf S β → M.G → Prop
  | .ret b, g => ψ g b
  | .now k, g => ∀ t, (k t).Safe A ψ g
  | .emit e k, g => A g (.emit e) ∧ k.Safe A ψ (M.next g (.emit e))
  | .ask q k, g => M.pause g ∧ ∀ n, A g (.sent n q) ∧ M.pause (M.next g (.sent n q)) ∧
      ∀ r, A (M.next g (.sent n q)) (.answered n q r) ∧
        (k r).Safe A ψ (M.next (M.next g (.sent n q)) (.answered n q r))

/-- A future in progress is safe. -/
def Fut.Safe (A : M.G → Ev S → Prop) (ψ : M.G → β → Prop) (f : Fut S β) (g : M.G) : Prop :=
  match f.tok, f.code with
  | none, l => l.Safe M A ψ g
  | some n, .ask q k => M.pause g ∧ ∀ r, A g (.answered n q r) ∧
      (k r).Safe M A ψ (M.next g (.answered n q r))
  | some _, _ => False

/-- **Safe programs**: every event is allowed, and the result satisfies `ψ`. -/
def Prog.Safe (ψ : M.G → α → Prop) : Prog S α → M.G → Prop
  | .ret a, g => ψ g a
  | .now k, g => ∀ t, (k t).Safe ψ g
  | .emit e k, g => M.ok g (.emit e) ∧ k.Safe ψ (M.next g (.emit e))
  | .acquire h a k, g => M.ok g (.want h a) ∧ M.pause (M.next g (.want h a)) ∧
      (∀ d, M.ok (M.next g (.want h a)) (.got h a d) ∧
        (k (some d)).Safe ψ (M.next (M.next g (.want h a)) (.got h a d))) ∧
      M.ok (M.next g (.want h a)) (.lost h a) ∧
        (k none).Safe ψ (M.next (M.next g (.want h a)) (.lost h a))
  | .acquiring h a _ k, g => M.pause g ∧
      (∀ d, M.ok g (.got h a d) ∧ (k (some d)).Safe ψ (M.next g (.got h a d))) ∧
      M.ok g (.lost h a) ∧ (k none).Safe ψ (M.next g (.lost h a))
  | .release k, g => M.ok g .freed ∧ k.Safe ψ (M.next g .freed)
  | .run f k, g => M.width g 1 ∧ f.Safe M M.Solo (fun g' x => (k x).Safe ψ g') g
  | @Prog.loop _ _ σ _ body _ f k, g => M.width g 1 ∧ ∃ I : M.G → σ → Prop,
      (∀ g' s, I g' s → M.width g' 1 ∧
        (body s).Safe M M.Solo (fun g'' => Sum.elim (I g'') fun c => (k c).Safe ψ g'') g') ∧
      f.Safe M M.Solo (fun g'' => Sum.elim (I g'') fun c => (k c).Safe ψ g'') g
  | @Prog.join _ _ β w p r d k, g => M.width g w ∧ r.length ≤ w ∧ ∃ φ : ℕ → M.G → β → Prop,
      (∀ j, M.Stable (φ j)) ∧ (∀ x ∈ p, x.2.Safe M M.Fine (φ x.1) g) ∧ (∀ x ∈ r, x.2.Safe M M.Fine (φ x.1) g) ∧
      (∀ x ∈ d, φ x.1 g x.2) ∧
      ∀ g', M.le g g' → ∀ rs : List (ℕ × β),
        (rs.map Prod.fst).Perm ((d.map Prod.fst ++ r.map Prod.fst) ++ p.map Prod.fst) →
        (∀ x ∈ rs, φ x.1 g' x.2) → (k (rs.map Prod.snd)).Safe ψ g'

variable {M}

variable {A : M.G → Ev S → Prop}

@[simp] theorem Fut.safe_start (ψ : M.G → β → Prop) (l : Leaf S β) (g : M.G) :
    Fut.Safe M A ψ ⟨l, none⟩ g ↔ l.Safe M A ψ g := by
  simp [Fut.Safe]

@[simp] theorem Fut.safe_asked (ψ : M.G → β → Prop) (n : ℕ) (q : S.Ask) (k : S.Ans q → Leaf S β)
    (g : M.G) : Fut.Safe M A ψ ⟨.ask q k, some n⟩ g ↔ M.pause g ∧ ∀ r, A g (.answered n q r) ∧
      (k r).Safe M A ψ (M.next g (.answered n q r)) := by
  simp [Fut.Safe]

theorem Monitor.Fine.mono {g g' : M.G} {e : Ev S} (h : M.Fine g e) (hg : M.le g g') :
    M.Fine g' e := M.ok_mono hg h.1 h.2

/-! ## The rules -/

theorem Leaf.Safe.weaken {ψ ψ' : M.G → β → Prop} (h : ∀ g b, ψ g b → ψ' g b) :
    ∀ (l : Leaf S β) (g : M.G), l.Safe M A ψ g → l.Safe M A ψ' g
  | .ret b, g, hl => h g b hl
  | .now k, g, hl => fun t => Leaf.Safe.weaken h (k t) g (hl t)
  | .emit _ k, _, hl => ⟨hl.1, Leaf.Safe.weaken h k _ hl.2⟩
  | .ask _ k, _, hl => ⟨hl.1, fun n => ⟨(hl.2 n).1, (hl.2 n).2.1, fun r =>
      ⟨((hl.2 n).2.2 r).1, Leaf.Safe.weaken h (k r) _ ((hl.2 n).2.2 r).2⟩⟩⟩

theorem Leaf.Safe.mono {ψ : M.G → β → Prop} (hψ : M.Stable ψ) :
    ∀ (l : Leaf S β) {g g' : M.G}, M.le g g' → l.Safe M M.Fine ψ g → l.Safe M M.Fine ψ g'
  | .ret b, g, g', hg, h => hψ g g' b hg h
  | .now k, _, _, hg, h => fun t => Leaf.Safe.mono hψ (k t) hg (h t)
  | .emit _ k, _, _, hg, h => ⟨h.1.mono hg, Leaf.Safe.mono hψ k (M.next_mono _ hg) h.2⟩
  | .ask _ k, _, _, hg, h => ⟨M.pause_mono hg h.1, fun n =>
      ⟨(h.2 n).1.mono hg, M.pause_mono (M.next_mono _ hg) (h.2 n).2.1, fun r =>
        ⟨((h.2 n).2.2 r).1.mono (M.next_mono _ hg),
          Leaf.Safe.mono hψ (k r) (M.next_mono _ (M.next_mono _ hg)) ((h.2 n).2.2 r).2⟩⟩⟩

theorem Fut.Safe.weaken {ψ ψ' : M.G → β → Prop} (h : ∀ g b, ψ g b → ψ' g b) {f : Fut S β}
    {g : M.G} (hf : f.Safe M A ψ g) : f.Safe M A ψ' g := by
  obtain ⟨code, tok⟩ := f
  cases tok with
  | none => simpa using Leaf.Safe.weaken h _ _ (by simpa using hf)
  | some n =>
    cases code with
    | ask q k =>
      rw [Fut.safe_asked] at hf ⊢
      exact ⟨hf.1, fun r => ⟨(hf.2 r).1, Leaf.Safe.weaken h _ _ (hf.2 r).2⟩⟩
    | _ => exact hf.elim

theorem Fut.Safe.mono {ψ : M.G → β → Prop} (hψ : M.Stable ψ) {f : Fut S β} {g g' : M.G}
    (hg : M.le g g') (hf : f.Safe M M.Fine ψ g) : f.Safe M M.Fine ψ g' := by
  obtain ⟨code, tok⟩ := f
  cases tok with
  | none => simpa using Leaf.Safe.mono hψ _ hg (by simpa using hf)
  | some n =>
    cases code with
    | ask q k =>
      rw [Fut.safe_asked] at hf ⊢
      exact ⟨M.pause_mono hg hf.1, fun r => ⟨(hf.2 r).1.mono hg,
        Leaf.Safe.mono hψ _ (M.next_mono _ hg) (hf.2 r).2⟩⟩
    | _ => exact hf.elim

theorem Leaf.safe_bind {ψ : M.G → γ → Prop} (f : β → Leaf S γ) : ∀ (l : Leaf S β) (g : M.G),
    (l.bind f).Safe M A ψ g ↔ l.Safe M A (fun g' b => (f b).Safe M A ψ g') g
  | .ret _, _ => Iff.rfl
  | .now k, g => forall_congr' fun t => (k t).safe_bind f g
  | .emit _ k, _ => and_congr Iff.rfl (k.safe_bind f _)
  | .ask _ k, _ => and_congr Iff.rfl <| forall_congr' fun _ => and_congr Iff.rfl <|
      and_congr Iff.rfl <| forall_congr' fun r => and_congr Iff.rfl ((k r).safe_bind f _)

theorem Prog.safe_weaken {ψ ψ' : M.G → α → Prop} (h : ∀ g a, ψ g a → ψ' g a) (p : Prog S α) :
    ∀ g, p.Safe M ψ g → p.Safe M ψ' g := by
  induction p with
  | ret a => exact fun g hp => h g a hp
  | now k ih => exact fun g hp t => ih t g (hp t)
  | emit e k ih => exact fun g hp => ⟨hp.1, ih _ hp.2⟩
  | acquire s a k ih =>
    exact fun g hp => ⟨hp.1, hp.2.1, fun d => ⟨(hp.2.2.1 d).1, ih _ _ (hp.2.2.1 d).2⟩,
      hp.2.2.2.1, ih _ _ hp.2.2.2.2⟩
  | acquiring s a t k ih =>
    exact fun g hp => ⟨hp.1, fun d => ⟨(hp.2.1 d).1, ih _ _ (hp.2.1 d).2⟩, hp.2.2.1,
      ih _ _ hp.2.2.2⟩
  | release k ih => exact fun g hp => ⟨hp.1, ih _ hp.2⟩
  | run f k ih => exact fun g hp => ⟨hp.1, hp.2.weaken fun g' x hx => ih x g' hx⟩
  | loop body i f k ih =>
    rintro g ⟨hw, I, hI, hf⟩
    have hs : ∀ g'' x, Sum.elim (I g'') (fun c => (k c).Safe M ψ g'') x →
        Sum.elim (I g'') (fun c => (k c).Safe M ψ' g'') x := by
      rintro g'' (s' | c) hx
      · exact hx
      · exact ih c g'' hx
    exact ⟨hw, I, fun g' s hs' => ⟨(hI g' s hs').1, (hI g' s hs').2.weaken hs _ _⟩,
      hf.weaken hs⟩
  | join w p r d k ih =>
    rintro g ⟨hw, hr, φ, h₁, h₂, h₃, h₄, h₅⟩
    exact ⟨hw, hr, φ, h₁, h₂, h₃, h₄, fun g' hg rs hp hrs => ih _ _ (h₅ g' hg rs hp hrs)⟩

/-- **Sequencing.** -/
theorem Prog.safe_bind {ψ : M.G → β → Prop} (f : α → Prog S β) (p : Prog S α) :
    ∀ g, (p.bind f).Safe M ψ g ↔ p.Safe M (fun g' a => (f a).Safe M ψ g') g := by
  induction p with
  | ret a => exact fun g => Iff.rfl
  | now k ih => exact fun g => forall_congr' fun t => ih t g
  | emit e k ih => exact fun g => and_congr Iff.rfl (ih _)
  | acquire s a k ih =>
    exact fun g => and_congr Iff.rfl <| and_congr Iff.rfl <| and_congr
      (forall_congr' fun d => and_congr Iff.rfl (ih _ _)) (and_congr Iff.rfl (ih _ _))
  | acquiring s a t k ih =>
    exact fun g => and_congr Iff.rfl <| and_congr
      (forall_congr' fun d => and_congr Iff.rfl (ih _ _)) (and_congr Iff.rfl (ih _ _))
  | release k ih => exact fun g => and_congr Iff.rfl (ih _)
  | run f k ih =>
    intro g
    simp only [Prog.bind, Prog.Safe, ih]
  | loop body i f k ih =>
    intro g
    simp only [Prog.bind, Prog.Safe, ih]
  | join w p r d k ih =>
    intro g
    simp only [Prog.bind, Prog.Safe, ih]

/-! Statement by statement. -/

@[simp] theorem Leaf.safe_ret (ψ : M.G → β → Prop) (b : β) (g : M.G) :
    (Leaf.ret b : Leaf S β).Safe M A ψ g ↔ ψ g b := Iff.rfl

@[simp] theorem Leaf.safe_clock (ψ : M.G → ℕ → Prop) (g : M.G) :
    (Leaf.clock : Leaf S ℕ).Safe M A ψ g ↔ ∀ t, ψ g t := Iff.rfl

@[simp] theorem Leaf.safe_log (ψ : M.G → Unit → Prop) (e : S.Log) (g : M.G) :
    (Leaf.log e).Safe M A ψ g ↔ A g (.emit e) ∧ ψ (M.next g (.emit e)) () := Iff.rfl

@[simp] theorem Prog.safe_ret (ψ : M.G → α → Prop) (a : α) (g : M.G) :
    (Prog.ret a : Prog S α).Safe M ψ g ↔ ψ g a := Iff.rfl

@[simp] theorem Prog.safe_clock (ψ : M.G → ℕ → Prop) (g : M.G) :
    (Prog.clock : Prog S ℕ).Safe M ψ g ↔ ∀ t, ψ g t := Iff.rfl

@[simp] theorem Prog.safe_log (ψ : M.G → Unit → Prop) (e : S.Log) (g : M.G) :
    (Prog.log e).Safe M ψ g ↔ M.ok g (.emit e) ∧ ψ (M.next g (.emit e)) () := Iff.rfl

attribute [simp] Leaf.safe_bind Prog.safe_bind

/-- **Waiting for one future.** -/
theorem Prog.safe_wait {ψ : M.G → γ → Prop} {l : Leaf S γ} {g : M.G} (hw : M.width g 1)
    (hl : l.Safe M M.Solo ψ g) : (Prog.wait l).Safe M ψ g :=
  ⟨hw, (Fut.safe_start _ _ _).mpr hl⟩

/-- **Loops**: an invariant of the state that the body keeps until it breaks with `ψ`. -/
theorem Prog.safe_repeat {ψ : M.G → γ → Prop} {body : σ → Leaf S (σ ⊕ γ)} {s : σ} {g : M.G}
    (I : M.G → σ → Prop) (hI : ∀ g' s', I g' s' → M.width g' 1 ∧
      (body s').Safe M M.Solo (fun g'' => Sum.elim (I g'') (ψ g'')) g') (h₀ : I g s) :
    (Prog.repeat body s).Safe M ψ g :=
  ⟨(hI g s h₀).1, I, hI, (Fut.safe_start _ _ _).mpr (hI g s h₀).2⟩

/-- **Bounded unordered streams**: the results are those of the futures, each once, in some order. -/
theorem Prog.safe_bufferUnordered {ψ : M.G → List β → Prop} {w : ℕ} {ls : List (Leaf S β)}
    {g : M.G} (hw : M.width g w) (φ : ℕ → M.G → β → Prop) (hφ : ∀ j, M.Stable (φ j))
    (hl : ∀ (j : ℕ) (l : Leaf S β), ls[j]? = some l → l.Safe M M.Fine (φ j) g)
    (hk : ∀ g', M.le g g' → ∀ rs : List (ℕ × β),
      (rs.map Prod.fst).Perm (List.range ls.length) → (∀ x ∈ rs, φ x.1 g' x.2) →
      ψ g' (rs.map Prod.snd)) : (Prog.bufferUnordered w ls).Safe M ψ g := by
  refine ⟨hw, Nat.zero_le _, φ, hφ, fun x hx => ?_, by simp, by simp, fun g' hg rs hp hrs => ?_⟩
  · obtain ⟨j, hj, hl'⟩ := mem_number hx
    rw [Nat.zero_add] at hj
    exact hj ▸ hl j x.2 hl'
  · refine hk g' hg rs ?_ hrs
    simpa [number_fst, List.range_eq_range'] using hp

/-! ## Steps keep programs safe -/

theorem Fut.Safe.step {ψ : M.G → β → Prop} {t n : ℕ} {f f' : Fut S β} {e : Option (Ev S)}
    {g : M.G} (hf : f.Safe M A ψ g) (hs : Fut.Step t n f e f') :
    (∀ x ∈ e, A g x) ∧ f'.Safe M A ψ (M.after g e) := by
  cases hs with
  | now =>
    rw [Fut.safe_start] at hf
    exact ⟨by simp, by simpa [Monitor.after] using hf t⟩
  | emit =>
    rw [Fut.safe_start] at hf
    exact ⟨by simpa using hf.1, by simpa [Monitor.after] using hf.2⟩
  | ask =>
    rw [Fut.safe_start] at hf
    exact ⟨by simpa using (hf.2 n).1, by simpa [Monitor.after] using (hf.2 n).2⟩
  | answer r =>
    rw [Fut.safe_asked] at hf
    exact ⟨by simpa using (hf.2 r).1, by simpa [Monitor.after] using (hf.2 r).2⟩

theorem Monitor.le_after {g : M.G} {e : Option (Ev S)} (h : ∀ x ∈ e, M.Fine g x) :
    M.le g (M.after g e) := by
  cases e with
  | none => exact M.refl g
  | some x => exact (h x rfl).2

theorem Monitor.width_after {g : M.G} {e : Option (Ev S)} (hw : M.width g 1)
    (h : ∀ x ∈ e, M.Solo g x) : M.width (M.after g e) 1 := by
  cases e with
  | none => exact hw
  | some x => exact (h x rfl).2

/-- **A step of a safe program is allowed and leaves it safe.** -/
theorem Prog.Safe.step {ψ : M.G → α → Prop} {t n : ℕ} {p p' : Prog S α} {e : Option (Ev S)}
    {g : M.G} (hp : p.Safe M ψ g) (hs : Prog.Step t n p e p') :
    (∀ x ∈ e, M.ok g x) ∧ p'.Safe M ψ (M.after g e) := by
  cases hs with
  | now => exact ⟨by simp, hp t⟩
  | emit => exact ⟨by simpa using hp.1, hp.2⟩
  | want => exact ⟨by simpa using hp.1, hp.2⟩
  | got => exact ⟨by simpa using (hp.2.1 _).1, (hp.2.1 _).2⟩
  | lost => exact ⟨by simpa using hp.2.2.1, hp.2.2.2⟩
  | freed => exact ⟨by simpa using hp.1, hp.2⟩
  | run h =>
    obtain ⟨h₁, h₂⟩ := Fut.Safe.step hp.2 h
    exact ⟨fun x hx => (h₁ x hx).1, Monitor.width_after hp.1 h₁, h₂⟩
  | ran =>
    have := hp.2
    rw [Fut.safe_start] at this
    exact ⟨by simp, this⟩
  | loop h =>
    obtain ⟨hw, I, hI, hf⟩ := hp
    obtain ⟨h₁, h₂⟩ := hf.step h
    exact ⟨fun x hx => (h₁ x hx).1, Monitor.width_after hw h₁, I, hI, h₂⟩
  | again =>
    obtain ⟨hw, I, hI, hf⟩ := hp
    rw [Fut.safe_start] at hf
    exact ⟨by simp, (hI _ _ hf).1, I, hI, by simpa [Monitor.after] using (hI _ _ hf).2⟩
  | leave =>
    obtain ⟨hw, I, hI, hf⟩ := hp
    rw [Fut.safe_start] at hf
    exact ⟨by simp, hf⟩
  | start hr =>
    obtain ⟨hw, -, φ, h₁, h₂, h₃, h₄, h₅⟩ := hp
    refine ⟨by simp, hw, by simpa [Nat.succ_le_iff] using hr, φ, h₁,
      fun x hx => h₂ x (List.mem_cons_of_mem _ hx),
      fun x hx => ?_, h₄, fun g' hg rs hp hrs => h₅ g' hg rs (hp.trans ?_) hrs⟩
    · rcases List.mem_append.mp hx with hx | hx
      · exact h₃ x hx
      · rw [List.mem_singleton] at hx
        subst hx
        simpa [Monitor.after] using h₂ _ List.mem_cons_self
    · simp
  | join h =>
    obtain ⟨hw, hr, φ, h₁, h₂, h₃, h₄, h₅⟩ := hp
    obtain ⟨he, hf⟩ := (h₃ _ (List.mem_append_right _ List.mem_cons_self)).step h
    have hg := Monitor.le_after he
    refine ⟨fun x hx => (he x hx).1, M.width_mono hg hw, by simpa using hr, φ, h₁,
      fun x hx => Leaf.Safe.mono (h₁ _) _ hg (h₂ x hx), fun x hx => ?_,
      fun x hx => h₁ _ _ _ _ hg (h₄ x hx),
      fun g' hg' rs hp hrs => h₅ g' (M.trans hg hg') rs (by simpa using hp) hrs⟩
    rcases List.mem_append.mp hx with hx | hx
    · exact (h₃ x (by simp [hx])).mono (h₁ _) hg
    · rcases List.mem_cons.mp hx with rfl | hx
      · exact hf
      · exact (h₃ x (by simp [hx])).mono (h₁ _) hg
  | finish =>
    obtain ⟨hw, hr, φ, h₁, h₂, h₃, h₄, h₅⟩ := hp
    refine ⟨by simp, hw, ?_, φ, h₁, h₂, fun x hx => h₃ x ?_, fun x hx => ?_,
      fun g' hg rs hp hrs => h₅ g' hg rs (hp.trans ?_) hrs⟩
    · simp only [List.length_append, List.length_cons] at hr ⊢
      omega
    · simp only [List.mem_append, List.mem_cons] at hx ⊢
      tauto
    · rcases List.mem_append.mp hx with hx | hx
      · exact h₄ x hx
      · rw [List.mem_singleton] at hx
        subst hx
        exact (Fut.safe_start _ _ _).mp (h₃ _ (List.mem_append_right _ List.mem_cons_self))
    · simp only [List.map_append, List.map_cons, List.map_nil, List.append_assoc]
      refine List.Perm.append_left _ ?_
      simpa using List.perm_middle.symm
  | collect =>
    obtain ⟨-, -, φ, -, -, -, h₄, h₅⟩ := hp
    exact ⟨by simp, h₅ _ (M.refl _) _ (by simp) h₄⟩

theorem Prog.Safe.width {ψ : M.G → α → Prop} {p : Prog S α} {g : M.G} (hp : p.Safe M ψ g)
    (hf : p.inFlight ≠ 0) : ∃ w, p.inFlight ≤ w ∧ M.width g w := by
  cases p with
  | run f k => exact ⟨1, le_rfl, hp.1⟩
  | loop body i f k => exact ⟨1, le_rfl, hp.1⟩
  | join w p r d k => exact ⟨w, hp.2.1, hp.1⟩
  | _ => exact absurd rfl hf

/-- **A program suspended on its futures is where the monitor allows a pause.** -/
theorem Prog.Safe.pause {ψ : M.G → α → Prop} {p : Prog S α} {g : M.G} (hp : p.Safe M ψ g)
    (hs : p.Suspended) : M.pause g := by
  have key : ∀ {β : Type} {A : M.G → Ev S → Prop} {φ : M.G → β → Prop} {f : Fut S β}, f.tok.isSome →
      f.Safe M A φ g → M.pause g := by
    rintro β A φ ⟨code, tok⟩ ht hf
    obtain ⟨n, rfl⟩ := Option.isSome_iff_exists.mp ht
    cases code with
    | ask q k => exact ((Fut.safe_asked _ _ _ _ _).mp hf).1
    | _ => exact hf.elim
  cases p with
  | run f k => exact key hs hp.2
  | loop body i f k =>
    obtain ⟨-, I, -, hf⟩ := hp
    exact key hs hf
  | join w p r d k =>
    obtain ⟨hr, ht, -⟩ := hs
    obtain ⟨x, hx⟩ := List.exists_mem_of_ne_nil r hr
    obtain ⟨-, -, φ, -, -, h₃, -⟩ := hp
    exact key (ht x hx) (h₃ x hx)
  | _ => exact hs.elim

end Async
