import S3o.Async.Monitor

/-!
# A default schedule

A program that has not returned can go on: `Prog.next` computes one step of it, with the answers of an
oracle, starting the futures of a stream as soon as there is room and finishing the oldest first.

* `Fut.next`, `oldest`, `Prog.next`;
* `Prog.next_step`, `Prog.next_answer`: what is computed is a step, and its answer the oracle's;
* `Heeded`, `Prog.next_heeds`: a service that answers as the oracle and grants every acquisition;
* **`Prog.next_isSome`**: a safe program that has not returned has a next step;
* `Prog.Step.other`: an answer can be another.
-/

namespace Async

variable {S : Sig} {α β : Type}

/-- The next step of a future at time `t`; `o` answers questions by their number, `n` is the number of
the next one. -/
def Fut.next (o : ℕ → ∀ q, S.Ans q) (t n : ℕ) (f : Fut S β) : Option (Option (Ev S) × Fut S β) :=
  match f.code, f.tok with
  | .now k, none => some (none, ⟨k t, none⟩)
  | .emit e k, none => some (some (.emit e), ⟨k, none⟩)
  | .ask q k, none => some (some (.sent n q), ⟨.ask q k, some n⟩)
  | .ask q k, some m => some (some (.answered m q (o m q)), ⟨k (o m q), none⟩)
  | _, _ => none

/-- The result of a future that has returned. -/
def Fut.result (f : Fut S β) : Option β :=
  match f.code, f.tok with
  | .ret b, none => some b
  | _, _ => none

/-- A stream goes on with its oldest future. -/
def oldest (o : ℕ → ∀ q, S.Ans q) (t n w : ℕ) (pd : List (ℕ × Leaf S β)) (r : List (ℕ × Fut S β))
    (d : List (ℕ × β)) (k : List β → Prog S α) : Option (Option (Ev S) × Prog S α) :=
  match r with
  | [] => none
  | (i, f) :: r => match f.result with
    | some b => some (none, .join w pd r (d ++ [(i, b)]) k)
    | none => (f.next o t n).map fun x => (x.1, .join w pd ((i, x.2) :: r) d k)

/-- **The next step of a program** at time `t`; `granted` says how a wait for permits ends. -/
def Prog.next (o : ℕ → ∀ q, S.Ans q) (t n : ℕ) (granted : Bool) :
    Prog S α → Option (Option (Ev S) × Prog S α)
  | .ret _ => none
  | .now k => some (none, k t)
  | .emit e k => some (some (.emit e), k)
  | .acquire h a k => some (some (.want h a), .acquiring h a t k)
  | .acquiring h a s k =>
    if granted then some (some (.got h a (t - s)), k (some (t - s))) else some (some (.lost h a), k none)
  | .release k => some (some .freed, k)
  | .run f k => match f.result with
    | some x => some (none, k x)
    | none => (f.next o t n).map fun x => (x.1, .run x.2 k)
  | .loop body i f k => match f.result with
    | some (.inl s) => some (none, .loop body (i + 1) ⟨body s, none⟩ k)
    | some (.inr x) => some (none, k x)
    | none => (f.next o t n).map fun x => (x.1, .loop body i x.2 k)
  | .join _ [] [] d k => some (none, k (d.map Prod.snd))
  | .join w [] (x :: r) d k => oldest o t n w [] (x :: r) d k
  | .join w ((j, l) :: pd) r d k =>
    if r.length < w then some (none, .join w pd (r ++ [(j, ⟨l, none⟩)]) d k)
    else oldest o t n w ((j, l) :: pd) r d k

theorem Fut.result_eq {f : Fut S β} {b : β} (h : f.result = some b) : f = ⟨.ret b, none⟩ := by
  obtain ⟨code, tok⟩ := f
  cases code <;> cases tok <;> simp [Fut.result] at h ⊢
  exact h

theorem Fut.next_step {o : ℕ → ∀ q, S.Ans q} {t n : ℕ} {f f' : Fut S β} {e : Option (Ev S)}
    (h : f.next o t n = some (e, f')) : Fut.Step t n f e f' := by
  obtain ⟨code, tok⟩ := f
  cases code <;> cases tok <;> simp only [Fut.next, Option.some.injEq, Prod.mk.injEq, reduceCtorEq] at h
  all_goals
    obtain ⟨rfl, rfl⟩ := h
    constructor

theorem oldest_step {o : ℕ → ∀ q, S.Ans q} {t n w : ℕ} {pd : List (ℕ × Leaf S β)}
    {r : List (ℕ × Fut S β)} {d : List (ℕ × β)} {k : List β → Prog S α} {p' : Prog S α}
    {e : Option (Ev S)} (h : oldest o t n w pd r d k = some (e, p')) :
    Prog.Step t n (.join w pd r d k) e p' := by
  cases r with
  | nil => cases h
  | cons x r =>
    obtain ⟨i, f⟩ := x
    rw [oldest] at h
    cases hr : f.result with
    | some b =>
      rw [hr] at h
      cases h
      rw [Fut.result_eq hr]
      show Prog.Step t n (.join w pd ([] ++ (i, ⟨.ret b, none⟩) :: r) d k) none _
      exact .finish
    | none =>
      rw [hr] at h
      obtain ⟨⟨e', f'⟩, hf, heq⟩ := Option.map_eq_some_iff.mp h
      cases heq
      show Prog.Step t n (.join w pd ([] ++ (i, f) :: r) d k) e' _
      exact .join (Fut.next_step hf)

/-- **What is computed is a step.** -/
theorem Prog.next_step {o : ℕ → ∀ q, S.Ans q} {t n : ℕ} {granted : Bool} {p p' : Prog S α}
    {e : Option (Ev S)} (h : p.next o t n granted = some (e, p')) : Prog.Step t n p e p' := by
  cases p with
  | ret a => cases h
  | now k => cases h; exact .now
  | emit m k => cases h; exact .emit
  | acquire s a k => cases h; exact .want
  | acquiring s a since k =>
    cases granted with
    | true => cases h; exact .got
    | false => cases h; exact .lost
  | release k => cases h; exact .freed
  | run f k =>
    rw [Prog.next] at h
    cases hr : f.result with
    | some x =>
      rw [hr] at h
      cases h
      rw [Fut.result_eq hr]
      exact .ran
    | none =>
      rw [hr] at h
      obtain ⟨⟨e', f'⟩, hf, heq⟩ := Option.map_eq_some_iff.mp h
      cases heq
      exact .run (Fut.next_step hf)
  | loop body i f k =>
    rw [Prog.next] at h
    cases hr : f.result with
    | some x =>
      rw [hr] at h
      rw [Fut.result_eq hr]
      cases x with
      | inl s => cases h; exact .again
      | inr c => cases h; exact .leave
    | none =>
      rw [hr] at h
      obtain ⟨⟨e', f'⟩, hf, heq⟩ := Option.map_eq_some_iff.mp h
      cases heq
      exact .loop (Fut.next_step hf)
  | join w pd r d k =>
    cases pd with
    | nil =>
      cases r with
      | nil => cases h; exact .collect
      | cons x r => exact oldest_step h
    | cons x pd =>
      rw [Prog.next] at h
      split_ifs at h with hw
      · cases h
        exact .start hw
      · exact oldest_step h

theorem Fut.next_answer {o : ℕ → ∀ q, S.Ans q} {t n m : ℕ} {f : Fut S β} {y : Option (Ev S) × Fut S β}
    {q : S.Ask} {r : S.Ans q} (h : f.next o t n = some y) (hy : y.1 = some (.answered m q r)) :
    r = o m q := by
  obtain ⟨code, tok⟩ := f
  cases code <;> cases tok <;> cases h <;> cases hy
  rfl

theorem oldest_answer {o : ℕ → ∀ q, S.Ans q} {t n w m : ℕ} {pd : List (ℕ × Leaf S β)}
    {r : List (ℕ × Fut S β)} {d : List (ℕ × β)} {k : List β → Prog S α} {y : Option (Ev S) × Prog S α}
    {q : S.Ask} {x : S.Ans q} (h : oldest o t n w pd r d k = some y)
    (hy : y.1 = some (.answered m q x)) : x = o m q := by
  cases r with
  | nil => cases h
  | cons z r =>
    obtain ⟨i, f⟩ := z
    rw [oldest] at h
    cases hr : f.result with
    | some b =>
      rw [hr] at h
      cases h
      cases hy
    | none =>
      rw [hr] at h
      obtain ⟨z, hz, rfl⟩ := Option.map_eq_some_iff.mp h
      exact Fut.next_answer hz hy

/-- **An answer that a step brings is the one of the oracle.** -/
theorem Prog.next_answer {o : ℕ → ∀ q, S.Ans q} {t n m : ℕ} {granted : Bool} {p : Prog S α}
    {y : Option (Ev S) × Prog S α} {q : S.Ask} {r : S.Ans q} (h : p.next o t n granted = some y)
    (hy : y.1 = some (.answered m q r)) : r = o m q := by
  cases p with
  | ret a => cases h
  | acquiring s a since k => cases granted <;> cases h <;> cases hy
  | run f k =>
    rw [Prog.next] at h
    cases hr : f.result with
    | some x =>
      rw [hr] at h
      cases h
      cases hy
    | none =>
      rw [hr] at h
      obtain ⟨z, hz, rfl⟩ := Option.map_eq_some_iff.mp h
      exact Fut.next_answer hz hy
  | loop body i f k =>
    rw [Prog.next] at h
    cases hr : f.result with
    | some x =>
      rw [hr] at h
      cases x <;> cases h <;> cases hy
    | none =>
      rw [hr] at h
      obtain ⟨z, hz, rfl⟩ := Option.map_eq_some_iff.mp h
      exact Fut.next_answer hz hy
  | join w pd r d k =>
    cases pd with
    | nil =>
      cases r with
      | nil =>
        cases h
        cases hy
      | cons x r =>
        rw [Prog.next] at h
        exact oldest_answer h hy
    | cons x pd =>
      rw [Prog.next] at h
      split_ifs at h with hw
      · cases h
        cases hy
      · exact oldest_answer h hy
  | _ =>
    cases h
    cases hy

/-- **The event heeds the answers `o`**: an answer is theirs, and no acquisition is lost. -/
def Ev.Heeds (o : ∀ q, S.Ans q) : Ev S → Prop
  | .answered _ q r => r = o q
  | .lost .. => False
  | _ => True

/-- All of the events do. -/
def Heeded (o : ∀ q, S.Ans q) (es : List (Ev S)) : Prop := ∀ e ∈ es, e.Heeds o

theorem Prog.next_heeds {o : ∀ q, S.Ans q} {t n : ℕ} {p p' : Prog S α} {e : Option (Ev S)} {x : Ev S}
    (h : p.next (fun _ => o) t n true = some (e, p')) (hx : e = some x) : x.Heeds o := by
  cases x with
  | answered m q r => exact Prog.next_answer h hx
  | lost s a =>
    subst hx
    cases Prog.next_step h with
    | lost => cases h
    | run hf => cases hf
    | loop hf => cases hf
    | join hf => cases hf
  | _ => trivial

variable {M : Monitor S} {A : M.G → Ev S → Prop} {g : M.G}

theorem Fut.next_isSome (o : ℕ → ∀ q, S.Ans q) (t n : ℕ) {ψ : M.G → β → Prop} {f : Fut S β}
    (h : f.Safe M A ψ g) (hr : f.result = none) : (f.next o t n).isSome := by
  obtain ⟨code, tok⟩ := f
  cases code <;> cases tok <;> first | rfl | exact h.elim | cases hr

theorem oldest_isSome (o : ℕ → ∀ q, S.Ans q) (t n w : ℕ) (pd : List (ℕ × Leaf S β))
    {r : List (ℕ × Fut S β)} (d : List (ℕ × β)) (k : List β → Prog S α) {φ : ℕ → M.G → β → Prop}
    (hne : r ≠ []) (h : ∀ x ∈ r, x.2.Safe M A (φ x.1) g) : (oldest o t n w pd r d k).isSome := by
  cases r with
  | nil => exact absurd rfl hne
  | cons x r =>
    obtain ⟨i, f⟩ := x
    rw [oldest]
    cases hr : f.result with
    | some b => rfl
    | none =>
      rw [Option.isSome_map]
      exact Fut.next_isSome o t n (h _ List.mem_cons_self) hr

/-- **A safe program that has not returned has a next step**, if its streams have some width. -/
theorem Prog.next_isSome (o : ℕ → ∀ q, S.Ans q) (t n : ℕ) (granted : Bool) {ψ : M.G → α → Prop}
    {p : Prog S α} (h : p.Safe M ψ g) (hw : ∀ w, M.width g w → 0 < w) (hp : ∀ a, p ≠ .ret a) :
    (p.next o t n granted).isSome := by
  cases p with
  | ret a => exact absurd rfl (hp a)
  | acquiring s a since k => cases granted <;> rfl
  | run f k =>
    rw [Prog.next]
    cases hr : f.result with
    | some x => rfl
    | none =>
      rw [Option.isSome_map]
      exact Fut.next_isSome o t n h.2 hr
  | loop body i f k =>
    rw [Prog.next]
    cases hr : f.result with
    | some x => cases x <;> rfl
    | none =>
      obtain ⟨-, I, -, hf⟩ := h
      rw [Option.isSome_map]
      exact Fut.next_isSome o t n hf hr
  | join w pd r d k =>
    obtain ⟨hwd, -, φ, -, -, hr, -⟩ := h
    cases pd with
    | nil =>
      cases r with
      | nil => rfl
      | cons x r => exact oldest_isSome o t n w [] d k (List.cons_ne_nil _ _) hr
    | cons x pd =>
      rw [Prog.next]
      split_ifs with hlt
      · rfl
      · refine oldest_isSome o t n w _ d k ?_ hr
        rintro rfl
        exact hlt (hw w hwd)
  | _ => rfl

/-! ## Other answers -/

theorem Fut.Step.other {t n m : ℕ} {f f' : Fut S β} {q : S.Ask} {r : S.Ans q}
    (h : Fut.Step t n f (some (.answered m q r)) f') (r' : S.Ans q) :
    ∃ f'', Fut.Step t n f (some (.answered m q r')) f'' := by
  cases h with
  | answer => exact ⟨_, .answer r'⟩

/-- A program that goes on with an answer goes on with any other. -/
theorem Prog.Step.other {t n m : ℕ} {p p' : Prog S α} {q : S.Ask} {r : S.Ans q}
    (h : Prog.Step t n p (some (.answered m q r)) p') (r' : S.Ans q) :
    ∃ p'', Prog.Step t n p (some (.answered m q r')) p'' := by
  cases h with
  | run h =>
    obtain ⟨f, hf⟩ := h.other r'
    exact ⟨_, .run hf⟩
  | loop h =>
    obtain ⟨f, hf⟩ := h.other r'
    exact ⟨_, .loop hf⟩
  | join h =>
    obtain ⟨f, hf⟩ := h.other r'
    exact ⟨_, .join hf⟩

end Async
