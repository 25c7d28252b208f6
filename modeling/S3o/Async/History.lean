import S3o.Async.Prog
import S3o.Lts.Log

/-!
# Histories

A run of a program writes a history: its events, its reads of the clock and the orders in which its
streams have completed, each with its instant, newest first. `Prog.Spec` says that a watch on the
history holds in every run, and what the result and the whole history are when the program returns.

* `Note`, `History`, `Prog.Runs`: what a run writes;
* `Watch`, `Prog.Spec`, `Leaf.Spec`: what is to hold;
* `Leaf.spec_bind`, **`Prog.spec_bind`** and the rules for each statement;
* **`Prog.spec_repeat`**: a loop, by an invariant of its turns.
-/

namespace Async

open Lts

variable {S : Sig} {α β γ σ : Type}

variable (S) in
/-- What a program does at an instant: it reads the clock, causes an event, or collects the results of
a stream that has completed in the order `js`. The reads of its futures are left out. -/
inductive Note : Type
  | read
  | event (e : Ev S)
  | order (js : List ℕ)

variable (S) in
/-- The notes of a run with their instants, newest first. -/
abbrev History : Type := List (ℕ × Note S)

/-- A note at instant `t`. -/
def stamp (t : ℕ) (x : Option (Note S)) : History S := x.toList.map (Prod.mk t)

/-- The note of a step of `p` with the event `e`. -/
def Prog.note (p : Prog S α) (e : Option (Ev S)) : Option (Note S) :=
  match e, p with
  | some e, _ => some (.event e)
  | none, .now _ => some .read
  | none, .join _ [] [] d _ => some (.order (d.map Prod.fst))
  | none, _ => none

/-- A step of a future and what it writes. -/
def Fut.Noted (f : Fut S β) (x : History S) (f' : Fut S β) : Prop :=
  ∃ t n e, Fut.Step t n f e f' ∧ x = stamp t (e.map .event)

/-- A step of a program and what it writes. -/
def Prog.Noted (p : Prog S α) (x : History S) (p' : Prog S α) : Prop :=
  ∃ t n e, Prog.Step t n p e p' ∧ x = stamp t (p.note e)

/-- **The program has a run with this history** that leads to `q`. -/
abbrev Prog.Runs (p : Prog S α) (τ : History S) (q : Prog S α) : Prop := Logs Prog.Noted p τ q

/-- The events of a history. -/
def History.events (τ : History S) : List (Ev S) :=
  τ.filterMap fun
    | (_, .event e) => some e
    | _ => none

@[simp] theorem stamp_none (t : ℕ) : stamp (S := S) t none = [] := rfl

@[simp] theorem stamp_some (t : ℕ) (x : Note S) : stamp t (some x) = [(t, x)] := rfl

/-! ## Watches -/

variable (S) in
/-- **What is to hold of a history**: always, where the program is suspended, and in the later turns of its
loops. -/
structure Watch where
  always : History S → Prop
  paused : History S → Prop
  turn : ℕ → History S → Prop

/-- A watch on the history alone. -/
@[reducible] def Watch.of (A : History S → Prop) : Watch S := ⟨A, fun _ => True, fun _ _ => True⟩

/-- The program is suspended: on its futures, or waiting for permits. -/
def Prog.Paused : Prog S α → Prop
  | .acquiring _ _ _ _ => True
  | p => p.Suspended

/-- The turn of the loop that a program is in, from the second on. -/
def Prog.Turns (p : Prog S α) (i : ℕ) : Prop :=
  match p with
  | .loop _ j _ _ => j = i ∧ i ≠ 0
  | _ => False

/-- What a watch says of a future, and `φ` of its result. -/
structure Fut.Meets (A : Watch S) (φ : β → History S → Prop) (τ : History S) (f : Fut S β) : Prop where
  always : A.always τ
  paused : f.tok.isSome → A.paused τ
  result : ∀ b, f = ⟨.ret b, none⟩ → φ b τ

/-- What a watch says of a program, and `ψ` of its result. -/
structure Prog.Meets (W : Watch S) (ψ : α → History S → Prop) (τ : History S) (p : Prog S α) : Prop where
  always : W.always τ
  paused : p.Paused → W.paused τ
  turn : ∀ i, p.Turns i → W.turn i τ
  result : ∀ a, p = .ret a → ψ a τ

/-- **A future keeps its watch**, from the history `τ` on, and its result satisfies `φ`. -/
def Fut.Spec (A : Watch S) (φ : β → History S → Prop) (f : Fut S β) (τ : History S) : Prop :=
  Throughout Fut.Noted (Fut.Meets A φ) f τ

/-- The code of a future that has not started. -/
def Leaf.Spec (A : Watch S) (φ : β → History S → Prop) (l : Leaf S β) (τ : History S) : Prop :=
  Fut.Spec A φ ⟨l, none⟩ τ

/-- **A program keeps its watch**, from the history `τ` on, and its result satisfies `ψ`. -/
def Prog.Spec (W : Watch S) (ψ : α → History S → Prop) (p : Prog S α) (τ : History S) : Prop :=
  Throughout Prog.Noted (Prog.Meets W ψ) p τ

section

variable {A : Watch S} {φ φ' : β → History S → Prop} {τ : History S}

theorem Fut.Spec.always {f : Fut S β} (h : f.Spec A φ τ) : A.always τ := (throughout_iff.mp h).1.always

theorem Leaf.Spec.always {l : Leaf S β} (h : l.Spec A φ τ) : A.always τ := Fut.Spec.always h

theorem Fut.Spec.step {f f' : Fut S β} {x : History S} (h : f.Spec A φ τ) (hs : f.Noted x f') :
    f'.Spec A φ (x ++ τ) := (throughout_iff.mp h).2 x f' hs

theorem Fut.Spec.weaken {f : Fut S β} (h : f.Spec A φ τ) (hφ : ∀ b τ, A.always τ → φ b τ → φ' b τ) :
    f.Spec A φ' τ :=
  Throughout.imp h fun τ _ h => ⟨h.always, h.paused, fun b hb => hφ b τ h.always (h.result b hb)⟩

theorem Fut.spec_ret (b : β) : Fut.Spec A φ ⟨.ret b, none⟩ τ ↔ A.always τ ∧ φ b τ := by
  refine throughout_iff.trans ⟨fun h => ⟨h.1.always, h.1.result b rfl⟩, fun h => ⟨⟨h.1, ?_, ?_⟩, ?_⟩⟩
  · rintro ⟨⟩
  · rintro b' ⟨⟩
    exact h.2
  · rintro x f' ⟨t, n, e, hs, -⟩
    cases hs

end

/-! ## Rules for futures -/

section

variable {A : Watch S} {φ : β → History S → Prop} {τ : History S}

@[simp] theorem Leaf.spec_ret (b : β) : (Leaf.ret b : Leaf S β).Spec A φ τ ↔ A.always τ ∧ φ b τ :=
  Fut.spec_ret b

theorem Leaf.spec_now (k : ℕ → Leaf S β) :
    (Leaf.now k).Spec A φ τ ↔ ∀ t, (k t).Spec A φ τ := by
  refine throughout_iff.trans ⟨fun h t => ?_, fun h => ⟨⟨(h 0).always, ?_, ?_⟩, ?_⟩⟩
  · exact h.2 [] _ ⟨t, 0, none, .now, rfl⟩
  · rintro ⟨⟩
  · rintro b ⟨⟩
  · rintro x f' ⟨t, n, e, hs, rfl⟩
    cases hs
    exact h t

theorem Leaf.spec_emit (e : S.Log) (k : Leaf S β) : (Leaf.emit e k).Spec A φ τ ↔
    A.always τ ∧ ∀ t, k.Spec A φ ((t, .event (.emit e)) :: τ) := by
  refine throughout_iff.trans ⟨fun h => ⟨h.1.always, fun t => ?_⟩, fun h => ⟨⟨h.1, ?_, ?_⟩, ?_⟩⟩
  · exact h.2 [_] _ ⟨t, 0, _, .emit, rfl⟩
  · rintro ⟨⟩
  · rintro b ⟨⟩
  · rintro x f' ⟨t, n, e, hs, rfl⟩
    cases hs
    exact h.2 t

theorem Fut.spec_asked (m : ℕ) (q : S.Ask) (k : S.Ans q → Leaf S β) :
    Fut.Spec A φ ⟨.ask q k, some m⟩ τ ↔ A.always τ ∧ A.paused τ ∧
      ∀ t r, (k r).Spec A φ ((t, .event (.answered m q r)) :: τ) := by
  refine throughout_iff.trans ⟨fun h => ⟨h.1.always, h.1.paused rfl, fun t r => ?_⟩,
    fun h => ⟨⟨h.1, fun _ => h.2.1, ?_⟩, ?_⟩⟩
  · exact h.2 [_] _ ⟨t, 0, _, .answer r, rfl⟩
  · rintro b ⟨⟩
  · rintro x f' ⟨t, n, e, hs, rfl⟩
    cases hs with
    | answer r => exact h.2.2 t r

theorem Leaf.spec_ask (q : S.Ask) (k : S.Ans q → Leaf S β) : (Leaf.ask q k).Spec A φ τ ↔
    A.always τ ∧ ∀ s n, A.always ((s, .event (.sent n q)) :: τ) ∧ A.paused ((s, .event (.sent n q)) :: τ) ∧
      ∀ t r, (k r).Spec A φ ((t, .event (.answered n q r)) :: (s, .event (.sent n q)) :: τ) := by
  refine throughout_iff.trans ⟨fun h => ⟨h.1.always, fun s n => ?_⟩, fun h => ⟨⟨h.1, ?_, ?_⟩, ?_⟩⟩
  · exact (Fut.spec_asked n q k).mp (h.2 [_] _ ⟨s, n, _, .ask, rfl⟩)
  · rintro ⟨⟩
  · rintro b ⟨⟩
  · rintro x f' ⟨t, n, e, hs, rfl⟩
    cases hs
    exact (Fut.spec_asked n q k).mpr (h.2 t n)

/-- **Sequencing of futures.** -/
theorem Leaf.spec_bind {φ : γ → History S → Prop} (f : β → Leaf S γ) (l : Leaf S β) : ∀ τ,
    (l.bind f).Spec A φ τ ↔ l.Spec A (fun b τ' => (f b).Spec A φ τ') τ := by
  induction l with
  | ret b =>
    intro τ
    rw [Leaf.spec_ret]
    exact ⟨fun h => ⟨h.always, h⟩, fun h => h.2⟩
  | now k ih =>
    intro τ
    rw [Leaf.spec_now]
    exact (Leaf.spec_now _).trans (forall_congr' fun t => ih t τ)
  | emit e k ih =>
    intro τ
    rw [Leaf.spec_emit]
    exact (Leaf.spec_emit _ _).trans (and_congr Iff.rfl (forall_congr' fun t => ih _))
  | ask q k ih =>
    intro τ
    rw [Leaf.spec_ask]
    exact (Leaf.spec_ask _ _).trans (and_congr Iff.rfl <| forall_congr' fun s => forall_congr' fun n =>
      and_congr Iff.rfl <| and_congr Iff.rfl <| forall_congr' fun t => forall_congr' fun r => ih r _)

@[simp] theorem Leaf.spec_clock {φ : ℕ → History S → Prop} :
    (Leaf.clock : Leaf S ℕ).Spec A φ τ ↔ A.always τ ∧ ∀ t, φ t τ := by
  unfold Leaf.clock
  rw [Leaf.spec_now]
  simp only [Leaf.spec_ret]
  exact ⟨fun h => ⟨(h 0).1, fun t => (h t).2⟩, fun h t => ⟨h.1, h.2 t⟩⟩

@[simp] theorem Leaf.spec_log {φ : Unit → History S → Prop} (e : S.Log) :
    (Leaf.log e).Spec A φ τ ↔ A.always τ ∧ ∀ t, A.always ((t, .event (.emit e)) :: τ) ∧
      φ () ((t, .event (.emit e)) :: τ) := by
  unfold Leaf.log
  simp only [Leaf.spec_emit, Leaf.spec_ret]

attribute [simp] Leaf.spec_bind

end

/-! ## Rules for programs -/

section

variable {W : Watch S} {ψ ψ' : α → History S → Prop} {τ : History S}

theorem Prog.Spec.always {p : Prog S α} (h : p.Spec W ψ τ) : W.always τ := (throughout_iff.mp h).1.always

theorem Prog.Spec.weaken {p : Prog S α} (h : p.Spec W ψ τ) (hψ : ∀ a τ, W.always τ → ψ a τ → ψ' a τ) :
    p.Spec W ψ' τ :=
  Throughout.imp h fun τ _ h =>
    ⟨h.always, h.paused, h.turn, fun a ha => hψ a τ h.always (h.result a ha)⟩

/-- **The history only grows.** -/
theorem Prog.Spec.grows {p : Prog S α} (h : p.Spec W ψ τ) :
    p.Spec W (fun a τ' => ψ a τ' ∧ τ <:+ τ') τ := by
  intro x q hr
  obtain ⟨halways, hpaused, hturn, hresult⟩ := h x q hr
  exact ⟨halways, hpaused, hturn, fun a ha => ⟨hresult a ha, List.suffix_append x τ⟩⟩

/-- What holds of the result for every choice holds for all at once. -/
theorem Prog.Spec.forall {γ : Type*} [Nonempty γ] {ψ : γ → α → History S → Prop} {p : Prog S α}
    (h : ∀ c, p.Spec W (ψ c) τ) : p.Spec W (fun a τ' => ∀ c, ψ c a τ') τ := by
  intro x q hr
  obtain ⟨halways, hpaused, hturn, -⟩ := h (Classical.arbitrary γ) x q hr
  exact ⟨halways, hpaused, hturn, fun a ha c => (h c x q hr).result a ha⟩

theorem Prog.Spec.and {p : Prog S α} (h : p.Spec W ψ τ) (h' : p.Spec W ψ' τ) :
    p.Spec W (fun a τ' => ψ a τ' ∧ ψ' a τ') τ := by
  intro x q hr
  obtain ⟨halways, hpaused, hturn, hresult⟩ := h x q hr
  exact ⟨halways, hpaused, hturn, fun a ha => ⟨hresult a ha, (h' x q hr).result a ha⟩⟩

theorem Prog.Spec.run {p q : Prog S α} {τ' : History S} (h : p.Spec W ψ τ) (hr : p.Runs τ' q) :
    q.Meets W ψ (τ' ++ τ) := h _ _ hr

/-- A program that is neither suspended nor in a loop nor at its end. -/
theorem Prog.spec_iff {p : Prog S α} (hp : ¬ p.Paused) (ht : ∀ i, ¬ p.Turns i) (hr : ∀ a, p ≠ .ret a) :
    p.Spec W ψ τ ↔ W.always τ ∧ ∀ x q, p.Noted x q → q.Spec W ψ (x ++ τ) := by
  refine throughout_iff.trans ⟨fun h => ⟨h.1.always, h.2⟩, fun h => ⟨⟨h.1, ?_, ?_, ?_⟩, h.2⟩⟩
  · exact fun h => absurd h hp
  · exact fun i h => absurd h (ht i)
  · exact fun a h => absurd h (hr a)

@[simp] theorem Prog.spec_ret (a : α) : (Prog.ret a : Prog S α).Spec W ψ τ ↔ W.always τ ∧ ψ a τ := by
  refine throughout_iff.trans ⟨fun h => ⟨h.1.always, h.1.result a rfl⟩,
    fun h => ⟨⟨h.1, False.elim, fun i => False.elim, ?_⟩, ?_⟩⟩
  · rintro a' ⟨⟩
    exact h.2
  · rintro x q ⟨t, n, e, hs, -⟩
    cases hs

theorem Prog.spec_now (k : ℕ → Prog S α) :
    (Prog.now k).Spec W ψ τ ↔ W.always τ ∧ ∀ t, (k t).Spec W ψ ((t, .read) :: τ) := by
  rw [Prog.spec_iff id (fun _ => id) nofun]
  refine and_congr Iff.rfl ⟨fun h t => h [_] _ ⟨t, 0, _, .now, rfl⟩, ?_⟩
  rintro h x q ⟨t, n, e, hs, rfl⟩
  cases hs
  exact h t

theorem Prog.spec_emit (e : S.Log) (k : Prog S α) : (Prog.emit e k).Spec W ψ τ ↔
    W.always τ ∧ ∀ t, k.Spec W ψ ((t, .event (.emit e)) :: τ) := by
  rw [Prog.spec_iff id (fun _ => id) nofun]
  refine and_congr Iff.rfl ⟨fun h t => h [_] _ ⟨t, 0, _, .emit, rfl⟩, ?_⟩
  rintro h x q ⟨t, n, e, hs, rfl⟩
  cases hs
  exact h t

theorem Prog.spec_release (k : Prog S α) : (Prog.release k).Spec W ψ τ ↔
    W.always τ ∧ ∀ t, k.Spec W ψ ((t, .event .freed) :: τ) := by
  rw [Prog.spec_iff id (fun _ => id) nofun]
  refine and_congr Iff.rfl ⟨fun h t => h [_] _ ⟨t, 0, _, .freed, rfl⟩, ?_⟩
  rintro h x q ⟨t, n, e, hs, rfl⟩
  cases hs
  exact h t

/-- **An acquisition**: it is suspended until it is granted or lost. -/
theorem Prog.spec_acquire (h : S.Sem) (a : S.Amt) (k : Option ℕ → Prog S α) :
    (Prog.acquire h a k).Spec W ψ τ ↔ W.always τ ∧ ∀ s, W.always ((s, .event (.want h a)) :: τ) ∧
      W.paused ((s, .event (.want h a)) :: τ) ∧
      (∀ t, (k (some (t - s))).Spec W ψ
        ((t, .event (.got h a (t - s))) :: (s, .event (.want h a)) :: τ)) ∧
      ∀ t, (k none).Spec W ψ ((t, .event (.lost h a)) :: (s, .event (.want h a)) :: τ) := by
  have hacq : ∀ s τ', (Prog.acquiring h a s k).Spec W ψ τ' ↔ W.always τ' ∧ W.paused τ' ∧
      (∀ t, (k (some (t - s))).Spec W ψ ((t, .event (.got h a (t - s))) :: τ')) ∧
      ∀ t, (k none).Spec W ψ ((t, .event (.lost h a)) :: τ') := by
    intro s τ'
    refine throughout_iff.trans ⟨fun hs => ⟨hs.1.always, hs.1.paused trivial, ?_, ?_⟩,
      fun hs => ⟨⟨hs.1, fun _ => hs.2.1, fun _ => False.elim, nofun⟩, ?_⟩⟩
    · exact fun t => hs.2 [_] _ ⟨t, 0, _, .got, rfl⟩
    · exact fun t => hs.2 [_] _ ⟨t, 0, _, .lost, rfl⟩
    · rintro x q ⟨t, n, e, hst, rfl⟩
      cases hst with
      | got => exact hs.2.2.1 t
      | lost => exact hs.2.2.2 t
  rw [Prog.spec_iff id (fun _ => id) nofun]
  refine and_congr Iff.rfl ⟨fun hs s => (hacq s _).mp (hs [_] _ ⟨s, 0, _, .want, rfl⟩), ?_⟩
  rintro hs x q ⟨s, n, e, hst, rfl⟩
  cases hst
  exact (hacq s _).mpr (hs s)

/-! Sequencing. -/

theorem Prog.Step.bind {t n : ℕ} {p p' : Prog S α} {e : Option (Ev S)} (f : α → Prog S β)
    (h : Prog.Step t n p e p') : Prog.Step t n (p.bind f) e (p'.bind f) := by
  cases h with
  | now => exact .now
  | emit => exact .emit
  | want => exact .want
  | got => exact .got
  | lost => exact .lost
  | freed => exact .freed
  | run h => exact .run h
  | ran => exact .ran
  | loop h => exact .loop h
  | again => exact .again
  | leave => exact .leave
  | start h => exact .start h
  | join h => exact .join h
  | finish => exact .finish
  | collect => exact .collect

/-- A step of a sequence is one of its first part, as long as this has not returned. -/
theorem Prog.step_bind {t n : ℕ} {p : Prog S α} {f : α → Prog S β} {e : Option (Ev S)} {q : Prog S β}
    (h : Prog.Step t n (p.bind f) e q) (hp : ∀ a, p ≠ .ret a) :
    ∃ p', Prog.Step t n p e p' ∧ q = p'.bind f := by
  cases p with
  | ret a => exact absurd rfl (hp a)
  | now k => cases h; exact ⟨_, .now, rfl⟩
  | emit e k => cases h; exact ⟨_, .emit, rfl⟩
  | acquire s a k => cases h; exact ⟨_, .want, rfl⟩
  | acquiring s a since k =>
    cases h with
    | got => exact ⟨_, .got, rfl⟩
    | lost => exact ⟨_, .lost, rfl⟩
  | release k => cases h; exact ⟨_, .freed, rfl⟩
  | run g k =>
    cases h with
    | run h => exact ⟨_, .run h, rfl⟩
    | ran => exact ⟨_, .ran, rfl⟩
  | loop body i g k =>
    cases h with
    | loop h => exact ⟨_, .loop h, rfl⟩
    | again => exact ⟨_, .again, rfl⟩
    | leave => exact ⟨_, .leave, rfl⟩
  | join w pd r d k =>
    cases h with
    | start h => exact ⟨_, .start h, rfl⟩
    | join h => exact ⟨_, .join h, rfl⟩
    | finish => exact ⟨_, .finish, rfl⟩
    | collect => exact ⟨_, .collect, rfl⟩

theorem Prog.note_bind {p : Prog S α} (f : α → Prog S β) (hp : ∀ a, p ≠ .ret a) (e : Option (Ev S)) :
    (p.bind f).note e = p.note e := by
  cases e with
  | some e => rfl
  | none =>
    cases p with
    | ret a => exact absurd rfl (hp a)
    | join w pd r d k => cases pd <;> cases r <;> rfl
    | _ => rfl

theorem Prog.meets_bind {ψ : β → History S → Prop} {p : Prog S α} (f : α → Prog S β)
    (hp : ∀ a, p ≠ .ret a) : (p.bind f).Meets W ψ τ ↔
      W.always τ ∧ (p.Paused → W.paused τ) ∧ ∀ i, p.Turns i → W.turn i τ := by
  have hret : ∀ b, p.bind f ≠ .ret b := by
    intro b
    cases p with
    | ret a => exact absurd rfl (hp a)
    | _ => nofun
  have hpaused : (p.bind f).Paused ↔ p.Paused := by
    cases p with
    | ret a => exact absurd rfl (hp a)
    | _ => exact Iff.rfl
  have hturn : ∀ i, (p.bind f).Turns i ↔ p.Turns i := by
    intro i
    cases p with
    | ret a => exact absurd rfl (hp a)
    | _ => exact Iff.rfl
  constructor
  · exact fun h => ⟨h.always, fun hw => h.paused (hpaused.mpr hw), fun i hi => h.turn i ((hturn i).mpr hi)⟩
  · exact fun h => ⟨h.1, fun hw => h.2.1 (hpaused.mp hw), fun i hi => h.2.2 i ((hturn i).mp hi),
      fun b hb => absurd hb (hret b)⟩

theorem Prog.ret_or (p : Prog S α) : (∃ a, p = .ret a) ∨ ∀ a, p ≠ .ret a := by
  cases p with
  | ret a => exact Or.inl ⟨a, rfl⟩
  | _ => exact Or.inr nofun

/-- **Sequencing.** -/
theorem Prog.spec_bind {ψ : β → History S → Prop} (f : α → Prog S β) (p : Prog S α) :
    (p.bind f).Spec W ψ τ ↔ p.Spec W (fun a τ' => (f a).Spec W ψ τ') τ := by
  constructor
  · -- the runs of `p` are runs of the sequence, until `p` returns
    intro h
    refine Throughout.of_invariant (I := fun τ p => (p.bind f).Spec W ψ τ) ?_ ?_ h
    · intro τ p hI
      rcases p.ret_or with ⟨a, rfl⟩ | hp
      · refine ⟨hI.always, False.elim, fun _ => False.elim, ?_⟩
        rintro a' ⟨⟩
        exact hI
      · obtain ⟨h₁, h₂, h₃⟩ := (Prog.meets_bind f hp).mp (throughout_iff.mp hI).1
        exact ⟨h₁, h₂, h₃, fun a ha => absurd ha (hp a)⟩
    · rintro τ p x q hI ⟨t, n, e, hs, rfl⟩
      have hp : ∀ a, p ≠ .ret a := by
        rintro a rfl
        cases hs
      exact (throughout_iff.mp hI).2 _ _ ⟨t, n, e, hs.bind f, by rw [Prog.note_bind f hp]⟩
  · intro h
    refine Throughout.of_invariant (I := fun τ q => q.Spec W ψ τ ∨
      ∃ p, q = p.bind f ∧ p.Spec W (fun a τ' => (f a).Spec W ψ τ') τ) ?_ ?_ (Or.inr ⟨p, rfl, h⟩)
    · rintro τ q (hq | ⟨p, rfl, hp⟩)
      · exact (throughout_iff.mp hq).1
      · rcases p.ret_or with ⟨a, rfl⟩ | hne
        · exact (throughout_iff.mp ((Prog.spec_ret a).mp hp).2).1
        · have hm := (throughout_iff.mp hp).1
          exact (Prog.meets_bind f hne).mpr ⟨hm.always, hm.paused, hm.turn⟩
    · rintro τ q x q' (hq | ⟨p, rfl, hp⟩) hs
      · exact Or.inl ((throughout_iff.mp hq).2 x q' hs)
      · rcases p.ret_or with ⟨a, rfl⟩ | hne
        · exact Or.inl ((throughout_iff.mp ((Prog.spec_ret a).mp hp).2).2 x q' hs)
        · obtain ⟨t, n, e, hs, rfl⟩ := hs
          obtain ⟨p', hp', rfl⟩ := Prog.step_bind hs hne
          refine Or.inr ⟨p', rfl, (throughout_iff.mp hp).2 _ _ ⟨t, n, e, hp', ?_⟩⟩
          rw [Prog.note_bind f hne]

attribute [simp] Prog.spec_bind

@[simp] theorem Prog.spec_clock {ψ : ℕ → History S → Prop} : (Prog.clock : Prog S ℕ).Spec W ψ τ ↔
    W.always τ ∧ ∀ t, W.always ((t, .read) :: τ) ∧ ψ t ((t, .read) :: τ) := by
  unfold Prog.clock
  simp only [Prog.spec_now, Prog.spec_ret]

@[simp] theorem Prog.spec_log {ψ : Unit → History S → Prop} (e : S.Log) :
    (Prog.log e).Spec W ψ τ ↔ W.always τ ∧ ∀ t, W.always ((t, .event (.emit e)) :: τ) ∧
      ψ () ((t, .event (.emit e)) :: τ) := by
  unfold Prog.log
  simp only [Prog.spec_emit, Prog.spec_ret]

/-- **Waiting for one future.** -/
theorem Prog.spec_wait {ψ : γ → History S → Prop} {l : Leaf S γ} (h : l.Spec W ψ τ) :
    (Prog.wait l).Spec W ψ τ := by
  refine Throughout.of_invariant (I := fun τ p => (∃ f : Fut S γ, p = .run f .ret ∧ f.Spec W ψ τ) ∨
    ∃ x, p = .ret x ∧ W.always τ ∧ ψ x τ) ?_ ?_ (Or.inl ⟨_, rfl, h⟩)
  · rintro τ p (⟨f, rfl, hf⟩ | ⟨x, rfl, hw, hx⟩)
    · have hm := (throughout_iff.mp hf).1
      exact ⟨hm.always, hm.paused, fun _ => False.elim, nofun⟩
    · refine ⟨hw, False.elim, fun _ => False.elim, ?_⟩
      rintro x' ⟨⟩
      exact hx
  · rintro τ p x q (⟨f, rfl, hf⟩ | ⟨y, rfl, hw, hy⟩) ⟨t, n, e, hs, rfl⟩
    · cases hs with
      | @run _ _ f' _ _ hs =>
        refine Or.inl ⟨f', rfl, hf.step ⟨t, n, e, hs, ?_⟩⟩
        cases e <;> rfl
      | ran => exact Or.inr ⟨_, rfl, (Fut.spec_ret _).mp hf⟩
    · cases hs

/-- **Loops**: an invariant of the turn, the state and the history, kept by every turn until the body
breaks with `ψ`. -/
theorem Prog.spec_repeat {ψ : γ → History S → Prop} {body : σ → Leaf S (σ ⊕ γ)} {s : σ}
    (I : ℕ → σ → History S → Prop)
    (hI : ∀ i s τ, I i s τ → (i ≠ 0 → ∀ new, W.turn i (new ++ τ)) ∧
      (body s).Spec W (fun x τ' => Sum.elim (fun s' => I (i + 1) s' τ') (fun c => ψ c τ') x) τ)
    (h₀ : I 0 s τ) : (Prog.repeat body s).Spec W ψ τ := by
  refine Throughout.of_invariant (I := fun τ p =>
    (∃ (i : ℕ) (f : Fut S (σ ⊕ γ)), p = .loop body i f .ret ∧ (i ≠ 0 → ∀ new, W.turn i (new ++ τ)) ∧
      f.Spec W (fun x τ' => Sum.elim (fun s' => I (i + 1) s' τ') (fun c => ψ c τ') x) τ) ∨
    ∃ x, p = .ret x ∧ W.always τ ∧ ψ x τ) ?_ ?_
    (Or.inl ⟨0, _, rfl, absurd rfl, (hI 0 s τ h₀).2⟩)
  · rintro τ p (⟨i, f, rfl, hi, hf⟩ | ⟨x, rfl, hw, hx⟩)
    · have hm := (throughout_iff.mp hf).1
      refine ⟨hm.always, hm.paused, ?_, nofun⟩
      rintro j ⟨rfl, hj⟩
      exact hi hj []
    · refine ⟨hw, False.elim, fun _ => False.elim, ?_⟩
      rintro x' ⟨⟩
      exact hx
  · rintro τ p x q (⟨i, f, rfl, hi, hf⟩ | ⟨y, rfl, hw, hy⟩) ⟨t, n, e, hs, rfl⟩
    · cases hs with
      | @loop _ _ _ _ _ f' _ _ hs =>
        refine Or.inl ⟨i, f', rfl, fun h new => ?_, hf.step ⟨t, n, e, hs, ?_⟩⟩
        · rw [← List.append_assoc]
          exact hi h _
        · cases e <;> rfl
      | again =>
        obtain ⟨-, hs'⟩ := (Fut.spec_ret _).mp hf
        exact Or.inl ⟨i + 1, _, rfl, hI _ _ _ hs'⟩
      | leave =>
        obtain ⟨hw, hx⟩ := (Fut.spec_ret _).mp hf
        exact Or.inr ⟨_, rfl, hw, hx⟩
    · cases hs

end

end Async
