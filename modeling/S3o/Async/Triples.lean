import S3o.Async.History
import S3o.Async.Monitor

/-!
# Triples

Monitors and watches have the rules of a Hoare logic for returning, for sequencing and of consequence. What
follows from these alone is proved once, for triples of any kind.

* `Triples`: triples of some kind, with these rules;
* `Monitor.triples`, `Watch.triples`: those of a monitor and those of a watch.
-/

namespace Async

variable {S : Sig}

/-- **Triples**: from states with `A` a program leads to states and results with `B`. -/
structure Triples (S : Sig) where
  State : Type
  Triple {α : Type} : (State → Prop) → Prog S α → (State → α → Prop) → Prop
  ret {α : Type} {A : State → Prop} {B : State → α → Prop} {a : α} :
    (∀ x, A x → B x a) → Triple A (.ret a) B
  bind {α β : Type} {A : State → Prop} {B : State → α → Prop} {C : State → β → Prop} {p : Prog S α}
    {f : α → Prog S β} : Triple A p B → (∀ a, Triple (fun x => B x a) (f a) C) → Triple A (p.bind f) C
  post {α : Type} {A : State → Prop} {B B' : State → α → Prop} {p : Prog S α} :
    Triple A p B → (∀ x a, B x a → B' x a) → Triple A p B'

theorem Triples.pre (T : Triples S) {α : Type} {A A' : T.State → Prop} {B : T.State → α → Prop}
    {p : Prog S α} (h : ∀ x, A' x → A x) (hp : T.Triple A p B) : T.Triple A' p B :=
  T.bind (B := fun x (_ : Unit) => A x) (p := .ret ()) (T.ret h) fun _ => hp

/-- The triples of a monitor: the states are what it remembers. -/
@[reducible] def Monitor.triples (M : Monitor S) : Triples S where
  State := M.G
  Triple A p B := ∀ g, A g → p.Safe M B g
  ret h g hg := h g hg
  bind hp hf g hg := (Prog.safe_bind _ _ g).mpr (Prog.safe_weaken (fun g' a hB => hf a g' hB) _ g (hp g hg))
  post hp h g hg := Prog.safe_weaken h _ g (hp g hg)

/-- The triples of a watch: the states are histories. -/
@[reducible] def Watch.triples (W : Watch S) : Triples S where
  State := History S
  Triple A p B := ∀ τ, W.always τ → A τ → p.Spec W (fun a τ' => B τ' a) τ
  ret h τ hτ hA := (Prog.spec_ret _).mpr ⟨hτ, h τ hA⟩
  bind hp hf τ hτ hA := (Prog.spec_bind _ _).mpr ((hp τ hτ hA).weaken fun a τ' hτ' hB => hf a τ' hτ' hB)
  post hp h τ hτ hA := (hp τ hτ hA).weaken fun a τ' _ hB => h τ' a hB

end Async
