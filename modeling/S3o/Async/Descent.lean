import S3o.Async.Prog
import S3o.Lts.Descent

/-!
# Programs that come to an end

A program is a well-founded tree, but for its loops. With a bound `P` on the turns of its loops every
step of a program goes down.

* `Leaf.rank`, `Fut.rank_lt`: futures;
* `Prog.bag`, **`Prog.bag_lt`**, `Prog.Suspended.card_bag`: programs. An acquisition may put `c` back;
* `Prog.LoopFree`: programs without loops.
-/

namespace Async

open Lts Multiset

variable {S : Sig} {α β γ : Type}

/-- The rank of the code of a future. -/
noncomputable def Leaf.rank : Leaf S β → Ordinal.{0}
  | .ret _ => 0
  | .now k => ⨆ t, ((k t).rank + 1)
  | .emit _ k => k.rank + 1
  | .ask _ k => (⨆ r, ((k r).rank + 1)) + 1

/-- The rank of a future in progress. -/
noncomputable def Fut.rank (f : Fut S β) : Ordinal.{0} :=
  match f.tok, f.code with
  | some _, .ask _ k => ⨆ r, ((k r).rank + 1)
  | _, l => l.rank

theorem Fut.rank_start (l : Leaf S β) : Fut.rank ⟨l, none⟩ = l.rank := by
  cases l <;> rfl

/-- **Every step of a future goes down.** -/
theorem Fut.rank_lt {t n : ℕ} {f f' : Fut S β} {e : Option (Ev S)} (h : Fut.Step t n f e f') :
    f'.rank < f.rank := by
  cases h with
  | @now k =>
    rw [Fut.rank_start]
    exact Ordinal.lt_iSup_add_one (fun t => (k t).rank) t
  | @emit e k =>
    rw [Fut.rank_start]
    exact lt_add_one k.rank
  | @ask q k =>
    show (⨆ r, ((k r).rank + 1)) < (⨆ r, ((k r).rank + 1)) + 1
    exact lt_add_one _
  | @answer q k m r =>
    rw [Fut.rank_start]
    exact Ordinal.lt_iSup_add_one (fun r => (k r).rank) r

/-- The turn of the loop that a program is in. -/
def Prog.turn : Prog S α → ℕ
  | .loop _ i _ _ => i
  | _ => 0

/-- The bag of a program whose loops take `P` turns. -/
noncomputable def Prog.bag (P : ℕ) (c : Ordinal.{0}) : Prog S α → Multiset Ordinal.{0}
  | .ret _ => 0
  | .now k => {above fun t => (k t).bag P c}
  | .emit _ k => {above fun _ : Unit => k.bag P c}
  | .acquire _ _ k => {max c (above fun d => (k d).bag P c) + 1}
  | .acquiring _ _ _ k => {above fun d => (k d).bag P c}
  | .release k => {above fun _ : Unit => k.bag P c}
  | .run f k => {above fun x => (k x).bag P c} + {f.rank}
  | .loop body i f k =>
    {above fun x => (k x).bag P c} + (P - i) • {⨆ s, ((body s).rank + 1)} + {f.rank}
  | .join _ pd r _ k => {above fun xs => (k xs).bag P c} +
      ((pd.map fun x => x.2.rank + 1 + 1 : List Ordinal.{0}) : Multiset Ordinal.{0}) +
      ((r.map fun x => x.2.rank + 1 : List Ordinal.{0}) : Multiset Ordinal.{0})

/-- What an event puts back. -/
def cost (c : Ordinal.{0}) : Option (Ev S) → Multiset Ordinal.{0}
  | some (.want _ _) => {c}
  | _ => 0

theorem Fut.cost_step {t n : ℕ} {f f' : Fut S β} {e : Option (Ev S)} (h : Fut.Step t n f e f')
    (c : Ordinal.{0}) : cost c e = 0 := by
  cases h <;> rfl

/-- **Every step of a program goes down**, as long as its loops take at most `P` turns. -/
theorem Prog.bag_lt {P : ℕ} {c : Ordinal.{0}} {t n : ℕ} {p p' : Prog S α} {e : Option (Ev S)}
    (h : Prog.Step t n p e p') (hP : p'.turn ≤ P) :
    IsDershowitzMannaLT (p'.bag P c + cost c e) (p.bag P c) := by
  cases h with
  | @now k =>
    show IsDershowitzMannaLT (_ + 0) _
    rw [add_zero]
    exact trade_above (fun t => (k t).bag P c) t
  | @emit e k =>
    show IsDershowitzMannaLT (_ + 0) _
    rw [add_zero]
    exact trade_above (fun _ : Unit => p'.bag P c) ()
  | @want h a k =>
    refine trade fun y hy => ?_
    rw [Prog.bag, cost, Multiset.mem_add, Multiset.mem_singleton, Multiset.mem_singleton] at hy
    rcases hy with rfl | rfl
    · exact lt_of_le_of_lt (le_max_right c _) (lt_add_one _)
    · exact lt_of_le_of_lt (le_max_left _ _) (lt_add_one _)
  | @got h a s k =>
    show IsDershowitzMannaLT (_ + 0) _
    rw [add_zero]
    exact trade_above (fun d => (k d).bag P c) _
  | @lost h a s k =>
    show IsDershowitzMannaLT (_ + 0) _
    rw [add_zero]
    exact trade_above (fun d => (k d).bag P c) _
  | @freed k =>
    show IsDershowitzMannaLT (_ + 0) _
    rw [add_zero]
    exact trade_above (fun _ : Unit => p'.bag P c) ()
  | @run γ f f' e k hf =>
    rw [Fut.cost_step hf, add_zero]
    exact add_left _ (trade fun y hy => by
      rw [Multiset.mem_singleton.mp hy]
      exact Fut.rank_lt hf)
  | @ran γ x k =>
    show IsDershowitzMannaLT (_ + 0) _
    rw [add_zero]
    exact lt_add (trade_above (fun x => (k x).bag P c) x) _
  | @loop σ γ body i f f' e k hf =>
    rw [Fut.cost_step hf, add_zero]
    exact add_left _ (trade fun y hy => by
      rw [Multiset.mem_singleton.mp hy]
      exact Fut.rank_lt hf)
  | @again σ γ body i s k =>
    have hi : P - i = P - (i + 1) + 1 := by
      have : i + 1 ≤ P := hP
      omega
    have hlt : (body s).rank < ⨆ s, ((body s).rank + 1) :=
      Ordinal.lt_iSup_add_one (fun s => (body s).rank) s
    show IsDershowitzMannaLT (_ + 0) _
    rw [add_zero, Prog.bag, Prog.bag, Fut.rank_start, hi, succ_nsmul, ← add_assoc]
    refine lt_add (add_left _ (trade fun y hy => ?_)) _
    rw [Multiset.mem_singleton.mp hy]
    exact hlt
  | @leave σ γ body i x k =>
    show IsDershowitzMannaLT (_ + 0) _
    rw [add_zero]
    exact lt_add (lt_add (trade_above (fun x => (k x).bag P c) x) _) _
  | @start β w j l pd r d k hw =>
    show IsDershowitzMannaLT (_ + 0) _
    rw [add_zero, Prog.bag, Prog.bag, List.map_cons, List.map_append, ← Multiset.cons_coe,
      ← Multiset.coe_add, ← Multiset.singleton_add, ← add_assoc, ← add_assoc,
      add_right_comm _ {l.rank + 1 + 1}, add_right_comm _ {l.rank + 1 + 1}]
    have hlt : Fut.rank ⟨l, none⟩ + 1 < l.rank + 1 + 1 := by
      rw [Fut.rank_start]
      exact lt_add_one _
    refine add_left _ (trade fun y hy => ?_)
    rw [Multiset.mem_coe, List.map_singleton, List.mem_singleton] at hy
    rw [hy]
    exact hlt
  | @join β w j f f' e pd r₁ r₂ d k hf =>
    rw [Fut.cost_step hf, add_zero, Prog.bag, Prog.bag, List.map_append, List.map_append,
      ← Multiset.coe_add, ← Multiset.coe_add, List.map_cons, List.map_cons, ← Multiset.cons_coe,
      ← Multiset.cons_coe, ← Multiset.singleton_add, ← Multiset.singleton_add]
    refine add_left _ (add_left _ (add_right (trade fun y hy => ?_) _))
    rw [Multiset.mem_singleton.mp hy]
    rw [← Order.succ_eq_add_one, ← Order.succ_eq_add_one]
    exact Order.succ_lt_succ (Fut.rank_lt hf)
  | @finish β w j b pd r₁ r₂ d k =>
    show IsDershowitzMannaLT (_ + 0) _
    rw [add_zero, Prog.bag, Prog.bag, List.map_append, List.map_append, ← Multiset.coe_add,
      ← Multiset.coe_add, List.map_cons, ← Multiset.cons_coe, ← Multiset.singleton_add]
    exact add_left _ (add_left _ (discard _ _))
  | @collect β w d k =>
    show IsDershowitzMannaLT (_ + 0) _
    rw [add_zero]
    exact lt_add (lt_add (trade_above (fun xs => (k xs).bag P c) _) _) _

theorem Prog.Suspended.card_bag {p : Prog S α} (h : p.Suspended) (P : ℕ) (c : Ordinal.{0}) :
    p.inFlight < Multiset.card (p.bag P c) := by
  cases p with
  | run f k => simp [Prog.inFlight, Prog.bag]
  | loop body i f k =>
    simp only [Prog.inFlight, Prog.bag, Multiset.card_add, Multiset.card_singleton]
    omega
  | join w pd r d k =>
    simp only [Prog.inFlight, Prog.bag, Multiset.card_add, Multiset.card_singleton, Multiset.coe_card,
      List.length_map]
    omega
  | _ => exact h.elim

/-! ## Programs without loops -/

/-- No loop, whatever the answers are. -/
def Prog.LoopFree : Prog S α → Prop
  | .ret _ => True
  | .now k => ∀ t, (k t).LoopFree
  | .emit _ k => k.LoopFree
  | .acquire _ _ k => ∀ d, (k d).LoopFree
  | .acquiring _ _ _ k => ∀ d, (k d).LoopFree
  | .release k => k.LoopFree
  | .run _ k => ∀ x, (k x).LoopFree
  | .loop _ _ _ _ => False
  | .join _ _ _ _ k => ∀ xs, (k xs).LoopFree

theorem Prog.LoopFree.turn {p : Prog S α} (h : p.LoopFree) : p.turn = 0 := by
  cases p with
  | loop => exact h.elim
  | _ => rfl

theorem Prog.LoopFree.step {t n : ℕ} {p p' : Prog S α} {e : Option (Ev S)} (h : p.LoopFree)
    (hs : Prog.Step t n p e p') : p'.LoopFree := by
  cases hs with
  | now => exact h t
  | got => exact h _
  | lost => exact h _
  | ran => exact h _
  | loop => exact h.elim
  | again => exact h.elim
  | leave => exact h.elim
  | collect => exact h _
  | _ => exact h

theorem Prog.LoopFree.bind {p : Prog S α} {f : α → Prog S γ} (h : p.LoopFree)
    (hf : ∀ a, (f a).LoopFree) : (p.bind f).LoopFree := by
  induction p with
  | ret a => exact hf a
  | now k ih => exact fun t => ih t (h t)
  | emit e k ih => exact ih h
  | acquire s a k ih => exact fun d => ih d (h d)
  | acquiring s a t k ih => exact fun d => ih d (h d)
  | release k ih => exact ih h
  | run g k ih => exact fun x => ih x (h x)
  | loop body i g k ih => exact h.elim
  | join w p r d k ih => exact fun xs => ih xs (h xs)

end Async
