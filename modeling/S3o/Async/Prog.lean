import Mathlib.Data.Nat.Notation
import Mathlib.Data.List.Basic

/-!
# Asynchronous programs

A program is a tree of what an `async fn` does between two of its suspension points. It asks the
outside for answers (`ask`), reads the clock, logs, acquires units of a semaphore under a guard,
and runs a list of futures with at most `w` of them in progress at a time.

* `Leaf`: the code of one future, which only asks, logs and reads the clock;
* `Prog`: the code of a call, with a future (`run`), a loop over futures (`loop`), a bounded
  unordered stream of futures (`join`) and guarded acquisitions (`acquire`, `release`);
* `Ev`: what a program does that others can see;
* `Fut.Step`, `Prog.Step`: one step of a future and of a program.
-/

namespace Async

/-- What programs can ask for and log, and which semaphores they share. -/
structure Sig : Type 1 where
  Ask : Type
  Ans : Ask → Type
  Log : Type
  Sem : Type
  Amt : Type

variable (S : Sig)

/-- The code of one future. -/
inductive Leaf (β : Type) : Type
  | ret (b : β)
  | now (k : ℕ → Leaf β)
  | emit (e : S.Log) (k : Leaf β)
  | ask (q : S.Ask) (k : S.Ans q → Leaf β)

/-- A future in progress: its code, and the number of the question it waits on. -/
structure Fut (β : Type) where
  code : Leaf S β
  tok : Option ℕ

/-- **The code of a call.** `acquiring`, the second argument of `loop` and the lists of `join` are
the parts that only a running program has. -/
inductive Prog (α : Type) : Type 1
  | ret (a : α)
  | now (k : ℕ → Prog α)
  | emit (e : S.Log) (k : Prog α)
  | acquire (h : S.Sem) (a : S.Amt) (k : Option ℕ → Prog α)
  | acquiring (h : S.Sem) (a : S.Amt) (since : ℕ) (k : Option ℕ → Prog α)
  | release (k : Prog α)
  | run {γ : Type} (f : Fut S γ) (k : γ → Prog α)
  | loop {σ γ : Type} (body : σ → Leaf S (σ ⊕ γ)) (turn : ℕ) (f : Fut S (σ ⊕ γ)) (k : γ → Prog α)
  | join {β : Type} (w : ℕ) (pending : List (ℕ × Leaf S β)) (running : List (ℕ × Fut S β))
      (done : List (ℕ × β)) (k : List β → Prog α)

variable {S} {α β γ σ : Type}

/-! ## The two monads -/

/-- Sequencing of futures. -/
def Leaf.bind : Leaf S β → (β → Leaf S γ) → Leaf S γ
  | .ret b, f => f b
  | .now k, f => .now fun t => (k t).bind f
  | .emit e k, f => .emit e (k.bind f)
  | .ask q k, f => .ask q fun r => (k r).bind f

instance : Monad (Leaf S) where
  pure := .ret
  bind := Leaf.bind

/-- Sequencing of programs. -/
def Prog.bind : Prog S α → (α → Prog S β) → Prog S β
  | .ret a, f => f a
  | .now k, f => .now fun t => (k t).bind f
  | .emit e k, f => .emit e (k.bind f)
  | .acquire h a k, f => .acquire h a fun d => (k d).bind f
  | .acquiring h a s k, f => .acquiring h a s fun d => (k d).bind f
  | .release k, f => .release (k.bind f)
  | .run g k, f => .run g fun x => (k x).bind f
  | .loop body i g k, f => .loop body i g fun x => (k x).bind f
  | .join w p r d k, f => .join w p r d fun xs => (k xs).bind f

instance : Monad (Prog S) where
  pure := .ret
  bind := Prog.bind

@[simp] theorem Leaf.pure_eq (b : β) : (pure b : Leaf S β) = .ret b := rfl
@[simp] theorem Leaf.bind_eq (l : Leaf S β) (f : β → Leaf S γ) : l >>= f = l.bind f := rfl
@[simp] theorem Prog.pure_eq (a : α) : (pure a : Prog S α) = .ret a := rfl
@[simp] theorem Prog.bind_eq (p : Prog S α) (f : α → Prog S β) : p >>= f = p.bind f := rfl

/-! ## Statements -/

/-- Ask and wait for the answer. -/
def Leaf.query (q : S.Ask) : Leaf S (S.Ans q) := .ask q .ret

/-- The current instant. -/
def Leaf.clock : Leaf S ℕ := .now .ret

/-- Log an event. -/
def Leaf.log (e : S.Log) : Leaf S Unit := .emit e (.ret ())

/-- The current instant. -/
def Prog.clock : Prog S ℕ := .now .ret

/-- Log an event. -/
def Prog.log (e : S.Log) : Prog S Unit := .emit e (.ret ())

/-- Wait for a future. -/
def Prog.wait (l : Leaf S γ) : Prog S γ := .run ⟨l, none⟩ .ret

/-- Repeat `body` from `s` until it breaks with a value. -/
def Prog.repeat (body : σ → Leaf S (σ ⊕ γ)) (s : σ) : Prog S γ := .loop body 0 ⟨body s, none⟩ .ret

/-- Number the members of a list from `n`. -/
def number (n : ℕ) : List β → List (ℕ × β)
  | [] => []
  | b :: l => (n, b) :: number (n + 1) l

/-- Run the futures `ls`, at most `w` at a time, and collect their results as they complete. -/
def Prog.bufferUnordered (w : ℕ) (ls : List (Leaf S β)) : Prog S (List β) :=
  .join w (number 0 ls) [] [] .ret

theorem number_fst (n : ℕ) (l : List β) : (number n l).map Prod.fst = List.range' n l.length := by
  induction l generalizing n with
  | nil => rfl
  | cons b l ih => simp [number, ih, List.range'_succ]

theorem mem_number {n : ℕ} {l : List β} {p : ℕ × β} (h : p ∈ number n l) :
    ∃ j, p.1 = n + j ∧ l[j]? = some p.2 := by
  induction l generalizing n with
  | nil => simp [number] at h
  | cons b l ih =>
    rcases List.mem_cons.mp h with rfl | h
    · exact ⟨0, by simp⟩
    · obtain ⟨j, h₁, h₂⟩ := ih h
      exact ⟨j + 1, by omega, by simpa using h₂⟩

/-! ## Events and steps -/

variable (S) in
/-- **What a program does that others can see.** Questions carry the number under which they were
asked. -/
inductive Ev : Type
  | emit (e : S.Log)
  | want (h : S.Sem) (a : S.Amt)
  | got (h : S.Sem) (a : S.Amt) (wait : ℕ)
  | lost (h : S.Sem) (a : S.Amt)
  | freed
  | sent (n : ℕ) (q : S.Ask)
  | answered (n : ℕ) (q : S.Ask) (r : S.Ans q)

/-- One step of a future at time `t`; `n` is the number of the next question. -/
inductive Fut.Step (t n : ℕ) : Fut S β → Option (Ev S) → Fut S β → Prop
  | now {k} : Step t n ⟨.now k, none⟩ none ⟨k t, none⟩
  | emit {e k} : Step t n ⟨.emit e k, none⟩ (some (.emit e)) ⟨k, none⟩
  | ask {q k} : Step t n ⟨.ask q k, none⟩ (some (.sent n q)) ⟨.ask q k, some n⟩
  | answer {q k m} (r : S.Ans q) :
      Step t n ⟨.ask q k, some m⟩ (some (.answered m q r)) ⟨k r, none⟩

/-- **One step of a program** at time `t`; `n` is the number of the next question. -/
inductive Prog.Step (t n : ℕ) : Prog S α → Option (Ev S) → Prog S α → Prop
  | now {k} : Step t n (.now k) none (k t)
  | emit {e k} : Step t n (.emit e k) (some (.emit e)) k
  | want {h a k} : Step t n (.acquire h a k) (some (.want h a)) (.acquiring h a t k)
  | got {h a s k} : Step t n (.acquiring h a s k) (some (.got h a (t - s))) (k (some (t - s)))
  | lost {h a s k} : Step t n (.acquiring h a s k) (some (.lost h a)) (k none)
  | freed {k} : Step t n (.release k) (some .freed) k
  | run {γ : Type} {f f' : Fut S γ} {e k} :
      Fut.Step t n f e f' → Step t n (.run f k) e (.run f' k)
  | ran {γ : Type} {x : γ} {k} : Step t n (.run ⟨.ret x, none⟩ k) none (k x)
  | loop {σ γ : Type} {body : σ → Leaf S (σ ⊕ γ)} {i} {f f' : Fut S (σ ⊕ γ)} {e k} :
      Fut.Step t n f e f' → Step t n (.loop body i f k) e (.loop body i f' k)
  | again {σ γ : Type} {body : σ → Leaf S (σ ⊕ γ)} {i s k} :
      Step t n (.loop body i ⟨.ret (.inl s), none⟩ k) none (.loop body (i + 1) ⟨body s, none⟩ k)
  | leave {σ γ : Type} {body : σ → Leaf S (σ ⊕ γ)} {i x k} :
      Step t n (.loop body i ⟨.ret (.inr x), none⟩ k) none (k x)
  | start {β : Type} {w j} {l : Leaf S β} {p r d k} : r.length < w →
      Step t n (.join w ((j, l) :: p) r d k) none (.join w p (r ++ [(j, ⟨l, none⟩)]) d k)
  | join {β : Type} {w j} {f f' : Fut S β} {e p r₁ r₂ d k} : Fut.Step t n f e f' →
      Step t n (.join w p (r₁ ++ (j, f) :: r₂) d k) e (.join w p (r₁ ++ (j, f') :: r₂) d k)
  | finish {β : Type} {w j} {b : β} {p r₁ r₂ d k} :
      Step t n (.join w p (r₁ ++ (j, ⟨.ret b, none⟩) :: r₂) d k) none
        (.join w p (r₁ ++ r₂) (d ++ [(j, b)]) k)
  | collect {β : Type} {w} {d : List (ℕ × β)} {k} :
      Step t n (.join w [] [] d k) none (k (d.map Prod.snd))

/-- The futures in progress. -/
def Prog.inFlight : Prog S α → ℕ
  | .run _ _ => 1
  | .loop _ _ _ _ => 1
  | .join _ _ r _ _ => r.length
  | _ => 0

/-- Every future in progress waits for an answer, so the call is suspended on its futures. -/
def Prog.Suspended : Prog S α → Prop
  | .run f _ => f.tok.isSome
  | .loop _ _ f _ => f.tok.isSome
  | .join w p r _ _ => r ≠ [] ∧ (∀ x ∈ r, x.2.tok.isSome) ∧ (p = [] ∨ w ≤ r.length)
  | _ => False

end Async
