import S3o.Async.Triples
import S3o.Client

/-!
# The shape of the operations

The five operations share their bookkeeping: the start, the counts and the end. So triples of an operation
are made of those of its stages; a property that is kept in sequence is one of an operation if it is one of
the scopes of its guards; and a property of the constructs that the client is written with is one of all
five.

* `Op.Stages`, **`op_of_stages`**: the triples of the stages of an operation, and of the operation;
* `Sequential`: a property of programs that bookkeeping has and that is kept in sequence;
* `Op.Scopes`, **`op_of_scopes`**: what is left to show of an operation;
* `Structural`, **`op_of_structural`**: a property of every construct.
-/

namespace S3o

open Async

variable {κ : Type}

/-- The concurrency of a half. -/
def S3Client.concurrency (self : S3Client κ) : Half → ℕ
  | .read => self.config.readConcurrency.toNat
  | .write => self.config.writeConcurrency.toNat

/-! ## Triples -/

section

variable (self : S3Client κ) (T : Triples (S3 κ)) (A : T.State → Prop) (B C : T.State → S3Result Value → Prop)

/-- **What is left to show of an operation**: its stages lead from `A`, where it has been started, to `B`,
where its outcome is recorded, or, if that is done under the guard, to `C`, where it returns. -/
def Op.Stages : Op → Prop
  | .put key body => ∃ A' : T.State → Prop,
    T.Triple A (Prog.log (.sent body.data.length)) (fun x _ => A' x) ∧
    (self.config.multipartThreshold.toNat < body.data.length →
      T.Triple A' (self.multipartPut key body.data) fun x r => B x (r.map fun _ => .unit)) ∧
    (¬ self.config.multipartThreshold.toNat < body.data.length →
      T.Triple A' (self.simplePut key body.data) fun x r => B x (r.map fun _ => .unit))
  | .get key => ∃ (M : T.State → S3Result ObjectMetadata → Prop) (R : T.State → S3Result Bytes → Prop),
    T.Triple A (self.stat key) M ∧ (∀ e x, M x (.error e) → B x (.error e)) ∧
    (∀ info, self.config.multipartThreshold.toNat < info.contentLength →
      T.Triple (fun x => M x (.ok info)) (self.rangeGet key info.contentLength) R) ∧
    (∀ info, ¬ self.config.multipartThreshold.toNat < info.contentLength →
      T.Triple (fun x => M x (.ok info)) (self.simpleGet key) R) ∧
    (∀ d, T.Triple (fun x => R x (.ok d)) (Prog.log (.recv d.length)) fun x _ => B x (.ok (.data d))) ∧
    ∀ e x, R x (.error e) → B x (.error e)
  | .delete key => T.Triple A (self.guarded .write .one do
      let r ← send (.deleteObject self.config.bucket key)
      finish r
      return r) fun x r => C x (r.map fun _ => .unit)
  | .head key => T.Triple A (self.stat key) fun x r => B x (r.map .metadata)
  | .list pfx recursive => T.Triple A (self.guarded .read .one do
      let r ← self.paginatedList pfx recursive
      finish r
      return r) fun x r => C x (r.map .entries)

variable {self T A B C} {I : T.State → Prop} {α : Type}

theorem finish_map (r : S3Result α) (v : α → Value) :
    (finish (r.map v) : Prog (S3 κ) Unit) = finish r := by
  cases r <;> rfl

/-- **The triple of an operation.** -/
theorem op_of_stages {op : Op} (hstart : T.Triple I (startOp op.label) fun x _ => A x)
    (hfinish : ∀ r : S3Result Value, T.Triple (fun x => B x r) (finish r) fun x _ => C x r)
    (h : op.Stages self T A B C) : T.Triple I (op.program self) C := by
  have hend : ∀ {α : Type} (v : α → Value) (r : S3Result α), T.Triple (fun x => B x (r.map v))
      ((finish r).bind fun _ => .ret r) fun x r => C x (r.map v) := by
    intro α v r
    rw [← finish_map r v]
    exact T.bind (hfinish _) fun _ => T.ret fun _ h => h
  cases op with
  | put key body =>
    obtain ⟨A', hsent, hmulti, hsimple⟩ := h
    refine T.bind (T.bind hstart fun _ => T.bind hsent fun _ => ?_) fun r => T.ret fun _ h => h
    split_ifs with hpath
    · exact T.bind (hmulti hpath) (hend _)
    · exact T.bind (hsimple hpath) (hend _)
  | get key =>
    obtain ⟨M, R, hstat, hnone, hrange, hsimple, hrecv, herr⟩ := h
    refine T.bind (T.bind hstart fun _ => T.bind hstat fun r => ?_) fun r => T.ret fun _ h => h
    have hrest : ∀ r, T.Triple (fun x => R x r) ((received r).bind fun _ => (finish r).bind fun _ => .ret r)
        fun x r => C x (r.map .data) := by
      intro r
      cases r with
      | ok d => exact T.bind (hrecv d) fun _ => hend .data (.ok d)
      | error e => exact T.pre (herr e) (hend .data (.error e))
    cases r with
    | error e => exact T.pre (hnone e) (hend .data (.error e))
    | ok info =>
      dsimp only
      split_ifs with hpath
      · exact T.bind (hrange info hpath) hrest
      · exact T.bind (hsimple info hpath) hrest
  | delete key => exact T.bind (T.bind hstart fun _ => h) fun r => T.ret fun _ h => h
  | head key =>
    exact T.bind (T.bind hstart fun _ => T.bind h (hend _)) fun r => T.ret fun _ h => h
  | list pfx recursive => exact T.bind (T.bind hstart fun _ => h) fun r => T.ret fun _ h => h

end

/-! ## Properties -/

/-- A metric of the operation itself, not of one of its requests. -/
def Metric.Operational : Metric → Prop
  | .http _ _ _ | .ttfb _ _ => False
  | _ => True

/-- **A property that bookkeeping has and that is kept in sequence.** -/
structure Sequential (P : (α : Type) → Prog (S3 κ) α → Prop) : Prop where
  ret {α : Type} (a : α) : P α (.ret a)
  bind {α β : Type} {p : Prog (S3 κ) α} {f : α → Prog (S3 κ) β} :
    P α p → (∀ a, P β (f a)) → P β (p.bind f)
  clock : P ℕ Prog.clock
  log {e : Metric} : e.Operational → P Unit (Prog.log e)

/-- **What has such a property is left to show of an operation**: the scopes of its guards. -/
def Op.Scopes (self : S3Client κ) (P : (α : Type) → Prog (S3 κ) α → Prop) : Op → Prop
  | .put key body =>
    (self.config.multipartThreshold.toNat < body.data.length → P _ (self.multipartPut key body.data)) ∧
      (¬ self.config.multipartThreshold.toNat < body.data.length → P _ (self.simplePut key body.data))
  | .get key => P _ (self.stat key) ∧ (∀ total, P _ (self.rangeGet key total)) ∧ P _ (self.simpleGet key)
  | .delete key => P _ (self.guarded .write .one do
    let r ← send (.deleteObject self.config.bucket key)
    finish r
    return r)
  | .head key => P _ (self.stat key)
  | .list pfx recursive => P _ (self.guarded .read .one do
    let r ← self.paginatedList pfx recursive
    finish r
    return r)

section

variable {self : S3Client κ} {P : (α : Type) → Prog (S3 κ) α → Prop} {α : Type}

theorem Sequential.startOp (h : Sequential P) (op : String) : P Unit (startOp op) :=
  h.bind h.clock fun _ => h.log trivial

theorem Sequential.recordErr (h : Sequential P) (e : S3Error) : P Unit (recordErr e) :=
  h.bind h.clock fun _ => h.log trivial

theorem Sequential.finish (h : Sequential P) (r : S3Result α) : P Unit (finish r) := by
  cases r with
  | ok v => exact h.bind h.clock fun _ => h.bind h.clock fun _ => h.log trivial
  | error e => exact h.recordErr e

/-- Triples without states. -/
@[reducible] def Sequential.triples (h : Sequential P) : Triples (S3 κ) where
  State := Unit
  Triple _ p _ := P _ p
  ret _ := h.ret _
  bind hp hf := h.bind hp hf
  post hp _ := hp

/-- **An operation has the property if its scopes have it.** -/
theorem op_of_scopes (h : Sequential P) {op : Op} (hs : op.Scopes self P) : P _ (op.program self) := by
  let none : Unit → Prop := fun _ => True
  refine op_of_stages (T := h.triples) (A := none) (B := fun _ _ => True) (C := fun _ _ => True)
    (I := none) (h.startOp _) h.finish ?_
  cases op with
  | put key body => exact ⟨none, h.log trivial, hs⟩
  | get key =>
    obtain ⟨hstat, hrange, hsimple⟩ := hs
    exact ⟨fun _ _ => True, fun _ _ => True, hstat, fun _ _ _ => trivial, fun info _ => hrange _,
      fun _ _ => hsimple, fun _ => h.log trivial, fun _ _ _ => trivial⟩
  | delete key => exact hs
  | head key => exact hs
  | list pfx recursive => exact hs

/-- **A property of every construct** that the client is written with: of streams of the widths `W`, and of
loops if `L`. -/
structure Structural (W : ℕ → Prop) (L : Prop) (P : (α : Type) → Prog (S3 κ) α → Prop) : Prop
    extends Sequential P where
  record {e : Metric} : ¬ e.Operational → P Unit (Prog.log e)
  acquire {α : Type} {h : κ × Half} {a : Acquire} {k : Option ℕ → Prog (S3 κ) α} :
    (∀ d, P α (k d)) → P α (.acquire h a k)
  release {α : Type} {k : Prog (S3 κ) α} : P α k → P α (.release k)
  wait {β : Type} (l : Leaf (S3 κ) β) : P β (Prog.wait l)
  stream {β : Type} {w : ℕ} (ls : List (Leaf (S3 κ) β)) : W w → P _ (Prog.bufferUnordered w ls)
  loop {σ γ : Type} (body : σ → Leaf (S3 κ) (σ ⊕ γ)) (s : σ) : L → P γ (Prog.repeat body s)

variable {W : ℕ → Prop} {L : Prop}

theorem Structural.guarded (h : Structural W L P) {half : Half} {a : Acquire}
    {rest : Prog (S3 κ) (S3Result α)} (hr : P _ rest) : P _ (self.guarded half a rest) := by
  refine h.acquire fun d => ?_
  cases d with
  | none => exact h.ret _
  | some wait => exact h.bind (h.log trivial) fun _ => h.bind hr fun _ => h.release (h.ret _)

theorem Structural.multipartPut (h : Structural W L P) (hw : W (self.concurrency .write)) (key : String)
    (body : Bytes) : P _ (self.multipartPut key body) := by
  refine h.guarded (h.bind (h.wait _) fun x => ?_)
  rcases x with e | ⟨_ | uid⟩
  · exact h.ret _
  · exact h.ret _
  · refine h.bind (h.stream _ hw) fun rs => ?_
    split
    · exact h.bind (h.wait _) fun _ => h.ret _
    · exact h.wait _

/-- **All five operations have such a property.** -/
theorem op_of_structural (h : Structural W L P) {op : Op} (hw : W (self.concurrency op.half))
    (hl : ∀ pfx recursive, op = .list pfx recursive → L) : P _ (op.program self) := by
  refine op_of_scopes h.toSequential ?_
  have hstat : ∀ key, P _ (self.stat key) := fun key => h.guarded (h.bind (h.wait _) fun _ => h.ret _)
  cases op with
  | put key body =>
    refine ⟨fun _ => h.multipartPut hw key body.data, fun _ => h.guarded ?_⟩
    exact h.bind h.clock fun _ => h.bind (h.wait _) fun _ => h.bind h.clock fun _ =>
      h.bind (h.record id) fun _ => h.bind (h.record id) fun _ => h.ret _
  | get key =>
    refine ⟨hstat key, fun total => h.guarded ?_, h.guarded (h.wait _)⟩
    exact h.bind (h.stream _ hw) fun _ => h.ret _
  | delete key => exact h.guarded (h.bind (h.wait _) fun r => h.bind (h.finish r) fun _ => h.ret r)
  | head key => exact hstat key
  | list pfx recursive =>
    exact h.guarded (h.bind (h.loop _ _ (hl pfx recursive rfl)) fun r =>
      h.bind (h.finish r) fun _ => h.ret r)

end

end S3o
