import S3o.Async.Monitor
import S3o.Async.Stream
import S3o.Client

/-!
# Rules for the statements of the client

What a monitor has to allow for each statement of `client.rs`, and what the statement writes into the
history, so that the proof of an operation never unfolds a statement.

* `Leaf.safe_send`, `Leaf.safe_collect`, `safe_send`: requests and bodies;
* `safe_guarded`: an acquisition and the scope of its guard;
* `safe_startOp`, `safe_recordErr`, `safe_finish`: the bookkeeping of an operation;
* `Leaf.spec_send`, `spec_guarded`, `spec_recordErr` and the like: the same for histories.
-/

namespace S3o

open Async

variable {κ α : Type} {M : Monitor (S3 κ)} {A : M.G → Ev (S3 κ) → Prop} {g : M.G}

@[simp] theorem Leaf.safe_send (r : Request) (ψ : M.G → S3Result r.Output → Prop) :
    Leaf.Safe (β := no_index (S3Result r.Output)) M A ψ (Leaf.send r) g ↔
      M.pause g ∧ ∀ n, A g (.sent n (.http r)) ∧ M.pause (M.next g (.sent n (.http r))) ∧
        ∀ x : Except SdkError r.Output,
          A (M.next g (.sent n (.http r))) (.answered n (.http r) x) ∧
            ψ (M.next (M.next g (.sent n (.http r))) (.answered n (.http r) x))
              (x.mapError classify) := Iff.rfl

@[simp] theorem Leaf.safe_collect (b : Bytes) (label : String) (ψ : M.G → S3Result Bytes → Prop) :
    (Leaf.collect b label : Leaf (S3 κ) _).Safe M A ψ g ↔
      M.pause g ∧ ∀ n, A g (.sent n (.collect b)) ∧ M.pause (M.next g (.sent n (.collect b))) ∧
        ∀ x : Except String Bytes,
          A (M.next g (.sent n (.collect b))) (.answered n (.collect b) x) ∧
            ψ (M.next (M.next g (.sent n (.collect b))) (.answered n (.collect b) x))
              (x.mapError fun e => .backend .other s!"{label}: {e}") := Iff.rfl

theorem safe_send (r : Request) (ψ : M.G → S3Result r.Output → Prop) :
    (send r : Prog (S3 κ) _).Safe M ψ g ↔
      M.width g 1 ∧ (Leaf.send r : Leaf (S3 κ) _).Safe M M.Solo ψ g := Iff.rfl

theorem safe_wait {β : Type} (l : Leaf (S3 κ) β) (ψ : M.G → β → Prop) :
    (Prog.wait l).Safe M ψ g ↔ M.width g 1 ∧ l.Safe M M.Solo ψ g := Iff.rfl

/-- **An acquisition and the scope of its guard.** -/
theorem safe_guarded (self : S3Client κ) (h : Half) (a : Acquire)
    (rest : Prog (S3 κ) (S3Result α)) (ψ : M.G → S3Result α → Prop) :
    (self.guarded h a rest).Safe M ψ g ↔
      M.ok g (.want (self.pool, h) a) ∧ M.pause (M.next g (.want (self.pool, h) a)) ∧
      (∀ d, M.ok (M.next g (.want (self.pool, h) a)) (.got (self.pool, h) a d) ∧
        let g' := M.next (M.next g (.want (self.pool, h) a)) (.got (self.pool, h) a d)
        M.ok g' (.emit (.addQueueWait d)) ∧
        rest.Safe M (fun g'' r => M.ok g'' .freed ∧ ψ (M.next g'' .freed) r)
          (M.next g' (.emit (.addQueueWait d)))) ∧
      M.ok (M.next g (.want (self.pool, h) a)) (.lost (self.pool, h) a) ∧
        ψ (M.next (M.next g (.want (self.pool, h) a)) (.lost (self.pool, h) a))
          (.error (a.timeoutError h.name)) := by
  have hrest : ∀ (d : ℕ) (g' : M.G), ((do
      Prog.log (.addQueueWait d)
      let r ← rest
      .release (.ret r) : Prog (S3 κ) (S3Result α))).Safe M ψ g' ↔
        M.ok g' (.emit (.addQueueWait d)) ∧
        rest.Safe M (fun g'' r => M.ok g'' .freed ∧ ψ (M.next g'' .freed) r)
          (M.next g' (.emit (.addQueueWait d))) := by
    intro d g'
    simp only [Prog.bind_eq, Prog.safe_bind, Prog.safe_log]
    exact Iff.rfl
  unfold S3Client.guarded
  simp only [Prog.Safe, hrest, Prog.pure_eq]

@[simp] theorem safe_startOp (op : String) (ψ : M.G → Unit → Prop) :
    (startOp op : Prog (S3 κ) _).Safe M ψ g ↔
      ∀ t, M.ok g (.emit (.startOperation op t)) ∧ ψ (M.next g (.emit (.startOperation op t))) () := by
  simp [startOp]

@[simp] theorem safe_recordErr (e : S3Error) (ψ : M.G → Unit → Prop) :
    (recordErr e : Prog (S3 κ) _).Safe M ψ g ↔
      ∀ t, M.ok g (.emit (.err e t)) ∧ ψ (M.next g (.emit (.err e t))) () := by
  simp [recordErr]

@[simp] theorem safe_recordOk (ψ : M.G → Unit → Prop) :
    (recordOk : Prog (S3 κ) _).Safe M ψ g ↔
      ∀ t t', M.ok g (.emit (.ok t t')) ∧ ψ (M.next g (.emit (.ok t t'))) () := by
  simp [recordOk]

theorem safe_finish (r : S3Result α) (ψ : M.G → Unit → Prop)
    (hok : ∀ v, r = .ok v → ∀ t t', M.ok g (.emit (.ok t t')) ∧ ψ (M.next g (.emit (.ok t t'))) ())
    (herr : ∀ e, r = .error e → ∀ t, M.ok g (.emit (.err e t)) ∧ ψ (M.next g (.emit (.err e t))) ()) :
    (finish r : Prog (S3 κ) _).Safe M ψ g := by
  cases r with
  | ok v => exact (safe_recordOk ψ).mpr (hok v rfl)
  | error e => exact (safe_recordErr e ψ).mpr (herr e rfl)

/-! ## Histories -/

section

variable {A W : Watch (S3 κ)} {τ : History (S3 κ)}

@[simp] theorem Leaf.spec_send (r : Request) (φ : S3Result r.Output → History (S3 κ) → Prop) :
    Leaf.Spec (β := no_index (S3Result r.Output)) A φ (Leaf.send r) τ ↔
      A.always τ ∧ ∀ s n, A.always ((s, .event (requested n r)) :: τ) ∧
        A.paused ((s, .event (requested n r)) :: τ) ∧ ∀ t x,
          A.always ((t, .event (replied n r x)) :: (s, .event (requested n r)) :: τ) ∧
            φ (x.mapError classify)
              ((t, .event (replied n r x)) :: (s, .event (requested n r)) :: τ) := by
  refine (Leaf.spec_ask (S := S3 κ) (Await.http r) fun x => .ret (x.mapError classify)).trans ?_
  simp only [Leaf.spec_ret]

@[simp] theorem Leaf.spec_collect (b : Bytes) (label : String)
    (φ : S3Result Bytes → History (S3 κ) → Prop) :
    (Leaf.collect b label : Leaf (S3 κ) _).Spec A φ τ ↔
      A.always τ ∧ ∀ s n, A.always ((s, .event (.sent n (.collect b))) :: τ) ∧
        A.paused ((s, .event (.sent n (.collect b))) :: τ) ∧ ∀ t x,
          A.always ((t, .event (collected n b x)) :: (s, .event (.sent n (.collect b))) :: τ) ∧
            φ (x.mapError fun e => .backend .other s!"{label}: {e}")
              ((t, .event (collected n b x)) :: (s, .event (.sent n (.collect b))) :: τ) := by
  refine (Leaf.spec_ask (S := S3 κ) (Await.collect b) fun x =>
    .ret (β := S3Result Bytes) (x.mapError fun e => .backend .other s!"{label}: {e}")).trans ?_
  simp only [Leaf.spec_ret]

theorem spec_send {r : Request} {ψ : S3Result r.Output → History (S3 κ) → Prop}
    (h : (Leaf.send r : Leaf (S3 κ) _).Spec W ψ τ) : (send r : Prog (S3 κ) _).Spec W ψ τ :=
  Prog.spec_wait h

/-- **An acquisition and the scope of its guard.** -/
theorem spec_guarded (self : S3Client κ) (h : Half) (a : Acquire)
    (rest : Prog (S3 κ) (S3Result α)) (ψ : S3Result α → History (S3 κ) → Prop) :
    (self.guarded h a rest).Spec W ψ τ ↔
      W.always τ ∧ ∀ s, let τ₁ := (s, .event (.want (self.pool, h) a)) :: τ
      W.always τ₁ ∧ W.paused τ₁ ∧
      (∀ t, let τ₂ := (t, .event (.got (self.pool, h) a (t - s))) :: τ₁
        W.always τ₂ ∧ ∀ u, rest.Spec W (fun r τ' => W.always τ' ∧ ∀ v,
            W.always ((v, .event .freed) :: τ') ∧ ψ r ((v, .event .freed) :: τ'))
          ((u, .event (.emit (.addQueueWait (t - s)))) :: τ₂)) ∧
      ∀ t, W.always ((t, .event (.lost (self.pool, h) a)) :: τ₁) ∧
        ψ (.error (a.timeoutError h.name)) ((t, .event (.lost (self.pool, h) a)) :: τ₁) := by
  have hrest : ∀ (d : ℕ) (τ' : History (S3 κ)), ((do
      Prog.log (.addQueueWait d)
      let r ← rest
      .release (.ret r) : Prog (S3 κ) (S3Result α))).Spec W ψ τ' ↔
        W.always τ' ∧ ∀ u, rest.Spec W (fun r τ' => W.always τ' ∧ ∀ v,
            W.always ((v, .event .freed) :: τ') ∧ ψ r ((v, .event .freed) :: τ'))
          ((u, .event (.emit (.addQueueWait d))) :: τ') := by
    intro d τ'
    simp only [Prog.bind_eq, Prog.spec_bind, Prog.spec_log, Prog.spec_release, Prog.spec_ret]
    exact and_congr Iff.rfl (forall_congr' fun u => ⟨fun h => h.2, fun h => ⟨h.always, h⟩⟩)
  unfold S3Client.guarded
  simp only [Prog.spec_acquire, hrest, Prog.pure_eq, Prog.spec_ret]

@[simp] theorem spec_startOp (op : String) (ψ : Unit → History (S3 κ) → Prop) :
    (startOp op : Prog (S3 κ) _).Spec W ψ τ ↔ W.always τ ∧ ∀ t, W.always ((t, .read) :: τ) ∧ ∀ u,
      W.always ((u, .event (.emit (.startOperation op t))) :: (t, .read) :: τ) ∧
        ψ () ((u, .event (.emit (.startOperation op t))) :: (t, .read) :: τ) := by
  simp [startOp]

@[simp] theorem spec_recordErr (e : S3Error) (ψ : Unit → History (S3 κ) → Prop) :
    (recordErr e : Prog (S3 κ) _).Spec W ψ τ ↔ W.always τ ∧ ∀ t, W.always ((t, .read) :: τ) ∧ ∀ u,
      W.always ((u, .event (.emit (.err e t))) :: (t, .read) :: τ) ∧
        ψ () ((u, .event (.emit (.err e t))) :: (t, .read) :: τ) := by
  simp [recordErr]

@[simp] theorem spec_recordOk (ψ : Unit → History (S3 κ) → Prop) :
    (recordOk : Prog (S3 κ) _).Spec W ψ τ ↔ W.always τ ∧ ∀ t, W.always ((t, .read) :: τ) ∧ ∀ t',
      W.always ((t', .read) :: (t, .read) :: τ) ∧ ∀ u,
      W.always ((u, .event (.emit (.ok t t'))) :: (t', .read) :: (t, .read) :: τ) ∧
        ψ () ((u, .event (.emit (.ok t t'))) :: (t', .read) :: (t, .read) :: τ) := by
  simp [recordOk]

end

end S3o
