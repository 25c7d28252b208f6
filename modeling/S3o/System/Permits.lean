import S3o.Operations
import S3o.Rules
import S3o.System.Model

/-!
# Guards and the requests under them

* `permits`: the monitor of guards. A call asks for permits only when it has none, of its own half;
* **`op_permits`**: the five operations are safe under it.
-/

namespace S3o

open Async Lts

variable {κ : Type}

/-- Where a call is with its guard. -/
inductive Stage
  | free
  | asking (a : Acquire)
  | guarded (a : Acquire)

def Stage.next : Stage → Ev (S3 κ) → Stage
  | .free, .want _ a => .asking a
  | .asking _, .got _ a _ => .guarded a
  | .asking _, .lost _ _ => .free
  | .guarded _, .freed => .free
  | g, _ => g

/-- A call asks for permits when it has none, of `home` and for an amount that `fits`, and does
nothing until it has the answer. -/
def Stage.ok (home : κ × Half) (fits : Acquire → Prop) (g : Stage) : Ev (S3 κ) → Prop
  | .want h a => g = .free ∧ h = home ∧ fits a
  | .got h a _ => g = .asking a ∧ h = home
  | .lost h a => g = .asking a ∧ h = home
  | .freed => ∃ a, g = .guarded a
  | _ => ∀ a, g ≠ .asking a

/-- The monitor of guards: `w` futures may be in progress under a guard of `a` when `wide a w`. -/
abbrev permits (home : κ × Half) (fits : Acquire → Prop) (wide : Acquire → ℕ → Prop) :
    Monitor (S3 κ) :=
  .strict Stage Stage.next (Stage.ok home fits) (fun g w => ∃ a, g = .guarded a ∧ wide a w)
    fun _ => True

/-- What the amounts the client asks for satisfy. -/
structure Room (c : S3Client κ) (h : Half) (fits : Acquire → Prop) (wide : Acquire → ℕ → Prop) :
    Prop where
  one : fits .one
  bulk : fits (.bulk (c.concurrency h))
  single : ∀ a, fits a → wide a 1
  whole : wide (.bulk (c.concurrency h)) (c.concurrency h)

section

variable {self : S3Client κ} {h : Half} {fits : Acquire → Prop} {wide : Acquire → ℕ → Prop}
  {α : Type}

theorem guarded_permits {a : Acquire} {rest : Prog (S3 κ) (S3Result α)} (hf : fits a)
    (hr : rest.Safe (permits (self.pool, h) fits wide) (fun g _ => g = .guarded a) (.guarded a)) :
    (self.guarded h a rest).Safe (permits (self.pool, h) fits wide) (fun g _ => g = .free) .free := by
  rw [safe_guarded]
  refine ⟨⟨rfl, rfl, hf⟩, trivial, fun d => ⟨⟨rfl, rfl⟩, by simp [Stage.ok, Stage.next], ?_⟩,
    ⟨rfl, rfl⟩, rfl⟩
  refine Prog.safe_weaken ?_ _ _ hr
  rintro g r rfl
  exact ⟨⟨a, rfl⟩, rfl⟩

theorem send_permits {home : κ × Half} {r : Request} {a : Acquire} {ψ : Stage → S3Result r.Output → Prop}
    (hw : wide a 1) (h : ∀ x, ψ (.guarded a) x) :
    (send r : Prog (S3 κ) _).Safe (permits home fits wide) ψ (.guarded a) := by
  rw [safe_send]
  refine ⟨⟨a, rfl, hw⟩, ?_⟩
  simp [Monitor.Solo, Stage.ok, Stage.next, hw, h]

theorem stat_permits (hr : Room self .read fits wide) (key : String) :
    (self.stat key).Safe (permits (self.pool, .read) fits wide) (fun g _ => g = .free) .free := by
  refine guarded_permits hr.one ?_
  simp only [Prog.bind_eq, Prog.pure_eq, Prog.safe_bind, Prog.safe_ret]
  exact send_permits (hr.single _ hr.one) fun _ => rfl

theorem simplePut_permits (hr : Room self .write fits wide) (key : String) (body : Bytes) :
    (self.simplePut key body).Safe (permits (self.pool, .write) fits wide) (fun g _ => g = .free)
      .free := by
  refine guarded_permits hr.one ?_
  simp only [Prog.bind_eq, Prog.pure_eq, Prog.safe_bind, Prog.safe_ret, Prog.safe_clock, Prog.safe_log]
  refine fun t => send_permits (hr.single _ hr.one) fun x t' => ?_
  simp [Stage.ok, Stage.next]

theorem simpleGet_permits (hr : Room self .read fits wide) (key : String) :
    (self.simpleGet key).Safe (permits (self.pool, .read) fits wide) (fun g _ => g = .free)
      .free := by
  have hw := hr.single _ hr.one
  refine guarded_permits hr.one ?_
  rw [safe_wait]
  refine ⟨⟨_, rfl, hw⟩, ?_⟩
  unfold S3Client.getBody
  simp only [Leaf.bind_eq, Leaf.pure_eq, Leaf.safe_bind, Leaf.safe_clock, Leaf.safe_send,
    Leaf.safe_log]
  refine fun t => ⟨trivial, fun n => ⟨?_, trivial, fun r => ⟨?_, fun t' => ⟨?_, ?_⟩⟩⟩⟩
  · simp [Monitor.Solo, Stage.ok, Stage.next, hw]
  · simp [Monitor.Solo, Stage.ok, Stage.next, hw]
  · simp [Monitor.Solo, Stage.ok, Stage.next, hw]
  · cases r.mapError classify with
    | ok output => simp [Monitor.Solo, Stage.ok, Stage.next, hw]
    | error e => simp [Monitor.Solo, Stage.ok, Stage.next, hw]

theorem paginatedList_permits (hr : Room self .read fits wide) (pfx : String) (recursive : Bool) :
    (self.paginatedList pfx recursive).Safe (permits (self.pool, .read) fits wide)
      (fun g _ => g = .guarded .one) (.guarded .one) := by
  have hw := hr.single _ hr.one
  refine Prog.safe_repeat (fun g _ => g = .guarded .one) ?_ rfl
  rintro g s rfl
  refine ⟨⟨_, rfl, hw⟩, ?_⟩
  unfold S3Client.listPage
  simp only [Leaf.bind_eq, Leaf.safe_bind, Leaf.safe_send]
  refine ⟨trivial, fun n => ⟨?_, trivial, fun r => ⟨?_, ?_⟩⟩⟩
  · simp [Monitor.Solo, Stage.ok, Stage.next, hw]
  · simp [Monitor.Solo, Stage.ok, Stage.next, hw]
  · cases r.mapError classify with
    | error e => rfl
    | ok resp =>
      dsimp only
      split <;> rfl

theorem multipartPut_permits (hr : Room self .write fits wide) (key : String) (body : Bytes) :
    (self.multipartPut key body).Safe (permits (self.pool, .write) fits wide) (fun g _ => g = .free)
      .free := by
  have hw := hr.single _ hr.bulk
  refine guarded_permits hr.bulk ?_
  simp only [Prog.bind_eq, Prog.pure_eq, Prog.safe_bind]
  refine send_permits hw fun x => ?_
  cases x with
  | error e => rfl
  | ok out =>
    obtain ⟨uploadId⟩ := out
    cases uploadId with
    | none => rfl
    | some uid =>
      rw [Prog.safe_bind]
      refine Prog.safe_bufferUnordered ⟨_, rfl, hr.whole⟩
        (fun _ g _ => g = .guarded (.bulk (self.concurrency .write))) ?_ ?_ ?_
      · rintro j g g' b rfl h
        exact h
      · intro j l hl
        obtain ⟨c, -, rfl⟩ := List.mem_map.mp (List.mem_of_getElem? hl)
        unfold S3Client.uploadPart
        simp [Monitor.Fine, Stage.ok, Stage.next, S3Client.concurrency]
      · rintro g rfl rs - -
        split
        · rw [Prog.safe_bind]
          exact send_permits hw fun _ => rfl
        · exact send_permits hw fun _ => rfl

theorem rangeGet_permits (hr : Room self .read fits wide) (key : String) (total : ℕ) :
    (self.rangeGet key total).Safe (permits (self.pool, .read) fits wide) (fun g _ => g = .free)
      .free := by
  refine guarded_permits hr.bulk ?_
  simp only [Prog.bind_eq, Prog.pure_eq, Prog.safe_bind, Prog.safe_ret]
  refine Prog.safe_bufferUnordered ⟨_, rfl, hr.whole⟩
    (fun _ g _ => g = .guarded (.bulk (self.concurrency .read))) ?_ ?_ ?_
  · rintro j g g' b rfl h
    exact h
  · intro j l hl
    obtain ⟨i, -, rfl⟩ := List.mem_map.mp (List.mem_of_getElem? hl)
    unfold S3Client.rangePart
    simp only [Leaf.bind_eq, Leaf.pure_eq, Leaf.safe_bind, Leaf.safe_clock, Leaf.safe_send,
      Leaf.safe_log]
    refine fun t => ⟨trivial, fun n => ⟨?_, trivial, fun r => ⟨?_, fun t' => ⟨?_, ?_⟩⟩⟩⟩
    · simp [Monitor.Fine, Stage.ok, Stage.next]
    · simp [Monitor.Fine, Stage.ok, Stage.next]
    · simp [Monitor.Fine, Stage.ok, Stage.next]
    · cases r.mapError classify with
      | error e => rfl
      | ok output =>
        simp only [Leaf.safe_bind, Leaf.safe_collect]
        refine ⟨trivial, fun n => ⟨?_, trivial, fun r => ⟨?_, ?_⟩⟩⟩
        · simp [Monitor.Fine, Stage.ok, Stage.next]
        · simp [Monitor.Fine, Stage.ok, Stage.next]
        · cases r with
          | error e => rfl
          | ok data => simp [Except.mapError, Monitor.Fine, Stage.ok, Stage.next, S3Client.concurrency]
  · rintro g rfl rs - -
    rfl

theorem finish_permits {home : κ × Half} (r : S3Result α) {g : Stage} (hg : ∀ a, g ≠ .asking a) :
    (finish r : Prog (S3 κ) _).Safe (permits home fits wide) (fun g' _ => g' = g) g := by
  refine safe_finish r _ (fun _ _ _ _ => ⟨hg, ?_⟩) fun _ _ _ => ⟨hg, ?_⟩
  · cases g <;> rfl
  · cases g <;> rfl

theorem free_ne_asking (a : Acquire) : Stage.free ≠ .asking a := nofun

theorem guarded_ne_asking {b : Acquire} (a : Acquire) : Stage.guarded b ≠ .asking a := nofun

/-- **A program that starts and ends without a guard**: what is kept in sequence. -/
theorem sequential_unguarded (home : κ × Half) : Sequential fun _ (p : Prog (S3 κ) _) =>
    p.Safe (permits home fits wide) (fun g _ => g = .free) .free where
  ret _ := rfl
  bind hp hf := by
    rw [Prog.safe_bind]
    refine Prog.safe_weaken ?_ _ _ hp
    rintro g a rfl
    exact hf a
  clock := fun _ => rfl
  log _ := ⟨free_ne_asking, rfl⟩

/-- **The five operations are safe under the monitor of guards.** -/
theorem op_permits (op : Op) (hr : Room self op.half fits wide) :
    (op.program self).Safe (permits (self.pool, op.half) fits wide) (fun g _ => g = .free) .free := by
  refine op_of_scopes (sequential_unguarded _) ?_
  cases op with
  | put key body =>
    exact ⟨fun _ => multipartPut_permits hr key body.data, fun _ => simplePut_permits hr key body.data⟩
  | get key => exact ⟨stat_permits hr key, fun total => rangeGet_permits hr key total, simpleGet_permits hr key⟩
  | delete key =>
    refine guarded_permits hr.one ?_
    simp only [Prog.bind_eq, Prog.pure_eq, Prog.safe_bind, Prog.safe_ret]
    exact send_permits (hr.single _ hr.one) fun r => finish_permits r guarded_ne_asking
  | head key => exact stat_permits hr key
  | list pfx recursive =>
    refine guarded_permits hr.one ?_
    simp only [Prog.bind_eq, Prog.pure_eq, Prog.safe_bind, Prog.safe_ret]
    refine Prog.safe_weaken ?_ _ _ (paginatedList_permits hr pfx recursive)
    rintro g r rfl
    exact finish_permits r guarded_ne_asking

end

end S3o
