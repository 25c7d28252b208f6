import S3o.Rules

/-!
# Statements that acquire

Each operation below the public ones is an acquisition and the scope of its guard, and the scope only
makes requests and logs what they take. So whatever looks at other events sees nothing of the scope.

* `Unseen`: a projection that sees nothing of requests;
* `Scoped`: an acquisition and a scope in which a projection sees nothing;
* **`stat_scoped`**, **`multipartPut_scoped`** and the like, `paginatedList_unseen`.
-/

namespace S3o

open Async

variable {κ α β : Type}

/-- `f` sees nothing of requests and of what is logged about them. -/
structure Unseen (f : Ev (S3 κ) → Option β) : Prop where
  sent : ∀ n q, f (.sent n q) = none
  answered : ∀ n q r, f (.answered n q r) = none
  http : ∀ op d ok, f (.emit (.http op d ok)) = none
  ttfb : ∀ op d, f (.emit (.ttfb op d)) = none

/-- **An acquisition and a scope in which `f` sees nothing.** -/
def Scoped (f : Ev (S3 κ) → Option β) (self : S3Client κ) (p : Prog (S3 κ) (S3Result α)) : Prop :=
  ∃ h a rest, p = self.guarded h a rest ∧
    ∀ σ, rest.Safe (.project f (· = σ)) (fun g _ => g = σ) σ

section

variable {f : Ev (S3 κ) → Option β} {self : S3Client κ} {σ : List β}

theorem send_unseen (hf : Unseen f) (r : Request) :
    (send r : Prog (S3 κ) _).Safe (.project f (· = σ)) (fun g _ => g = σ) σ := by
  rw [safe_send]
  simp [Monitor.Solo, hf.sent, hf.answered]

theorem stat_scoped (hf : Unseen f) (key : String) : Scoped f self (self.stat key) := by
  refine ⟨_, _, _, rfl, fun σ => ?_⟩
  simp only [Prog.bind_eq, Prog.pure_eq, Prog.safe_bind, Prog.safe_ret]
  exact send_unseen hf _

theorem simplePut_scoped (hf : Unseen f) (key : String) (body : Bytes) :
    Scoped f self (self.simplePut key body) := by
  refine ⟨_, _, _, rfl, fun σ => ?_⟩
  simp only [Prog.bind_eq, Prog.pure_eq, Prog.safe_bind, Prog.safe_ret, Prog.safe_clock, Prog.safe_log]
  intro t
  refine Prog.safe_weaken ?_ _ _ (send_unseen hf _)
  intro g r hg t'
  subst g
  simp [hf.http, hf.ttfb]

theorem simpleGet_scoped (hf : Unseen f) (key : String) : Scoped f self (self.simpleGet key) := by
  refine ⟨_, _, _, rfl, fun σ => ?_⟩
  rw [safe_wait]
  refine ⟨trivial, ?_⟩
  unfold S3Client.getBody
  simp only [Leaf.bind_eq, Leaf.pure_eq, Leaf.safe_bind, Leaf.safe_clock, Leaf.safe_send,
    Leaf.safe_log]
  refine fun t => ⟨trivial, fun n => ⟨by simp [Monitor.Solo], by simp [hf.sent], fun r =>
    ⟨by simp [Monitor.Solo], fun t' => ⟨by simp [Monitor.Solo], ?_⟩⟩⟩⟩
  cases r.mapError classify with
  | ok output => simp [Monitor.Solo, hf.sent, hf.answered, hf.http, hf.ttfb]
  | error e => simp [Monitor.Solo, hf.sent, hf.answered, hf.http, hf.ttfb]

theorem paginatedList_unseen (hf : Unseen f) (pfx : String) (recursive : Bool) :
    (self.paginatedList pfx recursive).Safe (.project f (· = σ)) (fun g _ => g = σ) σ := by
  refine Prog.safe_repeat (fun g _ => g = σ) ?_ rfl
  intro g s hg
  subst g
  refine ⟨trivial, ?_⟩
  unfold S3Client.listPage
  simp only [Leaf.bind_eq, Leaf.safe_bind, Leaf.safe_send, hf.sent, hf.answered]
  refine ⟨trivial, fun n => ⟨by simp [Monitor.Solo], rfl, fun r => ⟨by simp [Monitor.Solo], ?_⟩⟩⟩
  cases r.mapError classify with
  | error e => rfl
  | ok resp =>
    dsimp only
    split <;> rfl

theorem multipartPut_scoped (hf : Unseen f) (key : String) (body : Bytes) :
    Scoped f self (self.multipartPut key body) := by
  refine ⟨_, _, _, rfl, fun σ => ?_⟩
  simp only [Prog.bind_eq, Prog.pure_eq, Prog.safe_bind]
  refine Prog.safe_weaken ?_ _ _ (send_unseen hf _)
  intro g x hg
  subst g
  cases x with
  | error e => exact rfl
  | ok out =>
    obtain ⟨uploadId⟩ := out
    cases uploadId with
    | none => exact rfl
    | some uid =>
      rw [Prog.safe_bind]
      refine Prog.safe_bufferUnordered trivial (fun _ g _ => g = σ) ?_ ?_ ?_
      · rintro j g g' b rfl h
        exact h
      · intro j l hl
        obtain ⟨c, -, rfl⟩ := List.mem_map.mp (List.mem_of_getElem? hl)
        unfold S3Client.uploadPart
        simp [Monitor.Fine, hf.sent, hf.answered, hf.http, hf.ttfb]
      · intro g' hg rs _ _
        subst hg
        split
        · rw [Prog.safe_bind]
          exact send_unseen hf _
        · exact send_unseen hf _

theorem rangeGet_scoped (hf : Unseen f) (key : String) (total : ℕ) :
    Scoped f self (self.rangeGet key total) := by
  refine ⟨_, _, _, rfl, fun σ => ?_⟩
  simp only [Prog.bind_eq, Prog.pure_eq, Prog.safe_bind, Prog.safe_ret]
  refine Prog.safe_bufferUnordered trivial (fun _ g' _ => g' = σ) ?_ ?_ ?_
  · rintro j g' g'' b rfl h
    exact h
  · intro j l hl
    obtain ⟨i, -, rfl⟩ := List.mem_map.mp (List.mem_of_getElem? hl)
    unfold S3Client.rangePart
    simp only [Leaf.bind_eq, Leaf.pure_eq, Leaf.safe_bind, Leaf.safe_clock, Leaf.safe_send,
      Leaf.safe_log, Monitor.Fine, hf.sent, hf.answered, hf.ttfb]
    refine fun t => ⟨trivial, fun n => ⟨⟨trivial, rfl⟩, rfl, fun r => ⟨⟨trivial, rfl⟩, fun t' =>
      ⟨⟨trivial, rfl⟩, ?_⟩⟩⟩⟩
    cases r.mapError classify with
    | error e => rfl
    | ok output =>
      simp only [Leaf.safe_bind, Leaf.safe_collect, Monitor.Fine, hf.sent, hf.answered]
      refine ⟨rfl, fun n => ⟨⟨trivial, rfl⟩, rfl, fun r => ⟨⟨trivial, rfl⟩, ?_⟩⟩⟩
      cases r with
      | error e => rfl
      | ok data => simp [Except.mapError, Monitor.Fine, hf.http]
  · rintro g' rfl rs - -
    rfl

end

end S3o
