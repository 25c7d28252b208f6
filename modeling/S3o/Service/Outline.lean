import S3o.Service.Ledger

/-!
# The outline of a call

Besides parts, ranges, pages and aborts a call sends very little: a HEAD and then at most one GET of the
whole object, or one write, or one new upload and its completion. A whole object is read only when its
HEAD has reported a length that is not above the threshold.

* `Request.single`, `Waypoint`, `waypoint`: the requests in question, and what a HEAD has reported;
* `Outline`: what a call may have sent of them so far;
* **`op_outline`**, **`outline_run`**: the five operations, and every call in every run;
* `Outline.head_eq`, `Outline.lands_eq`, `Outline.uid_eq`, `Outline.plain_le`: what follows for two of its
  requests.
-/

namespace S3o

open Async Lts

variable {κ : Type}

/-- Not a part, a range, a page or an abort. -/
def Request.single : Request → Bool
  | .putObject .. | .deleteObject .. | .headObject .. | .getObject _ _ none
  | .createMultipartUpload .. | .completeMultipartUpload .. => true
  | _ => false

/-- One of these requests, the length that a HEAD has reported, or the id of a new upload. -/
inductive Waypoint
  | asked (n : ℕ) (r : Request)
  | measured (total : ℕ)
  | opened (uid : String)

/-- What an event adds to the outline. -/
def waypoint : Ev (S3 κ) → Option Waypoint
  | .sent n (Await.http r) => if r.single then some (.asked n r) else none
  | .answered _ (Await.http (.headObject _ _)) (.ok out) =>
    some (.measured (asU64 (out.contentLength.getD 0)))
  | .answered _ (Await.http (.createMultipartUpload _ _)) (.ok ⟨some uid⟩) => some (.opened uid)
  | _ => none

/-- **What a call may have sent so far**, newest first. -/
inductive Outline (threshold : ℕ) : List Waypoint → Prop
  | none : Outline threshold []
  | put {n bucket key d c} : Outline threshold [.asked n (.putObject bucket key d c)]
  | delete {n bucket key} : Outline threshold [.asked n (.deleteObject bucket key)]
  | head {n bucket key} : Outline threshold [.asked n (.headObject bucket key)]
  | measured {n bucket key total} :
      Outline threshold [.measured total, .asked n (.headObject bucket key)]
  | plain {n m bucket key bucket' key' total} : total ≤ threshold → Outline threshold
      [.asked m (.getObject bucket' key' none), .measured total, .asked n (.headObject bucket key)]
  | create {n bucket key} : Outline threshold [.asked n (.createMultipartUpload bucket key)]
  | opened {n bucket key uid} :
      Outline threshold [.opened uid, .asked n (.createMultipartUpload bucket key)]
  | complete {n m bucket key bucket' key' uid parts} : Outline threshold
      [.asked m (.completeMultipartUpload bucket' key' uid parts), .opened uid,
        .asked n (.createMultipartUpload bucket key)]

/-- The monitor of outlines. -/
abbrev outlines (threshold : ℕ) : Monitor (S3 κ) :=
  .strict (List Waypoint) (fun g e => (waypoint e).toList ++ g)
    (fun g e => ∀ x, waypoint e = some x → Outline threshold (x :: g)) (fun _ _ => True) fun _ => True

/-! ## Statements -/

section

variable {self : S3Client κ} {threshold : ℕ} {g : List Waypoint} {α : Type}

theorem unmarked {e : Ev (S3 κ)} (he : waypoint e = none) :
    ∀ x, waypoint e = some x → Outline threshold (x :: g) := by
  intro x hx
  rw [he] at hx
  cases hx

theorem guarded_outline {h : Half} {a : Acquire} {rest : Prog (S3 κ) (S3Result α)}
    {ψ : List Waypoint → S3Result α → Prop} (hr : rest.Safe (outlines threshold) ψ g)
    (hlost : ∀ e, ψ g (.error e)) : (self.guarded h a rest).Safe (outlines threshold) ψ g := by
  rw [safe_guarded]
  refine ⟨unmarked rfl, trivial, fun d => ⟨unmarked rfl, unmarked rfl, ?_⟩, unmarked rfl, hlost _⟩
  exact Prog.safe_weaken (fun g' r hg => ⟨unmarked rfl, hg⟩) _ _ hr

theorem finish_outline {ψ : List Waypoint → Unit → Prop} (r : S3Result α) (h : ψ g ()) :
    (finish r : Prog (S3 κ) _).Safe (outlines threshold) ψ g := by
  refine safe_finish (M := outlines threshold) (g := g) r ψ ?_ ?_
  · exact fun _ _ _ _ => ⟨unmarked rfl, h⟩
  · exact fun _ _ _ => ⟨unmarked rfl, h⟩

theorem send_plain {r : Request} {ψ : List Waypoint → S3Result r.Output → Prop} (hr : r.single = false)
    (h : ∀ x, ψ g x) : (send r : Prog (S3 κ) _).Safe (outlines threshold) ψ g := by
  have hs : ∀ n, waypoint (requested (κ := κ) n r) = none := fun n => by simp [waypoint, hr]
  have ha : ∀ n x, waypoint (replied (κ := κ) n r x) = none := by
    intro n x
    cases r with
    | headObject => cases hr
    | createMultipartUpload => cases hr
    | _ => rfl
  rw [safe_send]
  simp [Monitor.Solo, hs, ha, h]

/-- A request of the outline whose reply is not in it. -/
theorem send_marked {r : Request} {ψ : List Waypoint → S3Result r.Output → Prop} (hr : r.single = true)
    (ha : ∀ n x, waypoint (replied (κ := κ) n r x) = none) (ho : ∀ n, Outline threshold (.asked n r :: g))
    (h : ∀ n x, ψ (.asked n r :: g) x) :
    (send r : Prog (S3 κ) _).Safe (outlines threshold) ψ g := by
  have hs : ∀ n, waypoint (requested (κ := κ) n r) = some (.asked n r) := fun n => by simp [waypoint, hr]
  rw [safe_send]
  simp [Monitor.Solo, hs, ha, h, ho]

/-- **`stat`** sends a HEAD. -/
theorem stat_outline (key : String) : (self.stat key).Safe (outlines threshold)
    (fun g r => Outline threshold g ∧ ∀ info, r = .ok info → ∃ n,
      g = [.measured info.contentLength, .asked n (.headObject self.config.bucket key)]) [] := by
  have hfail : ∀ g e, Outline threshold g → Outline threshold g ∧ ∀ info,
      (.error e : S3Result ObjectMetadata) = .ok info → ∃ n,
        g = [.measured info.contentLength, .asked n (.headObject self.config.bucket key)] := by
    refine fun g e hg => ⟨hg, fun info hinfo => ?_⟩
    cases hinfo
  refine guarded_outline ?_ fun e => hfail _ _ .none
  simp only [Prog.bind_eq, Prog.pure_eq, Prog.safe_bind, Prog.safe_ret]
  rw [safe_send]
  refine ⟨trivial, trivial, fun n => ⟨⟨?_, trivial⟩, trivial, fun x => ⟨⟨?_, trivial⟩, ?_⟩⟩⟩
  · rintro x hx
    cases hx
    exact .head
  · rintro y hy
    cases x with
    | error e => cases hy
    | ok out =>
      cases hy
      exact .measured
  · cases x with
    | error e => exact hfail _ _ .head
    | ok out =>
      refine ⟨.measured, fun info hinfo => ⟨n, ?_⟩⟩
      cases hinfo
      rfl

theorem simplePut_outline (key : String) (body : Bytes) :
    (self.simplePut key body).Safe (outlines threshold) (fun g _ => Outline threshold g) [] := by
  refine guarded_outline ?_ fun e => .none
  simp only [Prog.bind_eq, Prog.pure_eq, Prog.safe_bind, Prog.safe_ret, Prog.safe_clock, Prog.safe_log]
  refine fun t => send_marked rfl (fun _ _ => rfl) (fun n => .put) fun n x t' => ?_
  exact ⟨unmarked rfl, unmarked rfl, .put⟩

/-- **`simple_get`** is called when the HEAD has reported a length that is not above the threshold. -/
theorem simpleGet_outline {n total : ℕ} {key bucket key' : String} (ht : total ≤ threshold) :
    (self.simpleGet key).Safe (outlines threshold) (fun g _ => Outline threshold g)
      [.measured total, .asked n (.headObject bucket key')] := by
  refine guarded_outline ?_ fun e => .measured
  rw [safe_wait]
  refine ⟨trivial, ?_⟩
  unfold S3Client.getBody
  simp only [Leaf.bind_eq, Leaf.pure_eq, Leaf.safe_bind, Leaf.safe_clock, Leaf.safe_send, Leaf.safe_log]
  refine fun t => ⟨trivial, fun m => ⟨⟨?_, trivial⟩, trivial, fun r => ⟨⟨unmarked rfl, trivial⟩, fun t' =>
    ⟨⟨unmarked rfl, trivial⟩, ?_⟩⟩⟩⟩
  · rintro x hx
    cases hx
    exact .plain ht
  · cases r with
    | error e => exact fun t'' => ⟨⟨unmarked rfl, trivial⟩, .plain ht⟩
    | ok output =>
      show Leaf.Safe _ _ _ (Leaf.bind (Leaf.collect output.body "body") _) _
      rw [Leaf.safe_bind, Leaf.safe_collect]
      refine ⟨trivial, fun n' => ⟨⟨unmarked rfl, trivial⟩, trivial, fun y =>
        ⟨⟨unmarked rfl, trivial⟩, ?_⟩⟩⟩
      exact fun t'' => ⟨⟨unmarked rfl, trivial⟩, .plain ht⟩

theorem rangeGet_outline {key : String} {total : ℕ} (hg : Outline threshold g) :
    (self.rangeGet key total).Safe (outlines threshold) (fun g _ => Outline threshold g) g := by
  refine guarded_outline ?_ fun e => hg
  simp only [Prog.bind_eq, Prog.pure_eq, Prog.safe_bind, Prog.safe_ret]
  refine Prog.safe_bufferUnordered trivial (fun _ g' _ => g' = g) ?_ ?_ ?_
  · rintro j g' g'' b rfl h
    exact h
  · intro j l hl
    obtain ⟨i, -, rfl⟩ := List.mem_map.mp (List.mem_of_getElem? hl)
    unfold S3Client.rangePart
    simp only [Leaf.bind_eq, Leaf.pure_eq, Leaf.safe_bind, Leaf.safe_clock, Leaf.safe_send,
      Leaf.safe_log, Monitor.Fine]
    refine fun t => ⟨trivial, fun n => ⟨⟨unmarked rfl, rfl⟩, trivial, fun r =>
      ⟨⟨unmarked rfl, rfl⟩, fun t' => ⟨⟨unmarked rfl, rfl⟩, ?_⟩⟩⟩⟩
    cases r with
    | error e => rfl
    | ok output =>
      show Leaf.Safe _ _ _ (Leaf.bind _ _) _
      simp only [Leaf.safe_bind, Leaf.safe_collect, Monitor.Fine]
      refine ⟨trivial, fun n' => ⟨⟨unmarked rfl, rfl⟩, trivial, fun y => ⟨⟨unmarked rfl, rfl⟩, ?_⟩⟩⟩
      cases y with
      | error e => rfl
      | ok data => exact fun t'' => ⟨⟨unmarked rfl, rfl⟩, rfl⟩
  · rintro g' rfl rs - -
    exact hg

/-- **`multipart_put`** makes one upload and completes it at most once. -/
theorem multipartPut_outline (key : String) (body : Bytes) :
    (self.multipartPut key body).Safe (outlines threshold) (fun g _ => Outline threshold g) [] := by
  refine guarded_outline ?_ fun e => .none
  simp only [Prog.bind_eq, Prog.pure_eq, Prog.safe_bind]
  rw [safe_send]
  refine ⟨trivial, trivial, fun n => ⟨⟨?_, trivial⟩, trivial, fun x => ⟨⟨?_, trivial⟩, ?_⟩⟩⟩
  · rintro y hy
    cases hy
    exact .create
  · rintro y hy
    cases x with
    | error e => cases hy
    | ok out =>
      obtain ⟨uploadId⟩ := out
      cases uploadId with
      | none => cases hy
      | some uid =>
        cases hy
        exact .opened
  cases x with
  | error e => exact .create
  | ok out =>
    obtain ⟨uploadId⟩ := out
    cases uploadId with
    | none => exact .create
    | some uid =>
      generalize hg : (outlines threshold).next _ _ = g
      show Prog.Safe (outlines threshold) _ (Prog.bind _ _) g
      rw [Prog.safe_bind]
      refine Prog.safe_bufferUnordered trivial (fun _ g' _ => g' = g) ?_ ?_ ?_
      · rintro j g' g'' b rfl h
        exact h
      · intro j l hl
        obtain ⟨c, -, rfl⟩ := List.mem_map.mp (List.mem_of_getElem? hl)
        unfold S3Client.uploadPart
        simp [Monitor.Fine, waypoint, Request.single]
      · rintro g' rfl rs - -
        subst hg
        split
        · rw [Prog.safe_bind]
          exact send_plain rfl fun _ => .opened
        · exact send_marked rfl (fun _ _ => rfl) (fun m => .complete) fun m x => .complete

theorem paginatedList_outline (pfx : String) (recursive : Bool) :
    (self.paginatedList pfx recursive).Safe (outlines threshold) (fun g _ => Outline threshold g) [] := by
  refine Prog.safe_repeat (fun g _ => g = []) ?_ rfl
  rintro g s rfl
  refine ⟨trivial, ?_⟩
  unfold S3Client.listPage
  simp only [Leaf.bind_eq, Leaf.safe_bind, Leaf.safe_send]
  refine ⟨trivial, fun n => ⟨⟨unmarked rfl, trivial⟩, trivial, fun r => ⟨⟨unmarked rfl, trivial⟩, ?_⟩⟩⟩
  cases r with
  | error e => exact .none
  | ok resp =>
    dsimp only [Except.mapError]
    split
    · rfl
    · exact .none

/-- An operation that ends under its guard. -/
theorem ended_outline {h : Half} {a : Acquire} {p : Prog (S3 κ) (S3Result α)}
    (hp : p.Safe (outlines threshold) (fun g _ => Outline threshold g) []) :
    (outlines threshold).triples.Triple (· = [])
      (self.guarded h a (p.bind fun r => (finish r).bind fun _ => .ret r))
      fun g _ => Outline threshold g := by
  rintro g rfl
  refine guarded_outline ?_ fun e => .none
  rw [Prog.safe_bind]
  refine Prog.safe_weaken (fun g r hg => ?_) _ _ hp
  rw [Prog.safe_bind]
  exact finish_outline r hg

/-- **The five operations.** -/
theorem op_outline (op : Op) : (op.program self).Safe (outlines self.config.multipartThreshold.toNat)
    (fun g _ => Outline self.config.multipartThreshold.toNat g) [] := by
  let M : Monitor (S3 κ) := outlines self.config.multipartThreshold.toNat
  let B : List Waypoint → Prop := Outline self.config.multipartThreshold.toNat
  refine op_of_stages (T := M.triples) (A := (· = [])) (B := fun g _ => B g) (C := fun g _ => B g)
    (I := (· = [])) ?_ (fun r g hg => finish_outline r hg) ?_ [] rfl
  · rintro g rfl
    exact (safe_startOp _ _).mpr fun t => ⟨unmarked rfl, rfl⟩
  cases op with
  | put key body =>
    refine ⟨(· = []), ?_, fun _ => ?_, fun _ => ?_⟩
    · exact fun g hg => ⟨unmarked rfl, hg⟩
    · rintro g rfl
      exact multipartPut_outline key body.data
    · rintro g rfl
      exact simplePut_outline key body.data
  | get key =>
    refine ⟨fun g r => B g ∧ ∀ info, r = .ok info → ∃ n,
        g = [.measured info.contentLength, .asked n (.headObject self.config.bucket key)],
      fun g _ => B g, ?_, fun e g hg => hg.1, fun info hlt g hg => rangeGet_outline hg.1, ?_,
      fun d g hg => ⟨unmarked rfl, hg⟩, fun e g hg => hg⟩
    · rintro g rfl
      exact stat_outline key
    · rintro info hlt g ⟨-, hok⟩
      obtain ⟨n, rfl⟩ := hok info rfl
      exact simpleGet_outline (Nat.le_of_not_lt hlt)
  | delete key =>
    exact ended_outline (send_marked rfl (fun _ _ => rfl) (fun n => .delete) fun n x => .delete)
  | head key =>
    rintro g rfl
    exact Prog.safe_weaken (fun g r hg => hg.1) _ _ (stat_outline key)
  | list pfx recursive => exact ended_outline (paginatedList_outline pfx recursive)

end

/-! ## Every run -/

section

variable {threshold : ℕ} {τ : List (Ev (S3 κ))}

theorem exec_outlines : (outlines threshold).exec [] τ = τ.filterMap waypoint := by
  induction τ with
  | nil => rfl
  | cons e τ ih =>
    show (waypoint e).toList ++ (outlines threshold).exec [] τ = (e :: τ).filterMap waypoint
    rw [ih, List.filterMap_cons]
    cases waypoint e <;> rfl

theorem accepts_outlines (h : (outlines threshold).Accepts [] τ) :
    Outline threshold (τ.filterMap waypoint) := by
  induction τ with
  | nil => exact .none
  | cons e τ ih =>
    obtain ⟨hτ, he⟩ := h
    rw [exec_outlines] at he
    rw [List.filterMap_cons]
    cases hm : waypoint e with
    | none => exact ih hτ
    | some x => exact he x hm

end

variable {ι : Type} [DecidableEq κ] [DecidableEq ι] {S : Setup κ ι} {s : Sys κ ι}
  {l : List ((ι × Act κ) × Sys κ ι)}

/-- **Every call keeps to the outline, in every run.** -/
theorem outline_run (h : Run Sys.Step S.init l s) (i : ι) :
    Outline (S.client i).config.multipartThreshold.toNat ((s.procs i).trace.filterMap waypoint) :=
  accepts_outlines (watched_run (op_outline (S.op i)) h).accepts

/-! ## Two requests of one call -/

/-- The requests at which a call that has measured nothing takes effect. -/
def Request.lands : Request → Bool
  | .putObject .. | .deleteObject .. | .getObject _ _ none | .completeMultipartUpload .. => true
  | _ => false

section

variable {threshold : ℕ} {g : List Waypoint} {n n' : ℕ} {r r' : Request}

/-- A call lands at most once. -/
theorem Outline.lands_eq (h : Outline threshold g) (h₁ : .asked n r ∈ g) (h₂ : .asked n' r' ∈ g)
    (hr : r.lands = true) (hr' : r'.lands = true) : n = n' ∧ r = r' := by
  cases h <;> grind [Request.lands]

theorem Outline.head_eq (h : Outline threshold g) {bucket key bucket' key' : String}
    (h₁ : .asked n (.headObject bucket key) ∈ g) (h₂ : .asked n' (.headObject bucket' key') ∈ g) :
    n = n' := by
  cases h <;> grind

theorem Outline.uid_eq (h : Outline threshold g) {uid uid' bucket key : String}
    {parts : List CompletedPart} (h₁ : .opened uid ∈ g)
    (h₂ : .asked n (.completeMultipartUpload bucket key uid' parts) ∈ g) : uid' = uid := by
  cases h <;> grind

/-- A call that is given an upload writes nothing else. -/
theorem Outline.opened_put (h : Outline threshold g) {uid bucket key : String} {d : Bytes}
    {c : Option ChecksumAlgorithm} (h₁ : .opened uid ∈ g) : .asked n (.putObject bucket key d c) ∉ g := by
  cases h <;> grind

/-- A call that lands after its HEAD reads the object, and the HEAD has reported a length that is not
above the threshold. -/
theorem Outline.plain_le (h : Outline threshold g) {bucket key : String}
    (h₁ : .asked n (.headObject bucket key) ∈ g) (h₂ : .asked n' r ∈ g) (hr : r.lands = true) :
    ∃ total ≤ threshold, .measured total ∈ g := by
  cases h <;> grind [Request.lands]

end

end S3o
