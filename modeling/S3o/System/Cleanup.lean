import S3o.System.Advance
import S3o.System.Watch

/-!
# Uploads that are given up

An upload that fails after the service has given it an id is aborted, unless what failed is
`CompleteMultipartUpload` itself: its error is returned as it is.

* `Milestone`, `milestoneOf`, `uploads`: the events of an upload, and their monitor;
* `multipartPut_uploads`, `put_uploads`, `cleaned_run`: what they are when `put_object` returns;
* **`abort_sent_iff`**: the abort is sent before the error is returned exactly when no
  `CompleteMultipartUpload` has failed.
-/

namespace S3o

open Async Lts

variable {κ ι : Type}

/-- The events of an upload. -/
inductive Milestone
  /-- The service has answered with an upload id. -/
  | created (uid : String)
  /-- `AbortMultipartUpload` is sent. -/
  | aborted (bucket key uid : String)
  /-- The service has answered `CompleteMultipartUpload` with an error. -/
  | failed
  deriving DecidableEq

def milestoneOf : Ev (S3 κ) → Option Milestone
  | .answered _ (Await.http (.createMultipartUpload _ _)) (.ok ⟨some uid⟩) => some (.created uid)
  | .sent _ (Await.http (.abortMultipartUpload bucket key uid)) => some (.aborted bucket key uid)
  | .answered _ (Await.http (.completeMultipartUpload _ _ _ _)) (.error _) => some .failed
  | _ => none

/-- The service has given the upload id `uid` to the call. -/
def Proc.Created (q : Proc κ) (uid : String) : Prop :=
  ∃ n bucket key, replied n (.createMultipartUpload bucket key) (.ok ⟨some uid⟩) ∈ q.trace

/-- The call has sent an abort of `uid`. -/
def Proc.Aborted (q : Proc κ) (bucket key uid : String) : Prop :=
  ∃ n, requested n (.abortMultipartUpload bucket key uid) ∈ q.trace

/-- The service has answered a `CompleteMultipartUpload` of the call with an error. -/
def Proc.CompleteFailed (q : Proc κ) : Prop :=
  ∃ n bucket key uid parts e,
    replied n (.completeMultipartUpload bucket key uid parts) (.error e) ∈ q.trace

section

variable {q : Proc κ} {bucket key uid : String}

theorem Proc.created_iff : q.Created uid ↔ .created uid ∈ q.trace.filterMap milestoneOf := by
  rw [List.mem_filterMap]
  constructor
  · rintro ⟨n, b, k, hm⟩
    exact ⟨_, hm, rfl⟩
  · rintro ⟨e, hm, he⟩
    unfold milestoneOf at he
    split at he
    · cases he
      exact ⟨_, _, _, hm⟩
    · cases he
    · cases he
    · cases he

theorem Proc.aborted_iff :
    q.Aborted bucket key uid ↔ .aborted bucket key uid ∈ q.trace.filterMap milestoneOf := by
  rw [List.mem_filterMap]
  constructor
  · rintro ⟨n, hm⟩
    exact ⟨_, hm, rfl⟩
  · rintro ⟨e, hm, he⟩
    unfold milestoneOf at he
    split at he
    · cases he
    · cases he
      exact ⟨_, hm⟩
    · cases he
    · cases he

theorem Proc.completeFailed_iff : q.CompleteFailed ↔ .failed ∈ q.trace.filterMap milestoneOf := by
  rw [List.mem_filterMap]
  constructor
  · rintro ⟨n, b, k, u, ps, e, hm⟩
    exact ⟨_, hm, rfl⟩
  · rintro ⟨e, hm, he⟩
    unfold milestoneOf at he
    split at he
    · cases he
    · cases he
    · exact ⟨_, _, _, _, _, _, hm⟩
    · cases he

end

/-! ## The operations -/

/-- The monitor of milestones. -/
abbrev uploads : Monitor (S3 κ) := .project milestoneOf fun _ => True

/-- **The milestones of a `put_object` of `key` that has returned.** -/
inductive Cleaned (bucket key : String) {α : Type} : List Milestone → S3Result α → Prop
  | noUpload (r) : Cleaned bucket key [] r
  | gaveUp (uid e) : Cleaned bucket key [.aborted bucket key uid, .created uid] (.error e)
  | notCompleted (uid e) : Cleaned bucket key [.failed, .created uid] (.error e)
  | completed (uid v) : Cleaned bucket key [.created uid] (.ok v)

section

variable {self : S3Client κ}

theorem guarded_uploads {α : Type} {h : Half} {a : Acquire} {rest : Prog (S3 κ) (S3Result α)}
    {bucket key : String} (hr : rest.Safe uploads (Cleaned bucket key) []) :
    (self.guarded h a rest).Safe uploads (Cleaned bucket key) [] := by
  rw [safe_guarded]
  refine ⟨trivial, trivial, fun d => ⟨trivial, trivial, ?_⟩, trivial, .noUpload _⟩
  exact Prog.safe_weaken (fun g r hg => ⟨trivial, hg⟩) _ _ hr

theorem simplePut_uploads (key : String) (body : Bytes) :
    (self.simplePut key body).Safe uploads (Cleaned self.config.bucket key) [] := by
  refine guarded_uploads ?_
  simp only [Prog.bind_eq, Prog.pure_eq, Prog.safe_bind, Prog.safe_ret, Prog.safe_clock, Prog.safe_log]
  refine fun t => (safe_send _ _).mpr ⟨trivial, ?_⟩
  simp [Monitor.Solo, milestoneOf, Cleaned.noUpload]

theorem uploadPart_uploads (key uid : String) (pn : ℤ) (chunk : Bytes) (g : List Milestone) :
    (self.uploadPart key uid pn chunk).Safe uploads uploads.Fine (fun g' _ => g' = g) g := by
  unfold S3Client.uploadPart
  simp [Monitor.Fine, milestoneOf]

/-- **`multipart_put`.** -/
theorem multipartPut_uploads (key : String) (body : Bytes) :
    (self.multipartPut key body).Safe uploads (Cleaned self.config.bucket key) [] := by
  refine guarded_uploads ?_
  simp only [Prog.bind_eq, Prog.pure_eq, Prog.safe_bind]
  refine (safe_send _ _).mpr ⟨trivial, (Leaf.safe_send _ _).mpr ⟨trivial, fun n =>
    ⟨⟨trivial, trivial⟩, trivial, fun x => ⟨⟨trivial, trivial⟩, ?_⟩⟩⟩⟩
  cases x with
  | error e => exact .noUpload _
  | ok out =>
    obtain ⟨uploadId⟩ := out
    cases uploadId with
    | none => exact .noUpload _
    | some uid =>
      show Prog.Safe uploads (Cleaned self.config.bucket key) (Prog.bind _ _) [Milestone.created uid]
      rw [Prog.safe_bind]
      refine Prog.safe_bufferUnordered trivial (fun _ g _ => g = [.created uid]) ?_ ?_ ?_
      · rintro j g g' b rfl h
        exact h
      · intro j l hl
        obtain ⟨c, -, rfl⟩ := List.mem_map.mp (List.mem_of_getElem? hl)
        exact uploadPart_uploads key uid c.1 c.2 _
      · rintro g rfl rs _ _
        split
        · rename_i e he
          rw [Prog.safe_bind]
          refine (safe_send _ _).mpr ⟨trivial, (Leaf.safe_send _ _).mpr ⟨trivial, fun n =>
            ⟨⟨trivial, trivial⟩, trivial, fun x => ⟨⟨trivial, trivial⟩, ?_⟩⟩⟩⟩
          exact .gaveUp uid e
        · refine (safe_send _ _).mpr ⟨trivial, (Leaf.safe_send _ _).mpr ⟨trivial, fun n =>
            ⟨⟨trivial, trivial⟩, trivial, fun x => ⟨⟨trivial, trivial⟩, ?_⟩⟩⟩⟩
          cases x with
          | error e => exact .notCompleted uid _
          | ok v => exact .completed uid v

theorem Cleaned.map {β : Type} {bucket key : String} {g : List Milestone} {r : S3Result α} (v : α → β)
    (h : Cleaned bucket key g r) : Cleaned bucket key g (r.map v) := by
  cases h with
  | noUpload => exact .noUpload _
  | gaveUp uid e => exact .gaveUp uid e
  | notCompleted uid e => exact .notCompleted uid e
  | completed uid x => exact .completed uid _

/-- **`put_object`.** -/
theorem put_uploads (key : String) (body : Body) :
    ((Op.put key body).program self).Safe uploads (Cleaned self.config.bucket key) [] := by
  refine op_of_stages (T := uploads.triples) (A := (· = [])) (B := Cleaned self.config.bucket key)
    (C := Cleaned self.config.bucket key) (I := (· = [])) ?_ (fun r g h => ?_) ?_ [] rfl
  · exact fun g hg => (safe_startOp _ _).mpr fun t => ⟨trivial, hg⟩
  · exact safe_finish r _ (fun _ _ _ _ => ⟨trivial, h⟩) fun _ _ _ => ⟨trivial, h⟩
  refine ⟨(· = []), fun g hg => ⟨trivial, hg⟩, fun _ => ?_, fun _ => ?_⟩
  · rintro g rfl
    exact Prog.safe_weaken (fun g r h => h.map _) _ _ (multipartPut_uploads key body.data)
  · rintro g rfl
    exact Prog.safe_weaken (fun g r h => h.map _) _ _ (simplePut_uploads key body.data)

end

/-! ## Every run -/

variable [DecidableEq κ] [DecidableEq ι]

/-- **The milestones of a `put_object` that has returned**, in every run. -/
theorem cleaned_run {S : Setup κ ι} {s : Sys κ ι} {l : List ((ι × Act κ) × Sys κ ι)}
    (h : Run Sys.Step S.init l s) {i : ι} {key : String} {body : Body} (hop : S.op i = .put key body)
    {r : Outcome} (hm : (s.procs i).mode = .ended (some r)) :
    Cleaned (S.client i).config.bucket key ((s.procs i).trace.filterMap milestoneOf) r := by
  have hp : ((S.op i).program (S.client i)).Safe uploads
      (Cleaned (S.client i).config.bucket key) [] := hop ▸ put_uploads key body
  have hresult := (watched_run hp h).result hm
  rw [Monitor.exec_project] at hresult
  simpa using hresult

/-- **The abort of a failed upload.** When `put_object` returns an error after the service has given it
an upload id, it has sent the abort of that id exactly when no `CompleteMultipartUpload` has failed. -/
theorem abort_sent_iff (S : Setup κ ι) {s : Sys κ ι} {l : List ((ι × Act κ) × Sys κ ι)}
    (hr : Run Sys.Step S.init l s) {i : ι} {key : String} {body : Body} (hop : S.op i = .put key body)
    {e : S3Error} (hm : (s.procs i).mode = .ended (some (.error e))) {uid : String}
    (hc : (s.procs i).Created uid) :
    (s.procs i).Aborted (S.client i).config.bucket key uid ↔ ¬ (s.procs i).CompleteFailed := by
  have hclean := cleaned_run hr hop hm
  rw [Proc.created_iff] at hc
  rw [Proc.aborted_iff, Proc.completeFailed_iff]
  generalize (s.procs i).trace.filterMap milestoneOf = g at hclean hc ⊢
  cases hclean with
  | noUpload => cases hc
  | gaveUp uid' => simpa using hc
  | notCompleted uid' => simp

/-- An upload of one byte, and the script that takes it to its end. -/
def putSetup : Setup Unit (Fin 1) := smallSetup fun _ => .put "key" ⟨[0], one_le_isizeMax⟩

def putScript : List (Fin 1 × Cmd) := List.replicate 39 (0, .go)

/-- The service accepts everything but parts. -/
def failingPart (n : ℕ) : ∀ q, (S3 Unit).Ans q
  | Await.http (.uploadPart ..) => .error (.serviceError 500 "internal error")
  | q => sampleAnswer (κ := Unit) [] n q

/-- The service accepts everything but `CompleteMultipartUpload`. -/
def failingComplete (n : ℕ) : ∀ q, (S3 Unit).Ans q
  | Await.http (.completeMultipartUpload ..) => .error (.serviceError 500 "internal error")
  | q => sampleAnswer (κ := Unit) [] n q

theorem abort_sent_part : ∃ l s, Run Sys.Step putSetup.init l s ∧
    (s.procs 0).mode = .ended (some (.error (.backend .serverError "internal error"))) ∧
    (s.procs 0).Aborted "bucket" "key" "upload" := by
  obtain ⟨l, s, hr, hrun⟩ := putSetup.observe failingPart putScript
    (fun s => ((s.procs 0).mode, (s.procs 0).trace.filterMap milestoneOf))
    (v := (.ended (some (.error (.backend .serverError "internal error"))),
      [.aborted "bucket" "key" "upload", .created "upload"])) rfl
  obtain ⟨hm, hmiles⟩ := Prod.mk.inj hrun
  have hc : (s.procs 0).Created "upload" := by
    rw [Proc.created_iff, hmiles]
    decide
  have hf : ¬ (s.procs 0).CompleteFailed := by
    rw [Proc.completeFailed_iff, hmiles]
    decide
  exact ⟨l, s, hr, hm, (abort_sent_iff putSetup hr rfl hm hc).mpr hf⟩

/-- **A failed completion is not followed by an abort.** -/
theorem complete_failed_no_abort : ∃ l s, Run Sys.Step putSetup.init l s ∧
    (s.procs 0).mode = .ended (some (.error (.backend .serverError "internal error"))) ∧
    (s.procs 0).Created "upload" ∧ ∀ bucket key uid, ¬ (s.procs 0).Aborted bucket key uid := by
  obtain ⟨l, s, hr, hrun⟩ := putSetup.observe failingComplete putScript
    (fun s => ((s.procs 0).mode, (s.procs 0).trace.filterMap milestoneOf))
    (v := (.ended (some (.error (.backend .serverError "internal error"))),
      [.failed, .created "upload"])) rfl
  obtain ⟨hm, hmiles⟩ := Prod.mk.inj hrun
  refine ⟨l, s, hr, hm, ?_, fun bucket key uid => ?_⟩
  · rw [Proc.created_iff, hmiles]
    decide
  · rw [Proc.aborted_iff, hmiles]
    simp

end S3o
