import S3o.Service.Uploads
import S3o.System.Pairing

/-!
# Uploads that are left open

An upload that is in progress at the service was asked for by a `put_object`. This call runs, was dropped,
was never told the id, or has returned an error since the service has refused to complete the upload or to
abort it. Nothing else leaves an upload behind.

* `World.Opened`, `opened_run`: an upload in progress has one call that has asked for it;
* `Proc.Refused`, `refused_of_error`: a call that leaves its upload open was refused;
* **`uploads_left_open`**: why an upload is in progress.
-/

namespace S3o

open Async Lts

variable {κ ι : Type}

/-! ## Whose upload it is -/

/-- **What the uploads in progress are**: their ids were given, and one call has asked for each. -/
def World.Opened (w : World κ ι) : Prop :=
  ∀ uid u, w.store.uploads uid = some u → uid ∈ w.store.used ∧
    ∃ i n, requested n (.createMultipartUpload u.bucket u.key) ∈ (w.sys.procs i).trace ∧
      ∀ j bucket key, w.Created j bucket key uid → j = i

theorem Store.Step.opened {σ σ' : Store} {r : Request} (h : σ.Step r σ') {uid : String} {u : Upload}
    (hu : σ'.uploads uid = some u) :
    (∃ u₀, σ.uploads uid = some u₀ ∧ u₀.bucket = u.bucket ∧ u₀.key = u.key) ∨
      uid ∉ σ.used ∧ uid ∈ σ'.used ∧ r = .createMultipartUpload u.bucket u.key := by
  have hset : ∀ (uid' : String) (x : Option Upload), Function.update σ.uploads uid' x uid = some u →
      (∃ u₀, σ.uploads uid = some u₀ ∧ u₀.bucket = u.bucket ∧ u₀.key = u.key) ∨
        uid = uid' ∧ x = some u := by
    intro uid' x hx
    by_cases huid : uid = uid'
    · subst huid
      rw [Function.update_self] at hx
      exact Or.inr ⟨rfl, hx⟩
    · rw [Function.update_of_ne huid] at hx
      exact Or.inl ⟨u, hx, rfl, rfl⟩
  cases h with
  | create hnew =>
    rcases hset _ _ hu with hold | ⟨rfl, hx⟩
    · exact Or.inl hold
    · cases hx
      exact Or.inr ⟨hnew, List.mem_cons_self, rfl⟩
  | part hup =>
    rcases hset _ _ hu with hold | ⟨rfl, hx⟩
    · exact Or.inl hold
    · cases hx
      exact Or.inl ⟨_, (Store.upload_eq hup).1, rfl, rfl⟩
  | complete =>
    rcases hset _ _ hu with hold | ⟨-, hx⟩
    · exact Or.inl hold
    · cases hx
  | abort =>
    rcases hset _ _ hu with hold | ⟨-, hx⟩
    · exact Or.inl hold
    · cases hx
  | _ => exact Or.inl ⟨u, hu, rfl, rfl⟩

theorem World.Created.before {w : World κ ι} {i j : ι} {n : ℕ} {r : Request} {c : Choice} {o : r.Output}
    {σ : Store} {bucket key uid : String} (hs : w.store.serve c r = some (o, σ))
    (h : World.Created ⟨w.sys, σ, (i, n, ⟨r, o⟩) :: w.replies⟩ j bucket key uid) :
    w.Created j bucket key uid ∨ j = i ∧ uid ∉ w.store.used := by
  obtain ⟨m, hm⟩ := h
  rcases List.mem_cons.mp hm with heq | hm
  · cases heq
    exact Or.inr ⟨rfl, (serve_create hs).1⟩
  · exact Or.inl ⟨m, hm⟩

variable [DecidableEq κ] [DecidableEq ι] {S : Setup κ ι} {w : World κ ι}
  {l : List (World.Label κ ι × World κ ι)} {objects : String × String → Option Bytes}

/-- **Every upload in progress has one call, in every run.** -/
theorem opened_run (h : Run World.Step (S.world objects) l w) : w.Opened := by
  refine h.history (I := fun _ w => w.Opened) (fun uid u hu => by cases hu) ?_
  intro l w x t hr hI hs uid u hu
  cases hs with
  | call hs ha =>
    obtain ⟨hused, i, n, hq, hone⟩ := hI uid u hu
    refine ⟨hused, i, n, ?_, hone⟩
    dsimp only
    rw [(hs.trace_eq i).1]
    exact List.mem_append_right _ hq
  | @serve i n r c o σ hq hserve =>
    have hstep := Store.serve_step hserve
    rcases hstep.opened hu with ⟨u₀, hu₀, hb, hk⟩ | ⟨hnew, hused, rfl⟩
    · obtain ⟨hused, j, m, hask, hone⟩ := hI uid u₀ hu₀
      refine ⟨hstep.used hused, j, m, hb ▸ hk ▸ hask, fun j' bucket key hc => ?_⟩
      rcases hc.before hserve with hold | ⟨-, hnew⟩
      · exact hone j' bucket key hold
      · exact absurd hused hnew
    · refine ⟨hused, i, n, hq, fun j' bucket key hc => ?_⟩
      rcases hc.before hserve with hold | ⟨hj, -⟩
      · exact absurd ((intact_run hr).used _ _ _ _ hold) hnew
      · exact hj

/-! ## What becomes of it -/

def Proc.Refused (q : Proc κ) (uid : String) : Prop :=
  ∃ n r e, r.closes = some uid ∧ replied n r (.error e) ∈ q.trace

/-- **A call that has failed and leaves its upload open was refused**: it waits for the reply to its abort,
as for that to its completion. -/
theorem refused_of_error (h : Run World.Step (S.world objects) l w) {i : ι} {key : String} {body : Body}
    (hop : S.op i = .put key body) {e : S3Error} (hm : (w.sys.procs i).mode = .ended (some (.error e)))
    {bucket' key' uid : String} (hk : Known (w.sys.procs i).past bucket' key' uid)
    (hopen : ¬ w.store.Closed uid) : (w.sys.procs i).Refused uid := by
  obtain ⟨l', hsys⟩ := World.sys_run h
  have hcreated : .created uid ∈ (w.sys.procs i).trace.filterMap milestoneOf := by
    obtain ⟨n, hn⟩ := hk
    exact Proc.created_iff.mp ⟨n, _, _, hn⟩
  have hclean := cleaned_run hsys hop hm
  generalize hg : (w.sys.procs i).trace.filterMap milestoneOf = g at hclean hcreated
  cases hclean with
  | noUpload => cases hcreated
  | gaveUp uid' =>
    obtain rfl : uid = uid' := by simpa using hcreated
    obtain ⟨n, hn⟩ : (w.sys.procs i).Aborted (S.client i).config.bucket key uid := by
      rw [Proc.aborted_iff, hg]
      exact List.mem_cons_self
    obtain ⟨x, hx⟩ := (paired_run hsys i).reply hm hn
    cases x with
    | error e' => exact ⟨n, _, e', rfl, hx⟩
    | ok o => exact absurd (closed_of_reply h hx rfl) hopen
  | notCompleted uid' =>
    obtain ⟨n, b, k, uid'', parts, e', hx⟩ : (w.sys.procs i).CompleteFailed := by
      rw [Proc.completeFailed_iff, hg]
      exact List.mem_cons_self
    have hask : requested n (.completeMultipartUpload b k uid'' parts) ∈ (w.sys.procs i).trace :=
      (honest_run hsys i).honest _ hx
    obtain rfl := (outline_run hsys i).uid_eq (opened_mem hk) (asked_mem hask rfl)
    exact ⟨n, _, e', rfl, hx⟩

/-- **Why an upload of the call is in progress.** -/
inductive Proc.Excuse (q : Proc κ) (bucket key uid : String) : Prop
  /-- The call has not ended. -/
  | running : q.hasEnded = false → Excuse q bucket key uid
  /-- Its future was dropped. -/
  | dropped : q.mode = .ended none → Excuse q bucket key uid
  /-- It was not told the id. -/
  | untold : ¬ Known q.past bucket key uid → Excuse q bucket key uid
  /-- The service has refused to complete the upload, or to abort it. -/
  | refused {e} : q.mode = .ended (some (.error e)) → q.Refused uid → Excuse q bucket key uid

theorem excuse_of_open (h : Run World.Step (S.world objects) l w) {i : ι} {key : String} {body : Body}
    (hop : S.op i = .put key body) {bucket' key' uid : String} (hopen : ¬ w.store.Closed uid) :
    (w.sys.procs i).Excuse bucket' key' uid := by
  by_cases hk : Known (w.sys.procs i).past bucket' key' uid
  · cases hend : (w.sys.procs i).hasEnded with
    | false => exact .running hend
    | true =>
      obtain ⟨r, hm⟩ := Proc.hasEnded_iff.mp hend
      cases r with
      | none => exact .dropped hm
      | some r =>
        cases r with
        | ok v => exact absurd (success_closed h hop hm hk) hopen
        | error e => exact .refused hm (refused_of_error h hop hm hk hopen)
  · exact .untold hk

/-- **Why an upload is in progress.** However the calls and the service are interleaved, and however often
the service serves a request: an upload that is in progress was asked for by a `put_object` of its object,
its parts are chunks of the body of this call, and the call has not ended, or was dropped, or was not told
the id, or has returned an error after the service has refused to complete the upload or to abort it. -/
theorem uploads_left_open (S : Setup κ ι) (objects : String × String → Option Bytes)
    (h : Run World.Step (S.world objects) l w) {uid : String} {u : Upload}
    (hu : w.store.uploads uid = some u) :
    ∃ i body, S.op i = .put u.key body ∧ (S.client i).config.bucket = u.bucket ∧
      (∀ pn etag d, u.parts pn = some (etag, d) → (pn, d) ∈ (S.client i).chunks body.data) ∧
      (w.sys.procs i).Excuse u.bucket u.key uid := by
  obtain ⟨-, i, n, hask, hone⟩ := opened_run h uid u hu
  obtain ⟨body, hop, hb⟩ := honest_request h hask
  refine ⟨i, body, hop, hb.symm, fun pn etag d hp => ?_, excuse_of_open h hop fun hc => ?_⟩
  · obtain ⟨j, body', hj, hopj, hchunk⟩ := (intact_run h).parts uid u hu pn etag d hp
    obtain rfl := hone _ _ _ hj
    rw [hop] at hopj
    cases hopj
    exact hchunk
  · rw [hc.2] at hu
    cases hu

def lostScript : List (World.Cmd (Fin 2)) :=
  List.replicate 18 (.go 0) ++ .serve 0 0 (plainChoice "id") :: List.replicate 5 (.go 0) ++
    .serve 0 1 (plainChoice "id") :: List.replicate 16 (.go 0)

theorem uploads_left_open_lost : ∃ l w u, Run World.Step (uploadSetup.world fun _ => none) l w ∧
    (w.sys.procs 0).mode = .ended (some (.error (.backend .other "no reply"))) ∧
    w.store.uploads "id" = some u ∧ ∃ i body, uploadSetup.op i = .put u.key body ∧
      (w.sys.procs i).Excuse u.bucket u.key "id" := by
  obtain ⟨l, w, h, hw⟩ := uploadSetup.play (fun _ => none) lostScript rfl
  have hrun : (exec (World.cmd fun _ => true) (uploadSetup.world fun _ => none) lostScript).map
      (fun w => ((w.sys.procs 0).mode, (w.store.uploads "id").isSome)) =
      some (.ended (some (.error (.backend .other "no reply"))), true) := rfl
  rw [hw] at hrun
  obtain ⟨hm, hsome⟩ := Prod.mk.inj (Option.some.inj hrun)
  obtain ⟨u, hu⟩ := Option.isSome_iff_exists.mp hsome
  obtain ⟨i, body, hop, -, -, hex⟩ := uploads_left_open uploadSetup (fun _ => none) h hu
  exact ⟨l, w, u, h, hm, hu, i, body, hop, hex⟩

end S3o
