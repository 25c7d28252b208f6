import S3o.Service.Atomic

/-!
# Uploads in progress

The service may serve a request again, and also when its call has ended. An upload that is closed stays so
all the same, since its id is never given again.

* `Store.Closed`, `Store.Step.closed`: an id that was given and is not in progress;
* `Request.closes`, `closed_run`, `closed_of_reply`: uploads that were completed or aborted are closed;
* `completes_once`, `success_closed`: a call completes one upload, and closes it when it succeeds;
* **`upload_once`**: an upload is completed at most once, and none is left open by a success.
-/

namespace S3o

open Async Lts

variable {κ ι : Type}

/-- The id was given, and is not in progress. -/
def Store.Closed (σ : Store) (uid : String) : Prop := uid ∈ σ.used ∧ σ.uploads uid = none

/-- **A closed upload stays closed.** -/
theorem Store.Step.closed {σ σ' : Store} {r : Request} (h : σ.Step r σ') {uid : String}
    (hc : σ.Closed uid) : σ'.Closed uid := by
  obtain ⟨hu, hn⟩ := hc
  refine ⟨h.used hu, ?_⟩
  have hset : ∀ (uid' : String) (x : Option Upload), (uid = uid' → x = none) →
      Function.update σ.uploads uid' x uid = none := by
    intro uid' x hx
    by_cases he : uid = uid'
    · subst he
      rw [Function.update_self, hx rfl]
    · rw [Function.update_of_ne he, hn]
  cases h with
  | create hnew =>
    refine hset _ _ fun he => absurd hu ?_
    rw [he]
    exact hnew
  | part hup =>
    refine hset _ _ fun he => ?_
    have hsome := (Store.upload_eq hup).1
    rw [← he, hn] at hsome
    cases hsome
  | complete => exact hset _ _ fun _ => rfl
  | abort => exact hset _ _ fun _ => rfl
  | _ => exact hn

/-- The upload that a request puts an end to. -/
def Request.closes : Request → Option String
  | .completeMultipartUpload _ _ uid _ | .abortMultipartUpload _ _ uid => some uid
  | _ => none

theorem serve_closes {σ σ' : Store} {c : Choice} {r : Request} {o : r.Output}
    (h : σ.serve c r = some (o, σ')) {uid : String} (hu : r.closes = some uid) :
    σ'.uploads uid = none := by
  cases r with
  | completeMultipartUpload bucket key uid' parts =>
    cases hu
    obtain ⟨u, -, h⟩ := Option.bind_eq_some_iff.mp h
    obtain ⟨l, -, h⟩ := Option.map_eq_some_iff.mp h
    cases h
    exact Function.update_self ..
  | abortMultipartUpload bucket key uid' =>
    cases hu
    cases h
    exact Function.update_self ..
  | _ => cases hu

theorem known_of_closes {self : S3Client κ} {op : Op} {past : Set (Ev (S3 κ))} {r : Request}
    (h : Honest self op past r) {uid : String} (hu : r.closes = some uid) :
    ∃ bucket key, Known past bucket key uid := by
  cases r with
  | completeMultipartUpload bucket key uid' parts =>
    cases hu
    obtain ⟨body, -, -, hk, -⟩ := h
    exact ⟨bucket, key, hk⟩
  | abortMultipartUpload bucket key uid' =>
    cases hu
    obtain ⟨body, -, -, hk⟩ := h
    exact ⟨bucket, key, hk⟩
  | _ => cases hu

variable [DecidableEq κ] [DecidableEq ι] {S : Setup κ ι} {w w' : World κ ι}
  {l : List (World.Label κ ι × World κ ι)} {objects : String × String → Option Bytes}

/-- The call has been served a completion. -/
def World.Label.completes (i : ι) : World.Label κ ι → Bool
  | .serve j _ (.completeMultipartUpload ..) => decide (j = i)
  | _ => false

theorem closed_step {x : World.Label κ ι} (h : World.Step w x w') {uid : String}
    (hc : w.store.Closed uid) : w'.store.Closed uid := by
  cases h with
  | call hs ha => exact hc
  | serve hq hserve => exact (Store.serve_step hserve).closed hc

/-- **An upload that was completed or aborted is closed.** -/
theorem closed_run (h : Run World.Step (S.world objects) l w) {i : ι} {n : ℕ} {r : Request}
    {uid : String} (hu : r.closes = some uid) {m : World κ ι} (hm : (.serve i n r, m) ∈ l) :
    w.store.Closed uid := by
  induction h with
  | nil => cases hm
  | @snoc l w x t hr hs ih =>
    rcases List.mem_cons.mp hm with heq | hm
    · cases heq
      cases hs with
      | serve hq hserve =>
        obtain ⟨bucket, key, hk⟩ := known_of_closes (honest_request hr hq) hu
        have hused := (intact_run hr).used _ _ _ _ (created_of_known hr hk)
        exact ⟨(Store.serve_step hserve).used hused, serve_closes hserve hu⟩
    · exact closed_step hs (ih hm)

/-- **A call that was told so has closed the upload.** -/
theorem closed_of_reply (h : Run World.Step (S.world objects) l w) {i : ι} {n : ℕ} {r : Request}
    {o : r.Output} (hrep : replied n r (.ok o) ∈ (w.sys.procs i).trace) {uid : String}
    (hu : r.closes = some uid) : w.store.Closed uid := by
  obtain ⟨l₁, m, m', c, -, hserve, -⟩ := landed_run h ((recorded_run h).known i n _ _ hrep).1 (Or.inr hrep)
  exact closed_run h hu hserve

omit [DecidableEq κ] in
theorem World.Label.completes_cases {i : ι} {x : World.Label κ ι} (h : x.completes i = true) :
    ∃ n bucket key uid parts, x = .serve i n (.completeMultipartUpload bucket key uid parts) := by
  unfold World.Label.completes at h
  split at h
  · obtain rfl := of_decide_eq_true h
    exact ⟨_, _, _, _, _, rfl⟩
  · cases h

theorem asked_of_served (h : Run World.Step (S.world objects) l w) {i : ι} {n : ℕ} {r : Request}
    {m : World κ ι} (hm : (.serve i n r, m) ∈ l) : requested n r ∈ (w.sys.procs i).trace := by
  induction h with
  | nil => cases hm
  | @snoc l w x t hr hs ih =>
    rcases List.mem_cons.mp hm with heq | hold
    · cases heq
      cases hs with
      | serve hq hserve => exact hq
    · cases hs with
      | call hs ha =>
        dsimp only
        rw [(hs.trace_eq i).1]
        exact List.mem_append_right _ (ih hold)
      | serve hq hserve => exact ih hold

/-- **A call completes its upload at most once.** -/
theorem completes_once (h : Run World.Step (S.world objects) l w) (i : ι) :
    l.countP (fun x => x.1.completes i) ≤ 1 := by
  induction h with
  | nil => exact Nat.zero_le 1
  | @snoc l w x t hr hs ih =>
    rw [List.countP_cons]
    split_ifs with hx
    · -- an earlier completion was of the same upload, which is closed
      have hnone : l.countP (fun x => x.1.completes i) = 0 := by
        rw [List.countP_eq_zero]
        rintro ⟨y, m⟩ hy hcomp
        obtain ⟨n, bucket, key, uid, parts, rfl⟩ := World.Label.completes_cases hx
        obtain ⟨n', bucket', key', uid', parts', rfl⟩ := World.Label.completes_cases hcomp
        cases hs with
        | serve hq hserve =>
          obtain ⟨l', hsys⟩ := World.sys_run hr
          obtain ⟨-, heq⟩ := (outline_run hsys i).lands_eq (asked_mem hq rfl)
            (asked_mem (asked_of_served hr hy) rfl) rfl rfl
          cases heq
          obtain ⟨u, hu, -⟩ := Option.bind_eq_some_iff.mp hserve
          have hsome := (Store.upload_eq hu).1
          rw [(closed_run hr rfl hy).2] at hsome
          cases hsome
      omega
    · exact ih

omit [DecidableEq κ] in
theorem opened_mem {q : Proc κ} {bucket key uid : String} (h : Known q.past bucket key uid) :
    .opened uid ∈ q.trace.filterMap waypoint := by
  obtain ⟨n, hn⟩ := h
  exact List.mem_filterMap.mpr ⟨_, hn, rfl⟩

/-- **A success leaves no upload open.** -/
theorem success_closed (h : Run World.Step (S.world objects) l w) {i : ι} {key : String} {body : Body}
    {v : Value} (hop : S.op i = .put key body) (hm : (w.sys.procs i).mode = .ended (some (.ok v)))
    {bucket' key' uid : String} (hk : Known (w.sys.procs i).past bucket' key' uid) :
    w.store.Closed uid := by
  obtain ⟨l', hsys⟩ := World.sys_run h
  have hopened := opened_mem hk
  have ho := outline_run hsys i
  have hset := settled_run hsys hm
  rw [hop] at hset
  obtain ⟨-, ⟨n, c, hrep⟩ | ⟨n, uid', parts, hrep⟩⟩ := hset
  · have hq := (recorded_run h).asked i n _ _ ((recorded_run h).known i n _ _ hrep).1
    exact absurd (asked_mem hq rfl) (ho.opened_put hopened)
  · have hq := (recorded_run h).asked i n _ _ ((recorded_run h).known i n _ _ hrep).1
    obtain rfl := ho.uid_eq hopened (asked_mem hq rfl)
    exact closed_of_reply h hrep rfl

/-- **Uploads are completed at most once, and a success leaves none open.** However often the service
serves a request, and whenever it does: an upload is completed at most once for each call, it is closed
from then on, and when `put_object` has returned a success no upload whose id it was told is in
progress. -/
theorem upload_once (S : Setup κ ι) (objects : String × String → Option Bytes)
    (h : Run World.Step (S.world objects) l w) (i : ι) :
    l.countP (fun x => x.1.completes i) ≤ 1 ∧
    (∀ n bucket key uid parts m,
      (.serve i n (.completeMultipartUpload bucket key uid parts), m) ∈ l → w.store.Closed uid) ∧
    ∀ key body v, S.op i = .put key body → (w.sys.procs i).mode = .ended (some (.ok v)) →
      ∀ bucket key uid, Known (w.sys.procs i).past bucket key uid → w.store.Closed uid := by
  refine ⟨completes_once h i, fun n bucket key uid parts m hm => closed_run h rfl hm, ?_⟩
  exact fun key body v hop hm bucket' key' uid hk => success_closed h hop hm hk

/-- An upload, and a call that deletes the object. -/
def uploadSetup : Setup Unit (Fin 2) :=
  smallSetup fun i => if i = 0 then .put "key" ⟨[0], one_le_isizeMax⟩ else .delete "key"

/-- The upload of one part, whose first request is served once more when it has returned. -/
theorem upload_once_late : ∃ l w, Run World.Step (uploadSetup.world fun _ => none) l w ∧
    l.countP (fun x => x.1.completes 0) ≤ 1 ∧ (w.store.uploads "late").isSome = true ∧
    ∀ bucket key uid, Known (w.sys.procs 0).past bucket key uid → w.store.Closed uid := by
  obtain ⟨l, w, h, hw⟩ := uploadSetup.play (fun _ => none)
    (uploadScript 0 "id" ++ [.serve 0 0 (plainChoice "late")]) rfl
  have hrun : (exec (World.cmd fun _ => true) (uploadSetup.world fun _ => none)
      (uploadScript 0 "id" ++ [.serve 0 0 (plainChoice "late")])).map
      (fun w => ((w.sys.procs 0).mode, (w.store.uploads "late").isSome)) =
      some (.ended (some (.ok .unit)), true) := rfl
  rw [hw] at hrun
  obtain ⟨hm, hlate⟩ := Prod.mk.inj (Option.some.inj hrun)
  obtain ⟨honce, -, hclosed⟩ := upload_once uploadSetup (fun _ => none) h 0
  exact ⟨l, w, h, honce, hlate, hclosed "key" ⟨[0], one_le_isizeMax⟩ _ rfl hm⟩

end S3o
