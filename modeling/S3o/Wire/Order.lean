import S3o.System.Cleanup
import S3o.System.Served
import S3o.Wire.Upload

/-!
# The order of the requests of an upload

* `UploadOrder`: a creation, the parts in any order, and one last request;
* **`upload_ordered`**: every upload keeps to it, in every run.
-/

namespace S3o

open Async Lts

variable {κ ι : Type}

/-- The id of the upload that a request is for. -/
def Request.uploadId : Request → Option String
  | .uploadPart _ _ uid _ _ _ => some uid
  | .completeMultipartUpload _ _ uid _ => some uid
  | .abortMultipartUpload _ _ uid => some uid
  | _ => none

/-- The request ends an upload. -/
def Request.isLast : Request → Bool
  | .completeMultipartUpload .. | .abortMultipartUpload .. => true
  | _ => false

/-- A part is sent. -/
def Msg.asksPart : Msg → Bool
  | .request (.uploadPart ..) => true
  | _ => false

/-- A part is answered. -/
def Msg.tellsPart : Msg → Bool
  | .reply (.uploadPart ..) _ => true
  | _ => false

/-- **The requests of an upload of `n` parts**, oldest first: a creation, and if it gave an id the parts
`1` to `n` of this upload in any order and its completion or its abort. -/
inductive UploadOrder (self : S3Client κ) (key : String) (n : ℕ) : Option String → List Request → Prop
  | refused : UploadOrder self key n none [.createMultipartUpload self.config.bucket key]
  | whole {ps : List (ℤ × Bytes)} {last : Request} (uid : String) :
      (ps.map Prod.fst).Perm ((List.range n).map fun i : ℕ => (i : ℤ) + 1) →
      (last = .abortMultipartUpload self.config.bucket key uid ∨
        ∃ parts, last = .completeMultipartUpload self.config.bucket key uid parts) →
      UploadOrder self key n (some uid) (.createMultipartUpload self.config.bucket key ::
        (ps.map fun p => .uploadPart self.config.bucket key uid p.1 p.2 self.checksum) ++ [last])

section

variable {self : S3Client κ} {key : String} {body : Bytes} {ms : List Msg}

variable (self key) in
theorem lastRequest_cases (uid : String) (x : ℕ → Except SdkError UploadPartOutput) (js : List ℕ) :
    self.lastRequest key uid x js = .abortMultipartUpload self.config.bucket key uid ∨
      ∃ parts, self.lastRequest key uid x js =
        .completeMultipartUpload self.config.bucket key uid parts := by
  unfold S3Client.lastRequest
  cases firstError x js with
  | some e => exact Or.inl rfl
  | none => exact Or.inr ⟨_, rfl⟩

/-- **The parts of an upload in some order**, and its last request. -/
theorem uploadOrder_parts (hn : self.partCount body < 2 ^ 31) (uid : String) {js : List ℕ}
    (hjs : js.Perm (List.range (self.partCount body))) {last : Request}
    (hlast : last = .abortMultipartUpload self.config.bucket key uid ∨
      ∃ parts, last = .completeMultipartUpload self.config.bucket key uid parts) :
    UploadOrder self key (self.partCount body) (some uid)
      (.createMultipartUpload self.config.bucket key ::
        js.map (self.partRequest key uid body) ++ [last]) := by
  have hps : ((js.map fun j => (asI32 (j + 1),
      slice body (interval self.config.chunkSize.toNat body.length j))).map Prod.fst).Perm
        ((List.range (self.partCount body)).map fun i : ℕ => (i : ℤ) + 1) := by
    rw [List.map_map]
    refine (hjs.map _).trans (List.Perm.of_eq (List.map_congr_left fun j hj => ?_))
    have hj := List.mem_range.mp hj
    rw [Function.comp_apply, asI32_of_lt (by omega)]
  have hreq : (js.map fun j => (asI32 (j + 1),
      slice body (interval self.config.chunkSize.toNat body.length j))).map (fun p =>
        .uploadPart self.config.bucket key uid p.1 p.2 self.checksum) =
          js.map (self.partRequest key uid body) := by
    rw [List.map_map]
    refine List.map_congr_left fun j _ => ?_
    unfold S3Client.partRequest
    rw [Function.comp_apply]
  have h := UploadOrder.whole uid hps hlast
  rw [hreq] at h
  exact h

/-- **What an upload has sent is a part of it from the start.** -/
theorem Transcript.order (h : Transcript self key body ms) (hn : self.partCount body < 2 ^ 31) :
    ∃ uid rs, UploadOrder self key (self.partCount body) uid rs ∧ (requestsOf ms).reverse <+: rs := by
  cases h with
  | idle => exact ⟨none, _, .refused, List.nil_prefix⟩
  | asked => exact ⟨none, _, .refused, List.prefix_rfl⟩
  | refused x hx => exact ⟨none, _, .refused, List.prefix_rfl⟩
  | @sending f ms uid hms =>
    obtain ⟨js, hnodup, hlt, hreq⟩ := hms.requests
    -- the parts that have not been sent may follow
    have hall : (js.reverse ++ (List.range (self.partCount body)).filter (· ∉ js)).Perm
        (List.range (self.partCount body)) := by
      refine (List.perm_ext_iff_of_nodup ?_ List.nodup_range).mpr fun j => ?_
      · refine List.nodup_append.mpr ⟨List.nodup_reverse.mpr hnodup, List.nodup_range.filter _, ?_⟩
        rintro a ha b hb rfl
        have := (List.mem_filter.mp hb).2
        simp only [decide_eq_true_eq] at this
        exact this (List.mem_reverse.mp ha)
      · simp only [List.mem_append, List.mem_reverse, List.mem_filter, List.mem_range,
          decide_eq_true_eq]
        by_cases hj : j ∈ js
        · simp [hj, hlt j hj]
        · simp [hj]
    refine ⟨some uid, _, uploadOrder_parts hn uid hall (Or.inl rfl), ?_⟩
    rw [requestsOf_append, hreq, S3Client.created, requestsOf_reply, requestsOf_request, requestsOf_nil,
      List.reverse_append, List.map_append, ← List.map_reverse, List.reverse_singleton]
    simp
  | @closing f ms x js uid hms hjs =>
    obtain ⟨is, his, hreq⟩ := hms.requests
    refine ⟨some uid, _, uploadOrder_parts hn uid ((List.reverse_perm is).trans his)
      (lastRequest_cases self key uid x js), ?_⟩
    rw [requestsOf_request, requestsOf_append, hreq, S3Client.created, requestsOf_reply,
      requestsOf_request, requestsOf_nil]
    simp
  | @closed f ms x js uid y hms hjs =>
    obtain ⟨is, his, hreq⟩ := hms.requests
    refine ⟨some uid, _, uploadOrder_parts hn uid ((List.reverse_perm is).trans his)
      (lastRequest_cases self key uid x js), ?_⟩
    rw [requestsOf_reply, requestsOf_request, requestsOf_append, hreq, S3Client.created,
      requestsOf_reply, requestsOf_request, requestsOf_nil]
    simp

theorem partCounts (uid : String) (n : ℕ) :
    Counts (self.partRequest key uid body) n Msg.asksPart Msg.tellsPart :=
  ⟨fun _ _ => ⟨rfl, rfl⟩, fun _ _ _ => ⟨rfl, rfl⟩⟩

variable (self key) in
theorem lastRequest_quiet (uid : String) (x : ℕ → Except SdkError UploadPartOutput) (js : List ℕ)
    (y : Except SdkError (self.lastRequest key uid x js).Output) :
    Msg.asksPart (.request (self.lastRequest key uid x js)) = false ∧
      Msg.tellsPart (.request (self.lastRequest key uid x js)) = false ∧
      Msg.asksPart (.reply (self.lastRequest key uid x js) y) = false ∧
      Msg.tellsPart (.reply (self.lastRequest key uid x js) y) = false := by
  have h := lastRequest_cases self key uid x js
  generalize self.lastRequest key uid x js = last at *
  rcases h with rfl | ⟨parts, rfl⟩ <;> exact ⟨rfl, rfl, rfl, rfl⟩

/-- The parts that wait for their reply are at most `write_concurrency`, and none once the last request is
sent. -/
theorem Transcript.outstanding (h : Transcript self key body ms) :
    ms.countP Msg.asksPart ≤ ms.countP Msg.tellsPart + self.config.writeConcurrency.toNat ∧
      (∀ r ∈ requestsOf ms, r.isLast = true → ms.countP Msg.asksPart = ms.countP Msg.tellsPart) := by
  have hcreated : ∀ uid, (self.created key uid).countP Msg.asksPart = 0 ∧
      (self.created key uid).countP Msg.tellsPart = 0 := fun uid => ⟨rfl, rfl⟩
  cases h with
  | idle => exact ⟨Nat.zero_le _, nofun⟩
  | asked => exact ⟨Nat.zero_le _, fun _ _ _ => rfl⟩
  | refused x hx => exact ⟨Nat.zero_le _, fun _ _ _ => rfl⟩
  | @sending f ms uid hms =>
    constructor
    · rw [List.countP_append, List.countP_append, (hcreated uid).1, (hcreated uid).2]
      exact hms.count_le (partCounts uid _)
    · intro r hr hlast
      obtain ⟨js, -, -, hreq⟩ := hms.requests
      rw [requestsOf_append, hreq, List.mem_append] at hr
      rcases hr with hr | hr
      · obtain ⟨j, -, rfl⟩ := List.mem_map.mp hr
        cases hlast
      · obtain rfl := List.mem_singleton.mp hr
        cases hlast
  | @closing f ms x js uid hms hjs =>
    obtain ⟨h₁, h₂, -, -⟩ := lastRequest_quiet self key uid x js (.error (.other ""))
    have heq : (Msg.request (self.lastRequest key uid x js) :: (ms ++ self.created key uid)).countP
        Msg.asksPart = (Msg.request (self.lastRequest key uid x js) :: (ms ++ self.created key uid)).countP
          Msg.tellsPart := by
      simp only [List.countP_cons, List.countP_append, h₁, h₂, (hcreated uid).1, (hcreated uid).2,
        hms.count_eq (partCounts uid _)]
    exact ⟨heq ▸ Nat.le_add_right _ _, fun _ _ _ => heq⟩
  | @closed f ms x js uid y hms hjs =>
    obtain ⟨h₁, h₂, h₃, h₄⟩ := lastRequest_quiet self key uid x js y
    have heq : (Msg.reply (self.lastRequest key uid x js) y :: Msg.request (self.lastRequest key uid x js) ::
        (ms ++ self.created key uid)).countP Msg.asksPart = (Msg.reply (self.lastRequest key uid x js) y ::
          Msg.request (self.lastRequest key uid x js) :: (ms ++ self.created key uid)).countP
            Msg.tellsPart := by
      simp only [List.countP_cons, List.countP_append, h₁, h₂, h₃, h₄, (hcreated uid).1,
        (hcreated uid).2, hms.count_eq (partCounts uid _)]
    exact ⟨heq ▸ Nat.le_add_right _ _, fun _ _ _ => heq⟩

/-- **Every request after the creation is for the upload that this has created.** -/
theorem Transcript.uploadId (h : Transcript self key body ms) {r : Request} (hr : r ∈ requestsOf ms) :
    r = .createMultipartUpload self.config.bucket key ∨ ∃ uid, r.uploadId = some uid ∧
      .reply (.createMultipartUpload self.config.bucket key) (.ok ⟨some uid⟩) ∈ ms := by
  have hparts : ∀ {uid : String} {f ms'}, Exchanges (self.partRequest key uid body)
      (self.partCount body) self.config.writeConcurrency.toNat f ms' →
      r ∈ requestsOf (ms' ++ self.created key uid) →
      r = .createMultipartUpload self.config.bucket key ∨ r.uploadId = some uid := by
    intro uid f ms' hms hr
    obtain ⟨js, -, -, hreq⟩ := hms.requests
    rw [requestsOf_append, hreq, List.mem_append] at hr
    rcases hr with hr | hr
    · obtain ⟨j, -, rfl⟩ := List.mem_map.mp hr
      exact Or.inr rfl
    · exact Or.inl (List.mem_singleton.mp hr)
  have hlast : ∀ uid x js, (self.lastRequest key uid x js).uploadId = some uid := by
    intro uid x js
    rcases lastRequest_cases self key uid x js with h | ⟨parts, h⟩
    · rw [h]
      rfl
    · rw [h]
      rfl
  have hmem : ∀ uid, Msg.reply (.createMultipartUpload self.config.bucket key) (.ok ⟨some uid⟩) ∈
      self.created key uid := fun uid => List.mem_cons_self
  cases h with
  | idle => cases hr
  | asked => exact Or.inl (List.mem_singleton.mp hr)
  | refused x hx => exact Or.inl (List.mem_singleton.mp hr)
  | sending uid hms =>
    exact (hparts hms hr).imp_right fun h => ⟨uid, h, List.mem_append_right _ (hmem uid)⟩
  | @closing f ms x js uid hms hjs =>
    rcases List.mem_cons.mp hr with rfl | hr
    · exact Or.inr ⟨uid, hlast uid x js, List.mem_cons_of_mem _ (List.mem_append_right _ (hmem uid))⟩
    · exact (hparts (hms.exchanges _) hr).imp_right fun h =>
        ⟨uid, h, List.mem_cons_of_mem _ (List.mem_append_right _ (hmem uid))⟩
  | @closed f ms x js uid y hms hjs =>
    have hmem' := List.mem_cons_of_mem (Msg.reply (self.lastRequest key uid x js) y)
      (List.mem_cons_of_mem (Msg.request (self.lastRequest key uid x js))
        (List.mem_append_right ms (hmem uid)))
    rcases List.mem_cons.mp hr with rfl | hr
    · exact Or.inr ⟨uid, hlast uid x js, hmem'⟩
    · exact (hparts (hms.exchanges _) hr).imp_right fun h => ⟨uid, h, hmem'⟩

/-- **What an upload has sent when it returns**: nothing, when it has lost its acquisition, or all of
it. -/
theorem FullTranscript.order {o : Set (List ℕ)} {L : Prop} {r : S3Result Unit}
    (h : FullTranscript self key body o L ms r) (hn : self.partCount body < 2 ^ 31) :
    (L ∧ requestsOf ms = [] ∧ r = .error ((Acquire.bulk self.config.writeConcurrency.toNat).timeoutError
      Half.write.name)) ∨
    ∃ uid, UploadOrder self key (self.partCount body) uid (requestsOf ms).reverse ∧
      ∀ u, uid = some u ↔
        .reply (.createMultipartUpload self.config.bucket key) (.ok ⟨some u⟩) ∈ ms := by
  cases h with
  | lost h => exact Or.inl ⟨h, rfl, rfl⟩
  | refused x hx =>
    refine Or.inr ⟨none, .refused, fun u => ⟨nofun, fun hm => ?_⟩⟩
    rcases List.mem_cons.mp hm with heq | hm
    · cases heq
      exact absurd rfl (hx u)
    · cases List.mem_singleton.mp hm
  | @closed f ms x js _ uid y hms hjs ho he =>
    obtain ⟨is, his, hreq⟩ := hms.requests
    refine Or.inr ⟨some uid, ?_, fun u => ⟨?_, fun hm => ?_⟩⟩
    · have := uploadOrder_parts hn uid ((List.reverse_perm is).trans his)
        (lastRequest_cases self key uid x js)
      rw [requestsOf_reply, requestsOf_request, requestsOf_append, hreq, S3Client.created,
        requestsOf_reply, requestsOf_request, requestsOf_nil]
      simpa using this
    · rintro ⟨⟩
      exact List.mem_cons_of_mem _ (List.mem_cons_of_mem _ (List.mem_append_right _ List.mem_cons_self))
    · have hlast := lastRequest_cases self key uid x js
      generalize self.lastRequest key uid x js = last at *
      rcases List.mem_cons.mp hm with heq | hm
      · cases heq
        rcases hlast with h | ⟨parts, h⟩ <;> cases h
      · rcases List.mem_cons.mp hm with heq | hm
        · cases heq
        · rcases List.mem_append.mp hm with hm | hm
          · obtain ⟨j, hj, heq⟩ := hms.reply hm
            cases heq
          · rcases List.mem_cons.mp hm with heq | hm
            · cases heq
              rfl
            · cases List.mem_singleton.mp hm

end

/-! ## Every run -/

variable [DecidableEq κ] [DecidableEq ι]

/-- **The order of the requests of an upload.** In every run, at every moment, what a multipart
`put_object` has sent is a creation, then parts of the upload it created, each once, at most
`write_concurrency` of them unanswered, then, when none is unanswered, one completion or abort, as far
as it has come. When it returns it has sent all of it, or nothing because it has lost its acquisition. -/
theorem upload_ordered (S : Setup κ ι) {s : Sys κ ι} {l : List ((ι × Act κ) × Sys κ ι)}
    (hr : Run Sys.Step S.init l s) {i : ι} {key : String} {body : Body} (hop : S.op i = .put key body)
    (hpath : (S.client i).config.multipartThreshold.toNat < body.data.length)
    (hn : (S.client i).partCount body.data < 2 ^ 31) :
    let c := S.client i
    let ms := messages (s.procs i).trace
    (∃ uid rs, UploadOrder c key (c.partCount body.data) uid rs ∧ (requestsOf ms).reverse <+: rs) ∧
    (∀ r ∈ requestsOf ms, r = .createMultipartUpload c.config.bucket key ∨
      ∃ uid, r.uploadId = some uid ∧
        .reply (.createMultipartUpload c.config.bucket key) (.ok ⟨some uid⟩) ∈ ms) ∧
    ms.countP Msg.asksPart ≤ ms.countP Msg.tellsPart + c.config.writeConcurrency.toNat ∧
    (∀ r ∈ requestsOf ms, r.isLast = true → ms.countP Msg.asksPart = ms.countP Msg.tellsPart) ∧
    ∀ o, (s.procs i).mode = .ended (some o) →
      (.lost (c.pool, .write) (.bulk c.config.writeConcurrency.toNat) ∈ (s.procs i).trace ∧
        requestsOf ms = [] ∧
        o = .error ((Acquire.bulk c.config.writeConcurrency.toNat).timeoutError Half.write.name)) ∨
      ∃ uid, UploadOrder c key (c.partCount body.data) uid (requestsOf ms).reverse ∧
        ∀ u, uid = some u ↔
          .reply (.createMultipartUpload c.config.bucket key) (.ok ⟨some u⟩) ∈ ms := by
  intro c ms
  obtain ⟨τ, hτ⟩ := follows_run hr i
  rw [hop] at hτ
  have hspec : ((Op.put key body).program (S.client i)).Spec _ _ [] := put_transcript hpath
  have hms : ms = said τ := by
    show messages (s.procs i).trace = said τ
    rw [hτ.trace, messages_events]
  have ht : Transcript c key body.data ms := hms ▸ hτ.reached.always hspec
  refine ⟨ht.order hn, fun r hr => ht.uploadId hr, ht.outstanding.1, ht.outstanding.2, ?_⟩
  intro o ho
  obtain ⟨r, rfl, hfull⟩ := hτ.reached.returned hspec ho
  rw [← hms, ← hτ.trace] at hfull
  rcases hfull.order hn with ⟨hlost, hnone, rfl⟩ | hall
  · exact Or.inl ⟨hlost, hnone, rfl⟩
  · exact Or.inr hall

theorem large_partCount : smallClient.partCount largeBody.data = 2 := by
  unfold S3Client.partCount
  rw [largeBody_length]
  rfl

/-- A long upload that is served and is told its id. -/
theorem bodySetup_told {body : Body} {o : ∀ q, (S3 Unit).Ans q}
    (hpath : smallClient.config.multipartThreshold.toNat < body.data.length)
    (ho : o (Await.http (.createMultipartUpload "bucket" "key")) = .ok ⟨some "upload"⟩) :
    ∃ l s r, Run Sys.Step (bodySetup body).init l s ∧ (s.procs 0).mode = .ended (some r) ∧
      Heeded o (s.procs 0).trace ∧
      .reply (.createMultipartUpload "bucket" "key") (.ok ⟨some "upload"⟩) ∈ messages (s.procs 0).trace := by
  obtain ⟨l, s, r, hr, hm, hheeded⟩ := bodySetup_serves body o
  obtain ⟨τ, hτ⟩ := follows_run hr 0
  have hheard : Heeded o τ.events := hτ.trace ▸ hheeded
  obtain ⟨_, _, _, -, htold⟩ := told_of_heeded hpath (hτ.reached.runs hm) hheard "upload" ho
  rw [← messages_events, ← hτ.trace] at htold
  exact ⟨l, s, r, hr, hm, hheeded, htold⟩

/-- An upload of two parts. -/
theorem upload_ordered_large : ∃ l s r, Run Sys.Step (bodySetup largeBody).init l s ∧
    (s.procs 0).mode = .ended (some r) ∧ UploadOrder smallClient "key" 2 (some "upload")
      (requestsOf (messages (s.procs 0).trace)).reverse := by
  have hpath := large_path
  have hcount := large_partCount
  generalize largeBody = body at hpath hcount ⊢
  obtain ⟨l, s, r, hr, hm, hheeded, htold⟩ := bodySetup_told hpath (o := sampleAnswer [] 0) rfl
  have hlt : smallClient.partCount body.data < 2 ^ 31 := by
    rw [hcount]
    decide
  obtain ⟨-, -, -, -, hend⟩ := upload_ordered (bodySetup body) hr (i := 0) rfl hpath hlt
  rcases hend r hm with ⟨hlost, -⟩ | ⟨uid, horder, huid⟩
  · exact absurd (hheeded _ hlost) id
  · rw [(huid "upload").mpr htold] at horder
    exact ⟨l, s, r, hr, hm, hcount ▸ horder⟩

end S3o
