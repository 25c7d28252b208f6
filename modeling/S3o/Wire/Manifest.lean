import S3o.Wire.Order

/-!
# The manifest of an upload

* `partRequest_eq`: part `j` carries the bytes from `j * chunk_size` on;
* `lastRequest_complete`, `lastRequest_abort`: which request ends an upload, and its manifest;
* **`manifest_exact`**: an upload is completed exactly when every part has an etag, and otherwise aborted
  and returned with the error of the first part that failed.
-/

namespace S3o

open Async Lts

variable {κ ι : Type}

section

variable {self : S3Client κ} {key uid : String} {body : Body} {ms ms' : List Msg}
  {x : ℕ → Except SdkError UploadPartOutput} {js : List ℕ} {f : ℕ → List Msg} {j : ℕ}

/-- **Part `j` carries the bytes from `j * chunk_size` on.** -/
theorem partRequest_eq (hn : self.partCount body.data ≤ maxParts) (hj : j < self.partCount body.data) :
    self.partRequest key uid body.data j = .uploadPart self.config.bucket key uid (j + 1)
      (window body.data (j * self.config.chunkSize.toNat)
        (min ((j + 1) * self.config.chunkSize.toNat) body.data.length)) self.checksum := by
  obtain ⟨hint, hlt⟩ := interval_eq (chunkSize_pos self) self.config.chunkSize.toNat_lt body.len_le hj
  unfold S3Client.partRequest
  rw [hint, Nat.min_eq_left hlt.le, asI32_succ (hj.le.trans hn)]
  rfl

theorem partRequest_inj (hn : self.partCount body.data ≤ maxParts) {i : ℕ}
    (hi : i < self.partCount body.data) (hj : j < self.partCount body.data)
    (h : self.partRequest key uid body.data i = self.partRequest key uid body.data j) : i = j := by
  rw [partRequest_eq hn hi, partRequest_eq hn hj] at h
  have := (Request.uploadPart.inj h).2.2.2.1
  omega

/-- The manifest of the etags of the parts. -/
def manifest (x : ℕ → Except SdkError UploadPartOutput) (n : ℕ) : List CompletedPart :=
  (List.range n).map fun j : ℕ => ⟨(j : ℤ) + 1, partTag (x j)⟩

/-- **The manifest lists every part once, in order**, and is sent when no part has failed. -/
theorem lastRequest_complete (hn : self.partCount body.data ≤ maxParts)
    (hjs : js.Perm (List.range (self.partCount body.data))) {parts : List CompletedPart} :
    self.lastRequest key uid x js = .completeMultipartUpload self.config.bucket key uid parts ↔
      (∀ j, j < self.partCount body.data → ∃ etag, x j = .ok ⟨some etag⟩) ∧
        parts = manifest x (self.partCount body.data) := by
  have hall : firstError x js = none ↔
      ∀ j, j < self.partCount body.data → ∃ etag, x j = .ok ⟨some etag⟩ := by
    rw [firstError_eq_none]
    exact forall_congr' fun j => by rw [hjs.mem_iff, List.mem_range]
  have hsort : S3Client.sortParts (js.map fun j => ⟨asI32 (j + 1), partTag (x j)⟩) =
      manifest x (self.partCount body.data) := by
    have hnum : ∀ i, i < self.partCount body.data → asI32 (i + 1) = i + 1 :=
      fun i hi => asI32_succ (hi.le.trans hn)
    have hpart : ∀ i, i < self.partCount body.data → CompletedPart.partNumber
        ((fun j => ⟨asI32 (j + 1), partTag (x j)⟩ : ℕ → CompletedPart) i) = i + 1 := by
      intro i hi
      dsimp only
      exact hnum i hi
    rw [sortParts_range hjs _ hpart]
    refine List.map_congr_left fun j hj => ?_
    rw [hnum j (List.mem_range.mp hj)]
  unfold S3Client.lastRequest
  rw [← hall, hsort]
  cases firstError x js with
  | some e => exact ⟨nofun, fun h => nomatch h.1⟩
  | none => exact ⟨fun h => ⟨rfl, (Request.completeMultipartUpload.inj h).2.2.2.symm⟩,
      fun h => h.2 ▸ rfl⟩

theorem lastRequest_abort : self.lastRequest key uid x js =
    .abortMultipartUpload self.config.bucket key uid ↔ ∃ e, firstError x js = some e := by
  unfold S3Client.lastRequest
  cases firstError x js with
  | some e => exact ⟨fun _ => ⟨e, rfl⟩, fun _ => rfl⟩
  | none => exact ⟨nofun, fun h => nomatch h⟩

/-- **The reply to part `j`** is the one that the stream has received. -/
theorem part_reply (hn : self.partCount body.data ≤ maxParts)
    (hms : Exchanged (self.partRequest key uid body.data) (self.partCount body.data) x f ms)
    (hj : j < self.partCount body.data) {y : Except SdkError UploadPartOutput} :
    Msg.reply (.uploadPart self.config.bucket key uid (j + 1)
      (window body.data (j * self.config.chunkSize.toNat)
        (min ((j + 1) * self.config.chunkSize.toNat) body.data.length)) self.checksum) y ∈ ms ↔
      y = x j := by
  have hsaid : Msg.reply (.uploadPart self.config.bucket key uid (j + 1)
      (window body.data (j * self.config.chunkSize.toNat)
        (min ((j + 1) * self.config.chunkSize.toNat) body.data.length)) self.checksum) y =
      Msg.reply (self.partRequest key uid body.data j) y := by
    obtain ⟨hint, hlt⟩ := interval_eq (chunkSize_pos self) self.config.chunkSize.toNat_lt body.len_le hj
    unfold S3Client.partRequest
    rw [hint, Nat.min_eq_left hlt.le, asI32_succ (hj.le.trans hn)]
    rfl
  rw [hsaid]
  constructor
  · intro h
    obtain ⟨i, hi, heq⟩ := hms.reply h
    obtain ⟨hreq, hy⟩ := Sigma.mk.inj heq
    obtain rfl := partRequest_inj hn hj hi hreq
    exact eq_of_heq hy
  · rintro rfl
    exact hms.mem hj

/-- **What an upload has said when its last request is sent**: the replies of its parts, and that
request. -/
structure Concluded (c : S3Client κ) (key uid : String) (body : Body)
    (x : ℕ → Except SdkError UploadPartOutput) (js : List ℕ) (ms : List Msg) : Prop where
  replies : ∀ j, j < c.partCount body.data → ∀ y : Except SdkError UploadPartOutput,
    Msg.reply (.uploadPart c.config.bucket key uid (j + 1)
      (window body.data (j * c.config.chunkSize.toNat)
        (min ((j + 1) * c.config.chunkSize.toNat) body.data.length)) c.checksum) y ∈ ms ↔
      y = x j
  order : js.Perm (List.range (c.partCount body.data))
  last : ∀ r, r.isLast = true → (.request r ∈ ms ↔ r = c.lastRequest key uid x js)
  created : ∀ u, .reply (.createMultipartUpload c.config.bucket key) (.ok ⟨some u⟩) ∈ ms ↔ u = uid

theorem concluded_of (hn : self.partCount body.data ≤ maxParts)
    (hms : Exchanged (self.partRequest key uid body.data) (self.partCount body.data) x f ms)
    (hjs : js.Perm (List.range (self.partCount body.data)))
    (hend : Exchange (self.lastRequest key uid x js) ms') (hne : ms' ≠ []) :
    Concluded self key uid body x js (ms' ++ (ms ++ self.created key uid)) := by
  have hlast := lastRequest_cases self key uid x js
  have hsent : .request (self.lastRequest key uid x js) ∈ ms' := hend.sent hne
  generalize hl : self.lastRequest key uid x js = last at hlast hend hsent
  refine ⟨fun j hj y => ?_, hjs, fun r hr => ⟨fun h => ?_, ?_⟩, fun u => ⟨fun h => ?_, ?_⟩⟩
  · rw [← part_reply hn hms hj, List.mem_append, List.mem_append]
    refine ⟨fun h => ?_, fun h => Or.inr (Or.inl h)⟩
    rcases h with h | h | h
    · rcases hend.mem h with heq | ⟨z, heq⟩
      · cases heq
      · cases heq
        rcases hlast with h | ⟨parts, h⟩ <;> cases h
    · exact h
    · rcases List.mem_cons.mp h with heq | h
      · cases heq
      · cases List.mem_singleton.mp h
  · rcases List.mem_append.mp h with h | h
    · rcases hend.mem h with heq | ⟨z, heq⟩
      · cases heq
        exact hl.symm
      · cases heq
    · rcases List.mem_append.mp h with h | h
      · obtain ⟨j, hj, heq | ⟨z, heq⟩⟩ := (hms.exchanges 0).mem h
        · cases heq
          cases hr
        · cases heq
      · rcases List.mem_cons.mp h with heq | h
        · cases heq
        · cases List.mem_singleton.mp h
          cases hr
  · rintro rfl
    rw [hl]
    exact List.mem_append_left _ hsent
  · rcases List.mem_append.mp h with h | h
    · rcases hend.mem h with heq | ⟨z, heq⟩
      · cases heq
      · cases heq
        rcases hlast with h | ⟨parts, h⟩ <;> cases h
    · rcases List.mem_append.mp h with h | h
      · obtain ⟨j, hj, heq⟩ := hms.reply h
        cases heq
      · rcases List.mem_cons.mp h with heq | h
        · cases heq
          rfl
        · cases List.mem_singleton.mp h
  · rintro rfl
    exact List.mem_append_right _ (List.mem_append_right _ List.mem_cons_self)

theorem Transcript.concluded (h : Transcript self key body.data ms)
    (hn : self.partCount body.data ≤ maxParts) {r : Request} (hr : r.isLast = true)
    (hm : .request r ∈ ms) : ∃ uid x js, Concluded self key uid body x js ms := by
  cases h with
  | idle => cases hm
  | asked =>
    cases List.mem_singleton.mp hm
    cases hr
  | refused x hx =>
    rcases List.mem_cons.mp hm with heq | hm
    · cases heq
    · cases List.mem_singleton.mp hm
      cases hr
  | sending uid hms =>
    rcases List.mem_append.mp hm with hm | hm
    · obtain ⟨j, hj, heq | ⟨z, heq⟩⟩ := hms.mem hm
      · cases heq
        cases hr
      · cases heq
    · rcases List.mem_cons.mp hm with heq | hm
      · cases heq
      · cases List.mem_singleton.mp hm
        cases hr
  | closing uid hms hjs => exact ⟨uid, _, _, concluded_of hn hms hjs .asked (List.cons_ne_nil _ _)⟩
  | closed uid y hms hjs => exact ⟨uid, _, _, concluded_of hn hms hjs (.told y) (List.cons_ne_nil _ _)⟩

theorem FullTranscript.concluded {o : Set (List ℕ)} {L : Prop} {r : S3Result Unit}
    (h : FullTranscript self key body.data o L ms r) (hn : self.partCount body.data ≤ maxParts)
    (hc : .reply (.createMultipartUpload self.config.bucket key) (.ok ⟨some uid⟩) ∈ ms) :
    ∃ x js, Concluded self key uid body x js ms ∧ js ∈ o ∧
      ∀ e, firstError x js = some e → r = .error e := by
  cases h with
  | lost => cases hc
  | refused x hx =>
    rcases List.mem_cons.mp hc with heq | hc
    · cases heq
      exact absurd rfl (hx uid)
    · cases List.mem_singleton.mp hc
  | @closed f ms x js _ uid' y hms hjs ho he =>
    have hcon : Concluded self key uid' body x js _ :=
      concluded_of hn hms hjs (.told y) (List.cons_ne_nil _ _)
    obtain rfl := (hcon.created uid).mp hc
    exact ⟨x, js, hcon, ho, he⟩

end

/-! ## Every run -/

variable [DecidableEq κ] [DecidableEq ι]

/-- **Completion and abort of an upload.** When a multipart `put_object` returns after it was given an
upload id, it has sent `CompleteMultipartUpload` exactly when every part was answered with an etag, and
its manifest lists the etags of the parts `1` to `n` in order. Otherwise it has sent
`AbortMultipartUpload` and returns the error of the first part that failed, in the order in which its
parts have completed. At no moment of any call is another manifest sent. -/
theorem manifest_exact (S : Setup κ ι) {s : Sys κ ι} {l : List ((ι × Act κ) × Sys κ ι)}
    (hr : Run Sys.Step S.init l s) {i : ι} {key : String} {body : Body} (hop : S.op i = .put key body)
    (hpath : (S.client i).config.multipartThreshold.toNat < body.data.length)
    (hn : (S.client i).partCount body.data ≤ maxParts) :
    let c := S.client i
    let ms := messages (s.procs i).trace
    let n := c.partCount body.data
    let size := c.config.chunkSize.toNat
    let Told := fun (uid : String) (x : ℕ → Except SdkError UploadPartOutput) => ∀ j, j < n → ∀ y,
      .reply (.uploadPart c.config.bucket key uid (j + 1)
        (window body.data (j * size) (min ((j + 1) * size) body.data.length)) c.checksum) y ∈ ms ↔ y = x j
    (∀ o uid, (s.procs i).mode = .ended (some o) →
      .reply (.createMultipartUpload c.config.bucket key) (.ok ⟨some uid⟩) ∈ ms →
      ∃ x js, Told uid x ∧ js.Perm (List.range n) ∧
        (∃ m, Visits S.init l m ∧ (m.procs i).completed = js) ∧
        (∀ parts, .request (.completeMultipartUpload c.config.bucket key uid parts) ∈ ms ↔
          (∀ j, j < n → ∃ etag, x j = .ok ⟨some etag⟩) ∧ parts = manifest x n) ∧
        (¬ (∀ j, j < n → ∃ etag, x j = .ok ⟨some etag⟩) → ∃ e, firstError x js = some e ∧
          .request (.abortMultipartUpload c.config.bucket key uid) ∈ ms ∧
          (∀ b k u parts, .request (.completeMultipartUpload b k u parts) ∉ ms) ∧ o = .error e)) ∧
    ∀ uid parts, .request (.completeMultipartUpload c.config.bucket key uid parts) ∈ ms →
      ∃ x, Told uid x ∧ (∀ j, j < n → ∃ etag, x j = .ok ⟨some etag⟩) ∧ parts = manifest x n := by
  intro c ms n size Told
  obtain ⟨τ, hτ⟩ := follows_run hr i
  rw [hop] at hτ
  have hspec : ((Op.put key body).program (S.client i)).Spec _ _ [] := put_transcript hpath
  have hms : ms = said τ := by
    show messages (s.procs i).trace = said τ
    rw [hτ.trace, messages_events]
  have ht : Transcript c key body.data ms := hms ▸ hτ.reached.always hspec
  constructor
  · intro o uid ho hc
    obtain ⟨r, rfl, hfull⟩ := hτ.reached.returned hspec ho
    rw [← hms] at hfull
    obtain ⟨x, js, hcon, ⟨t, hjs⟩, he⟩ := hfull.concluded hn hc
    refine ⟨x, js, hcon.replies, hcon.order, hτ.orders t js hjs, fun parts => ?_, fun hall => ?_⟩
    · rw [hcon.last _ rfl, eq_comm]
      exact lastRequest_complete hn hcon.order
    · obtain ⟨e, hfirst⟩ : ∃ e, firstError x js = some e := by
        cases hfirst : firstError x js with
        | some e => exact ⟨e, rfl⟩
        | none =>
          refine absurd (fun j hj => ?_) hall
          exact firstError_eq_none.mp hfirst j (hcon.order.mem_iff.mpr (List.mem_range.mpr hj))
      have hlast : c.lastRequest key uid x js = .abortMultipartUpload c.config.bucket key uid :=
        lastRequest_abort.mpr ⟨e, hfirst⟩
      refine ⟨e, hfirst, (hcon.last _ rfl).mpr hlast.symm, fun b k u parts hm => ?_, ?_⟩
      · have := (hcon.last _ rfl).mp hm
        rw [hlast] at this
        cases this
      · rw [he e hfirst]
        rfl
  · intro uid parts hm
    obtain ⟨uid', x, js, hcon⟩ := ht.concluded hn rfl hm
    have hlast := (hcon.last _ rfl).mp hm
    obtain rfl : uid = uid' := by
      rcases lastRequest_cases c key uid' x js with h | ⟨ps, h⟩
      · rw [h] at hlast
        cases hlast
      · rw [h] at hlast
        exact (Request.completeMultipartUpload.inj hlast).2.2.1
    exact ⟨x, hcon.replies, (lastRequest_complete hn hcon.order).mp hlast.symm⟩

/-- The parts are accepted with etags of their own. -/
def numberedAnswer : ∀ q, (S3 κ).Ans q
  | .http (.uploadPart _ _ _ pn _ _) => .ok ⟨some (if pn = 1 then "one" else "two")⟩
  | q => sampleAnswer [] 0 q

/-- The manifest of an upload of two parts. -/
theorem manifest_exact_large : ∃ l s r, Run Sys.Step (bodySetup largeBody).init l s ∧
    (s.procs 0).mode = .ended (some r) ∧
    .request (.completeMultipartUpload "bucket" "key" "upload" [⟨1, "one"⟩, ⟨2, "two"⟩]) ∈
      messages (s.procs 0).trace := by
  have hpath := large_path
  have hcount := large_partCount
  generalize largeBody = body at hpath hcount ⊢
  obtain ⟨l, s, r, hr, hm, hheeded, htold⟩ := bodySetup_told hpath (o := numberedAnswer) rfl
  have hfew : smallClient.partCount body.data ≤ maxParts := by
    rw [hcount]
    decide
  obtain ⟨hend, -⟩ := manifest_exact (bodySetup body) hr (i := 0) rfl hpath hfew
  obtain ⟨x, js, hreplies, -, -, hcomplete, -⟩ := hend r "upload" hm htold
  have htag : ∀ j : ℕ, j < 2 → x j = .ok ⟨some (if (j : ℤ) + 1 = 1 then "one" else "two")⟩ := by
    intro j hj
    exact heeded_reply hheeded ((hreplies j (hcount.symm ▸ hj) (x j)).mpr rfl)
  have hmanifest : manifest x 2 = [⟨1, "one"⟩, ⟨2, "two"⟩] := by
    show [CompletedPart.mk ((0 : ℕ) + 1) (partTag (x 0)), .mk ((1 : ℕ) + 1) (partTag (x 1))] = _
    rw [htag 0 (by decide), htag 1 (by decide)]
    rfl
  refine ⟨l, s, r, hr, hm, (hcomplete _).mpr ⟨fun j hj => ⟨_, htag j (hcount ▸ hj)⟩, ?_⟩⟩
  rw [← hmanifest, ← hcount]
  rfl

end S3o
