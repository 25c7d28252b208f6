import S3o.Pieces
import S3o.Wire.Exchange

/-!
# The messages of an upload

* `partRequest`, `partResult`, `lastRequest`: the requests of `multipart_put` and what it makes of the
  replies;
* `Transcript`, `FullTranscript`: what an upload has said, in progress and at its end;
* **`put_transcript`**: `put_object` keeps to it when it takes the multipart path;
* `put_exchange`: its only exchange otherwise.
-/

namespace S3o

open Async Lts

variable {κ : Type}

/-! ## The requests -/

def partError : Except SdkError UploadPartOutput → Option S3Error
  | .error e => some (classify e)
  | .ok ⟨none⟩ => some (.backend .other "no etag")
  | .ok ⟨some _⟩ => none

def partTag : Except SdkError UploadPartOutput → String
  | .ok ⟨some etag⟩ => etag
  | _ => ""

def partResult (pn : ℤ) (x : Except SdkError UploadPartOutput) : S3Result CompletedPart :=
  match partError x with
  | some e => .error e
  | none => .ok ⟨pn, partTag x⟩

def firstError (x : ℕ → Except SdkError UploadPartOutput) (js : List ℕ) : Option S3Error :=
  js.findSome? fun j => partError (x j)

theorem firstError_eq_none {x : ℕ → Except SdkError UploadPartOutput} {js : List ℕ} :
    firstError x js = none ↔ ∀ j ∈ js, ∃ etag, x j = .ok ⟨some etag⟩ := by
  unfold firstError
  rw [List.findSome?_eq_none_iff]
  refine forall₂_congr fun j _ => ?_
  match x j with
  | .error e => simp [partError]
  | .ok ⟨none⟩ => simp [partError]
  | .ok ⟨some etag⟩ => simp [partError]

/-- **The results of the parts**, in completion order. -/
theorem collectParts_results (pn : ℕ → ℤ) (x : ℕ → Except SdkError UploadPartOutput) (js : List ℕ) :
    (S3Client.collectParts (js.map fun j => partResult (pn j) (x j))).2 = firstError x js ∧
    (firstError x js = none → (S3Client.collectParts (js.map fun j => partResult (pn j) (x j))).1 =
      js.map fun j => ⟨pn j, partTag (x j)⟩) := by
  have hpart : ∀ j, partResult (pn j) (x j) =
      Results.attempt (partError (x j)) (CompletedPart.mk (pn j) (partTag (x j))) := by
    intro j
    unfold partResult
    cases partError (x j) <;> rfl
  rw [collectParts_eq, List.map_congr_left fun j _ => hpart j]
  exact ⟨Results.firstError_map _ _ js, Results.values_map⟩

namespace S3Client

variable (self : S3Client κ) (key uid : String) (body : Bytes)

def partCount : ℕ := divCeil body.length self.config.chunkSize.toNat

def partRequest (j : ℕ) : Request :=
  .uploadPart self.config.bucket key uid (asI32 (j + 1))
    (slice body (interval self.config.chunkSize.toNat body.length j)) self.checksum

/-- The last request of an upload whose parts were answered with `x` and completed in the order `js`. -/
def lastRequest (x : ℕ → Except SdkError UploadPartOutput) (js : List ℕ) : Request :=
  match firstError x js with
  | some _ => .abortMultipartUpload self.config.bucket key uid
  | none => .completeMultipartUpload self.config.bucket key uid
      (sortParts (js.map fun j => ⟨asI32 (j + 1), partTag (x j)⟩))

end S3Client

/-! ## The messages -/

section

variable (self : S3Client κ) (key : String) (body : Bytes)

/-- The messages of the creation of upload `uid`, newest first. -/
def S3Client.created (uid : String) : List Msg :=
  [.reply (.createMultipartUpload self.config.bucket key) (.ok ⟨some uid⟩),
    .request (.createMultipartUpload self.config.bucket key)]

/-- **What an upload has said**, newest first. -/
inductive Transcript : List Msg → Prop
  | idle : Transcript []
  | asked : Transcript [.request (.createMultipartUpload self.config.bucket key)]
  | refused (x : Except SdkError CreateMultipartUploadOutput) : (∀ uid, x ≠ .ok ⟨some uid⟩) →
      Transcript [.reply (.createMultipartUpload self.config.bucket key) x,
        .request (.createMultipartUpload self.config.bucket key)]
  | sending {f ms} (uid : String) : Exchanges (self.partRequest key uid body) (self.partCount body)
      self.config.writeConcurrency.toNat f ms → Transcript (ms ++ self.created key uid)
  | closing {f ms x js} (uid : String) :
      Exchanged (self.partRequest key uid body) (self.partCount body) x f ms →
      js.Perm (List.range (self.partCount body)) →
      Transcript (.request (self.lastRequest key uid x js) :: (ms ++ self.created key uid))
  | closed {f ms x js} (uid : String) (y : Except SdkError (self.lastRequest key uid x js).Output) :
      Exchanged (self.partRequest key uid body) (self.partCount body) x f ms →
      js.Perm (List.range (self.partCount body)) →
      Transcript (.reply (self.lastRequest key uid x js) y :: .request (self.lastRequest key uid x js) ::
        (ms ++ self.created key uid))

/-- **What an upload has said when it returns `r`**: nothing when it has lost its acquisition (`L`),
nothing but the creation when this has no id, or all of it. The error of an upload with failed parts is
that of the first one. -/
inductive FullTranscript (orders : Set (List ℕ)) (L : Prop) : List Msg → S3Result Unit → Prop
  | lost (h : L) : FullTranscript orders L []
      (.error ((Acquire.bulk self.config.writeConcurrency.toNat).timeoutError Half.write.name))
  | refused {r} (x : Except SdkError CreateMultipartUploadOutput) : (∀ uid, x ≠ .ok ⟨some uid⟩) →
      FullTranscript orders L [.reply (.createMultipartUpload self.config.bucket key) x,
        .request (.createMultipartUpload self.config.bucket key)] r
  | closed {f ms x js r} (uid : String) (y : Except SdkError (self.lastRequest key uid x js).Output) :
      Exchanged (self.partRequest key uid body) (self.partCount body) x f ms →
      js.Perm (List.range (self.partCount body)) → js ∈ orders →
      (∀ e, firstError x js = some e → r = .error e) →
      FullTranscript orders L (.reply (self.lastRequest key uid x js) y ::
        .request (self.lastRequest key uid x js) :: (ms ++ self.created key uid)) r

end

section

variable {self : S3Client κ} {key : String} {body : Bytes} {r : S3Result Unit} {L : Prop}

theorem FullTranscript.mono {o o' : Set (List ℕ)} {L' : Prop} {ms : List Msg}
    (h : FullTranscript self key body o L ms r) (ho : o ⊆ o') (hl : L → L') :
    FullTranscript self key body o' L' ms r := by
  cases h with
  | lost h => exact .lost (hl h)
  | refused x hx => exact .refused x hx
  | closed uid y hms hjs hmem he => exact .closed uid y hms hjs (ho hmem) he

theorem FullTranscript.transcript {o : Set (List ℕ)} {ms : List Msg}
    (h : FullTranscript self key body o L ms r) : Transcript self key body ms := by
  cases h with
  | lost => exact .idle
  | refused x hx => exact .refused x hx
  | closed uid y hms hjs _ _ => exact .closed uid y hms hjs

/-- **An upload that is told nothing but `uid`** is told so before it returns. -/
theorem FullTranscript.told {o : Set (List ℕ)} {ms : List Msg} {uid : String}
    (h : FullTranscript self key body o L ms r) (hl : ¬ L)
    (hx : ∀ x, .reply (.createMultipartUpload self.config.bucket key) x ∈ ms → x = .ok ⟨some uid⟩) :
    .reply (.createMultipartUpload self.config.bucket key) (.ok ⟨some uid⟩) ∈ ms := by
  cases h with
  | lost h => exact absurd h hl
  | refused x hne => exact absurd (hx x List.mem_cons_self) (hne uid)
  | @closed f ms x js _ uid' y _ _ _ _ =>
    have hmem : .reply (.createMultipartUpload self.config.bucket key) (.ok ⟨some uid'⟩) ∈
        .reply (self.lastRequest key uid' x js) y :: .request (self.lastRequest key uid' x js) ::
          (ms ++ self.created key uid') :=
      List.mem_cons_of_mem _ (List.mem_cons_of_mem _ (List.mem_append_right _ List.mem_cons_self))
    cases hx _ hmem
    exact hmem

/-! ## The program -/

variable {τ : History (S3 κ)}

theorem uploadPart_spec (uid : String) (pn : ℤ) (chunk : Bytes) :
    (self.uploadPart key uid pn chunk).Spec
      (talk (Exchange (.uploadPart self.config.bucket key uid pn chunk self.checksum)))
      (fun b τ => ∃ x, said τ =
        [.reply (.uploadPart self.config.bucket key uid pn chunk self.checksum) x,
          .request (.uploadPart self.config.bucket key uid pn chunk self.checksum)] ∧
        b = partResult pn x) [] := by
  unfold S3Client.uploadPart
  simp only [Leaf.bind_eq, Leaf.pure_eq, Leaf.spec_bind, Leaf.spec_clock, Leaf.spec_send, Leaf.spec_log,
    Leaf.spec_ret, said_nil, said_requested, said_replied, said_emit, true_and, forall_const,
    and_self_left]
  refine ⟨.silent, .asked, fun x => ⟨.told x, x, rfl, ?_⟩⟩
  cases x with
  | error e => rfl
  | ok out =>
    obtain ⟨eTag⟩ := out
    cases eTag with
    | none => rfl
    | some etag => rfl

theorem chunk_request {uid : String} {j : ℕ} {l : Leaf (S3 κ) (S3Result CompletedPart)}
    (h : ((self.chunks body).map fun c => self.uploadPart key uid c.1 c.2)[j]? = some l) :
    l.Spec (talk (Exchange (self.partRequest key uid body j)))
      (fun b τ => ∃ x : Except SdkError UploadPartOutput, said τ =
        [.reply (self.partRequest key uid body j) x, .request (self.partRequest key uid body j)] ∧
          b = partResult (asI32 (j + 1)) x) [] := by
  have hj : j < self.partCount body := by
    have := (List.getElem?_eq_some_iff.mp h).1
    simpa [S3Client.chunks, S3Client.partCount] using this
  unfold S3Client.partCount at hj
  rw [List.getElem?_map, S3Client.chunks, List.getElem?_map, List.getElem?_range hj,
    Option.map_some, Option.map_some] at h
  rw [← Option.some.inj h]
  unfold S3Client.partRequest
  generalize asI32 (j + 1) = pn
  generalize slice body (interval self.config.chunkSize.toNat body.length j) = chunk
  exact uploadPart_spec uid pn chunk

/-- **The end of an upload**: the last request and its reply. -/
theorem last_spec {uid : String} {f : ℕ → List Msg} {js : List ℕ} {last : Request}
    {x : ℕ → Except SdkError UploadPartOutput} {ms : List Msg}
    (hlast : self.lastRequest key uid x js = last) (hτ : said τ = ms ++ self.created key uid)
    (hdone : Exchanged (self.partRequest key uid body) (self.partCount body) x f ms)
    (hjs : js.Perm (List.range (self.partCount body))) (horder : js ∈ orders τ) :
    (Leaf.send last : Leaf (S3 κ) _).Spec (talk (Transcript self key body))
      (fun _ τ' => ∀ r, (∀ e, firstError x js = some e → r = .error e) →
        FullTranscript self key body (orders τ') False (said τ') r) τ := by
  subst hlast
  rw [Leaf.spec_send]
  dsimp only
  simp only [said_requested, said_replied, hτ]
  refine ⟨.sending uid (hdone.exchanges _), fun s n => ⟨.closing uid hdone hjs, trivial, fun t y =>
    ⟨.closed uid y hdone hjs, fun r hr => .closed uid y hdone hjs ?_ hr⟩⟩⟩
  exact orders_cons _ _ (orders_cons _ _ horder)

/-- A creation that brings no upload id is all that an upload says. -/
theorem refused_spec {x : Except SdkError CreateMultipartUploadOutput} (hx : ∀ uid, x ≠ .ok ⟨some uid⟩)
    (hτ : said τ = [.reply (.createMultipartUpload self.config.bucket key) x,
      .request (.createMultipartUpload self.config.bucket key)]) :
    (.ret r : Prog (S3 κ) _).Spec (talk (Transcript self key body))
      (fun r τ' => FullTranscript self key body (orders τ') False (said τ') r) τ := by
  rw [Prog.spec_ret]
  have hfull : FullTranscript self key body (orders τ) False (said τ) r := by
    rw [hτ]
    exact .refused x hx
  exact ⟨hfull.transcript, hfull⟩

theorem multipartPut_spec (hτ : said τ = []) :
    (self.multipartPut key body).Spec (talk (Transcript self key body))
      (fun r τ' => FullTranscript self key body (orders τ')
        (.lost (self.pool, .write) (.bulk self.config.writeConcurrency.toNat) ∈ τ'.events) (said τ') r)
      τ := by
  unfold S3Client.multipartPut
  rw [spec_guarded]
  simp only [said_want, said_got, said_lost, hτ]
  refine ⟨.idle, fun s => ⟨.idle, trivial, fun t => ⟨.idle, fun u => ?_⟩, fun t =>
    ⟨.idle, .lost (by simp [History.events])⟩⟩⟩
  refine Prog.Spec.weaken
    (ψ := fun r τ' => FullTranscript self key body (orders τ') False (said τ') r) ?_ fun r τ' _ h =>
      ⟨h.transcript, fun v => ⟨h.transcript, h.mono (orders_cons _ _) False.elim⟩⟩
  rw [Prog.bind_eq, Prog.spec_bind]
  refine spec_send ?_
  rw [Leaf.spec_send]
  simp only [said_requested, said_replied, said_want, said_got, said_emit, hτ]
  refine ⟨.idle, fun s' n => ⟨.asked, trivial, fun t' x => ?_⟩⟩
  cases x with
  | error e =>
    have hx : ∀ uid, (.error e : Except SdkError CreateMultipartUploadOutput) ≠ .ok ⟨some uid⟩ := by
      intro uid h
      cases h
    refine ⟨.refused _ hx, refused_spec hx ?_⟩
    simp only [said_requested, said_replied, said_want, said_got, said_emit, hτ]
  | ok out =>
    obtain ⟨uploadId⟩ := out
    cases uploadId with
    | none =>
      have hx : ∀ uid, (.ok ⟨none⟩ : Except SdkError CreateMultipartUploadOutput) ≠ .ok ⟨some uid⟩ := by
        intro uid h
        cases h
      refine ⟨.refused _ hx, refused_spec hx ?_⟩
      simp only [said_requested, said_replied, said_want, said_got, said_emit, hτ]
    | some uid =>
      have hlen : ((self.chunks body).map fun c => self.uploadPart key uid c.1 c.2).length =
          self.partCount body := by
        simp [S3Client.chunks, S3Client.partCount]
      have hnone : Exchanges (self.partRequest key uid body) (self.partCount body)
          self.config.writeConcurrency.toNat (fun _ => []) [] :=
        ⟨.nil, fun _ _ => .silent, fun _ _ => rfl, ∅, Nat.zero_le _, fun _ h => by cases h⟩
      have hstart : Transcript self key body (self.created key uid) := .sending uid hnone
      refine ⟨hstart, ?_⟩
      show (Prog.bind _ _).Spec _ _ _
      rw [Prog.spec_bind]
      refine spec_exchanges (self.partRequest key uid body) (fun j x => partResult (asI32 (j + 1)) x)
        (fun j l hl => chunk_request hl) ?_ ?_
      · intro f ms h
        rw [hlen] at h
        simp only [said_requested, said_replied, said_want, said_got, said_emit, hτ]
        exact .sending uid h
      · intro f new x js t h hjs
        rw [hlen] at h hjs
        obtain ⟨herr, hparts⟩ := collectParts_results (fun j => asI32 (j + 1)) x js
        generalize hτ' : (t, Note.order js) :: (new ++ _) = τ'
        have hsaid : said τ' = said new ++ self.created key uid := by
          rw [← hτ']
          simp only [said_order, said_append, said_requested, said_replied, said_want, said_got,
            said_emit, hτ]
          rfl
        have horder : js ∈ orders τ' := ⟨t, hτ' ▸ List.mem_cons_self⟩
        generalize S3Client.collectParts (js.map fun j => partResult (asI32 (j + 1)) (x j)) = c
          at herr hparts ⊢
        obtain ⟨parts, err⟩ := c
        obtain rfl : err = firstError x js := herr
        cases he : firstError x js with
        | some e =>
          have hlast : self.lastRequest key uid x js =
              .abortMultipartUpload self.config.bucket key uid := by
            unfold S3Client.lastRequest
            rw [he]
          show (Prog.bind _ _).Spec _ _ _
          rw [Prog.spec_bind]
          refine spec_send (Fut.Spec.weaken (last_spec hlast hsaid h hjs horder) ?_)
          intro _ τ'' halways hfull
          exact (Prog.spec_ret _).mpr ⟨halways, hfull _ fun e' he' => by rw [he] at he'; cases he'; rfl⟩
        | none =>
          obtain rfl := hparts he
          have hlast : self.lastRequest key uid x js = .completeMultipartUpload self.config.bucket key uid
              (S3Client.sortParts (js.map fun j => ⟨asI32 (j + 1), partTag (x j)⟩)) := by
            unfold S3Client.lastRequest
            rw [he]
          refine spec_send (Fut.Spec.weaken (last_spec hlast hsaid h hjs horder) ?_)
          intro r τ'' _ hfull
          exact hfull _ fun e' he' => by rw [he] at he'; cases he'

theorem put_transcript {b : Body} (hb : self.config.multipartThreshold.toNat < b.data.length) :
    ((Op.put key b).program self).Spec (talk (Transcript self key b.data))
      (fun r τ => ∃ r' : S3Result Unit, r = r'.map (fun _ => .unit) ∧
        FullTranscript self key b.data (orders τ)
          (.lost (self.pool, .write) (.bulk self.config.writeConcurrency.toNat) ∈ τ.events) (said τ) r')
      [] := by
  unfold Op.program S3Client.putObject
  simp only [Prog.bind_eq, Prog.pure_eq, Prog.spec_bind, Prog.spec_ret, spec_startOp, Prog.spec_log,
    if_pos hb, said_nil, said_read, said_emit]
  refine ⟨.idle, fun t => ⟨.idle, fun u => ⟨.idle, .idle, fun v => ⟨.idle, ?_⟩⟩⟩⟩
  refine Prog.Spec.weaken (multipartPut_spec ?_) fun r τ halways h => ?_
  · simp only [said_emit, said_read, said_nil]
  · refine finish_spec r (fun τ' hsaid => ?_) fun τ' hsaid hτ' => ?_
    · dsimp only
      rw [hsaid]
      exact halways
    · rw [hsaid]
      exact ⟨halways, halways, r, rfl, h.mono (orders_mono hτ') (events_mono hτ')⟩

/-- **An upload that is served** is told the id that the service gives. -/
theorem told_of_heeded {b : Body} (hb : self.config.multipartThreshold.toNat < b.data.length)
    {v : Outcome} (hr : ((Op.put key b).program self).Runs τ (.ret v)) {a : ∀ q, (S3 κ).Ans q}
    (hτ : Heeded a τ.events) (uid : String)
    (ha : a (Await.http (.createMultipartUpload self.config.bucket key)) = .ok ⟨some uid⟩) :
    ∃ o L r, FullTranscript self key b.data o L (said τ) r ∧
      .reply (.createMultipartUpload self.config.bucket key) (.ok ⟨some uid⟩) ∈ said τ := by
  obtain ⟨r, -, hfull⟩ := ((put_transcript hb).run hr).result v rfl
  rw [List.append_nil] at hfull
  refine ⟨_, _, r, hfull, hfull.told (fun hlost => hτ _ hlost) fun x hx => ?_⟩
  rw [← messages_events] at hx
  exact (heeded_reply hτ hx).trans ha

/-- **A plain upload says** no more than its PUT. -/
theorem simplePut_spec (hτ : said τ = []) : (self.simplePut key body).Spec
    (talk (Exchange (.putObject self.config.bucket key body self.checksum)))
    (fun _ τ' => Exchange (.putObject self.config.bucket key body self.checksum) (said τ')) τ := by
  unfold S3Client.simplePut
  simp only [Prog.bind_eq, Prog.pure_eq, Prog.spec_bind, spec_guarded, Prog.spec_clock, said_want,
    said_got, said_lost, said_read, said_emit, hτ]
  refine ⟨.silent, fun s => ⟨.silent, trivial, fun t => ⟨.silent, fun u => ⟨.silent, fun t' =>
    ⟨.silent, spec_send ?_⟩⟩⟩, fun t => ⟨.silent, .silent⟩⟩⟩
  simp only [Leaf.spec_send, Prog.spec_log, Prog.spec_ret, said_requested, said_replied,
    said_want, said_got, said_read, said_emit, said_freed, hτ]
  refine ⟨.silent, fun s' n => ⟨.asked, trivial, fun v x => ?_⟩⟩
  have htold := Exchange.told (r := .putObject self.config.bucket key body self.checksum) x
  exact ⟨htold, htold, fun _ => ⟨htold, htold, fun _ => ⟨htold, htold, fun _ =>
    ⟨htold, htold, htold, fun _ => ⟨htold, htold⟩⟩⟩⟩⟩

theorem put_exchange {b : Body} (hb : ¬ self.config.multipartThreshold.toNat < b.data.length) :
    ((Op.put key b).program self).Spec
      (talk (Exchange (.putObject self.config.bucket key b.data self.checksum))) (fun _ _ => True) [] := by
  unfold Op.program S3Client.putObject
  simp only [Prog.bind_eq, Prog.pure_eq, Prog.spec_bind, Prog.spec_ret, spec_startOp, Prog.spec_log,
    if_neg hb, said_nil, said_read, said_emit]
  refine ⟨.silent, fun t => ⟨.silent, fun u => ⟨.silent, .silent, fun v => ⟨.silent, ?_⟩⟩⟩⟩
  refine Prog.Spec.weaken (simplePut_spec ?_) fun r τ halways h => ?_
  · simp only [said_emit, said_read, said_nil]
  · refine finish_spec r (fun τ' hsaid => ?_) fun τ' hsaid _ => ?_
    · dsimp only
      rw [hsaid]
      exact h
    · rw [hsaid]
      exact ⟨h, h, trivial⟩

end

end S3o
