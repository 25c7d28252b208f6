import S3o.Wire.Order

/-!
# The number of parts

* `partNumbers`: the numbers of the parts that are sent;
* `PartsFit`: the runs of an upload send parts `1` to some number that the service accepts;
* **`parts_fit_iff`**: they do exactly when the body is short enough for its chunks, or for one PUT;
* **`parts_overflow`**: a run that sends one part more.
-/

namespace S3o

open Async Lts

variable {κ : Type}

/-- The number of a part. -/
def Request.partNumber : Request → Option ℤ
  | .uploadPart _ _ _ pn _ _ => some pn
  | _ => none

/-- The numbers of the parts that were sent, newest first. -/
def partNumbers (ms : List Msg) : List ℤ := (requestsOf ms).filterMap Request.partNumber

/-- The numbers from `1` to `n`. -/
def numbers (n : ℕ) : List ℤ := (List.range n).map fun i : ℕ => (i : ℤ) + 1

/-- **The parts of an upload fit.** In every run the parts that `put_object` has sent have numbers of their
own that the service accepts, and when it returns after it was told an upload id they are `1` to some
`n`. -/
structure PartsFit (c : S3Client κ) (key : String) (body : Body) : Prop where
  accepted : ∀ τ q, ((Op.put key body).program c).Runs τ q →
    (partNumbers (said τ)).Nodup ∧ ∀ pn ∈ partNumbers (said τ), 1 ≤ pn ∧ pn ≤ maxParts
  whole : ∀ τ r uid, ((Op.put key body).program c).Runs τ (.ret r) →
    .reply (.createMultipartUpload c.config.bucket key) (.ok ⟨some uid⟩) ∈ said τ →
    ∃ n ≤ maxParts, (partNumbers (said τ)).Perm (numbers n)

section

variable {self : S3Client κ} {key : String} {body : Body} {ms : List Msg}

theorem numbers_nodup (n : ℕ) : (numbers n).Nodup := by
  refine List.nodup_range.map fun i j h => ?_
  have h : (i : ℤ) + 1 = j + 1 := h
  omega

theorem mem_numbers {n : ℕ} {pn : ℤ} (h : pn ∈ numbers n) : 1 ≤ pn ∧ pn ≤ n := by
  obtain ⟨i, hi, rfl⟩ := List.mem_map.mp h
  have := List.mem_range.mp hi
  omega

/-- **The part numbers of an upload** in order. -/
theorem UploadOrder.numbers {n : ℕ} {uid : Option String} {rs : List Request}
    (h : UploadOrder self key n uid rs) :
    (rs.filterMap Request.partNumber).Perm (if uid.isSome then numbers n else []) := by
  cases h with
  | refused => exact .refl _
  | @whole ps last uid hps hlast =>
    have hnone : [last].filterMap Request.partNumber = [] := by
      rcases hlast with rfl | ⟨parts, rfl⟩ <;> rfl
    have hparts : (ps.map fun p => Request.uploadPart self.config.bucket key uid p.1 p.2
        self.checksum).filterMap Request.partNumber = ps.map Prod.fst := by
      rw [List.filterMap_map, ← List.filterMap_eq_map]
      rfl
    rw [List.filterMap_append, hnone, List.append_nil, List.filterMap_cons_none rfl, hparts]
    exact hps

theorem Transcript.accepted (h : Transcript self key body.data ms)
    (hn : self.partCount body.data ≤ maxParts) :
    (partNumbers ms).Nodup ∧ ∀ pn ∈ partNumbers ms, 1 ≤ pn ∧ pn ≤ maxParts := by
  obtain ⟨uid, rs, horder, hpre⟩ := h.order (lt_of_le_of_lt hn (by decide))
  have hsub : (partNumbers ms).reverse.Subperm (numbers (self.partCount body.data)) := by
    have hpre := (hpre.filterMap Request.partNumber).sublist.subperm
    rw [List.filterMap_reverse] at hpre
    refine hpre.trans (horder.numbers.subperm.trans ?_)
    split_ifs
    · exact List.Subperm.refl _
    · exact List.nil_subperm
  obtain ⟨l, hperm, hl⟩ := hsub
  refine ⟨List.nodup_reverse.mp (hperm.nodup_iff.mp ((numbers_nodup _).sublist hl)), fun pn hpn => ?_⟩
  obtain ⟨h₁, h₂⟩ := mem_numbers (hl.subset (hperm.mem_iff.mpr (List.mem_reverse.mpr hpn)))
  omega

variable (self key) in
theorem partNumber_partRequest (uid : String) (body : Bytes) (j : ℕ) :
    (self.partRequest key uid body j).partNumber = some (asI32 (j + 1)) := rfl

variable (self key) in
theorem numbers_partRequest (uid : String) (body : Bytes) (js : List ℕ) :
    (js.map (self.partRequest key uid body)).filterMap Request.partNumber =
      js.map fun j => asI32 (j + 1) := by
  rw [List.filterMap_map, ← List.filterMap_eq_map]
  refine List.filterMap_congr fun j _ => ?_
  rw [Function.comp_apply, Function.comp_apply, partNumber_partRequest]

/-- **The parts that a multipart upload has sent** when it returns after it was told its id. -/
theorem FullTranscript.numbers {o : Set (List ℕ)} {L : Prop} {r : S3Result Unit} {uid : String}
    (h : FullTranscript self key body.data o L ms r)
    (hc : .reply (.createMultipartUpload self.config.bucket key) (.ok ⟨some uid⟩) ∈ ms) :
    (partNumbers ms).Perm ((List.range (self.partCount body.data)).map fun j => asI32 (j + 1)) := by
  cases h with
  | lost => cases hc
  | refused x hx =>
    rcases List.mem_cons.mp hc with heq | hc
    · cases heq
      exact absurd rfl (hx uid)
    · cases List.mem_singleton.mp hc
  | @closed f ms x js _ uid' y hms hjs ho he =>
    obtain ⟨is, his, hreq⟩ := hms.requests
    have hlast : (self.lastRequest key uid' x js).partNumber = none := by
      rcases lastRequest_cases self key uid' x js with h | ⟨parts, h⟩ <;> rw [h] <;> rfl
    have hparts := numbers_partRequest self key uid' body.data is
    have hcreated : (requestsOf (self.created key uid')).filterMap Request.partNumber = [] := rfl
    unfold partNumbers
    rw [requestsOf_reply, requestsOf_request, requestsOf_append, hreq, List.filterMap_cons_none hlast,
      List.filterMap_append, hparts, hcreated, List.append_nil]
    exact his.map _

end

/-! ## Every client, every body -/

/-- **The parts of every upload fit exactly when its body is short enough**, for one PUT or for as many
chunks as the service accepts. -/
theorem parts_fit_iff (self : S3Client κ) (key : String) (body : Body) : PartsFit self key body ↔
    body.data.length ≤ self.config.multipartThreshold.toNat ∨
      body.data.length ≤ maxParts * self.config.chunkSize.toNat := by
  have hcount : self.partCount body.data ≤ maxParts ↔
      body.data.length ≤ maxParts * self.config.chunkSize.toNat := divCeil_le_iff (chunkSize_pos self)
  rw [← hcount]
  constructor
  · intro hfit
    by_contra hlong
    rw [not_or, not_le, not_le] at hlong
    obtain ⟨hpath, hlong⟩ := hlong
    have hroom : Room self .write (fun _ => True) fun _ w => 0 < w :=
      ⟨trivial, trivial, fun _ _ => Nat.one_pos, self.valid.concurrency.2⟩
    obtain ⟨τ, r, hr, hτ⟩ := run_of_loopFree (op_loopFree (.put key body) nofun) (op_permits (.put key body) hroom)
      (sampleAnswer [] 0)
    obtain ⟨o, L, r', hfull, htold⟩ := told_of_heeded hpath hr hτ "upload" rfl
    obtain ⟨n, hn, hperm⟩ := hfit.whole τ r _ hr htold
    have hlen := (hperm.symm.trans (hfull.numbers htold)).length_eq
    simp only [numbers, List.length_map, List.length_range] at hlen
    omega
  · intro hshort
    by_cases hpath : self.config.multipartThreshold.toNat < body.data.length
    · have hn := hshort.resolve_left (not_le.mpr hpath)
      refine ⟨fun τ q hr => ?_, fun τ r uid hr htold => ?_⟩
      · have hspec : ((Op.put key body).program self).Spec _ _ [] := put_transcript hpath
        have ht := (hspec.run hr).always
        rw [List.append_nil] at ht
        exact Transcript.accepted ht hn
      · obtain ⟨r', -, hfull⟩ := ((put_transcript hpath).run hr).result r rfl
        rw [List.append_nil] at hfull
        refine ⟨_, hn, (hfull.numbers htold).trans (List.Perm.of_eq (List.map_congr_left fun j hj => ?_))⟩
        have := List.mem_range.mp hj
        exact asI32_succ (by omega)
    · have hsaid : ∀ τ q, ((Op.put key body).program self).Runs τ q →
          Exchange (.putObject self.config.bucket key body.data self.checksum) (said τ) := by
        intro τ q hr
        have hspec : ((Op.put key body).program self).Spec _ _ [] := put_exchange hpath
        have h := (hspec.run hr).always
        rwa [List.append_nil] at h
      refine ⟨fun τ q hr => ?_, fun τ r uid hr htold => ?_⟩
      · have hnone : partNumbers (said τ) = [] := by
          unfold partNumbers
          rcases (hsaid τ q hr).requests with h | h <;> rw [h] <;> rfl
        rw [hnone]
        exact ⟨List.nodup_nil, fun pn hpn => nomatch hpn⟩
      · rcases (hsaid τ _ hr).mem htold with heq | ⟨x, heq⟩ <;> cases heq

/-- **One part too many.** -/
theorem parts_overflow : ∃ l s r, Run Sys.Step (bodySetup hugeBody).init l s ∧
    (s.procs 0).mode = .ended (some r) ∧
    smallClient.config.multipartThreshold.toNat < hugeBody.data.length ∧
    (maxParts : ℤ) + 1 ∈ partNumbers (messages (s.procs 0).trace) := by
  have hpath : smallClient.config.multipartThreshold.toNat < hugeBody.data.length := by
    rw [hugeBody_length]
    decide
  have hmany : maxParts < smallClient.partCount hugeBody.data := by
    by_contra hle
    have := (divCeil_le_iff (chunkSize_pos smallClient)).mp (not_lt.mp hle)
    rw [hugeBody_length] at this
    exact absurd this (by decide)
  generalize hugeBody = body at hpath hmany ⊢
  obtain ⟨l, s, r, hr, hm, hheeded⟩ := bodySetup_serves body (sampleAnswer [] 0)
  obtain ⟨τ, hτ⟩ := follows_run hr 0
  rw [hτ.trace] at hheeded
  obtain ⟨o, L, r', hfull, htold⟩ := told_of_heeded hpath (hτ.reached.runs hm) hheeded "upload" rfl
  refine ⟨l, s, r, hr, hm, hpath, ?_⟩
  rw [hτ.trace, messages_events, (hfull.numbers htold).mem_iff]
  exact List.mem_map.mpr ⟨maxParts, List.mem_range.mpr hmany, asI32_succ le_rfl⟩

end S3o
