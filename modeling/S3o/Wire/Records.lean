import S3o.Wire.Download

/-!
# The records of the transfers

* `Transferred`, **`op_transferred`**: the messages and the records of an upload or a download are those of
  its transfers;
* `Attributed`, `attributed_counts`: the transfers that the messages are those of;
* `Proc.HttpExact`, **`http_exact_iff`**: every transfer is recorded once, with its outcome, exactly when
  no range has failed;
* `range_failure_unrecorded`: a range that fails.
-/

namespace S3o

open Async Lts

variable {κ ι : Type}

/-! ## The programs -/

/-- **What is seen of an upload or a download** is what is seen of its transfers, which have one label. -/
structure Transferred (label : String) (ts : List Transfer) (ws : List Wire) : Prop where
  labels : ∀ t ∈ ts, t.label = label
  shuffle : Shuffle (each Transfer.log ts) ws

/-- What is seen so far is that of transfers. -/
def Transfers (ws : List Wire) : Prop := ∃ label ts, Transferred label ts ws

theorem transfers_nil : Transfers [] := ⟨"", [], nofun, .nil⟩

theorem transfers_log (t : Transfer) : Transfers t.log :=
  ⟨t.label, [t], fun _ h => List.mem_singleton.mp h ▸ rfl, shuffle_one Transfer.log t⟩

section

variable {self : S3Client κ} {key : String} {τ : History (S3 κ)}

/-- **One part** is one transfer. -/
theorem uploadPart_transfer (uid : String) (pn : ℤ) (chunk : Bytes) :
    (self.uploadPart key uid pn chunk).Spec (talk fun _ => True)
      (fun _ τ => ∃ t : Transfer, t.label = "put_part" ∧ wired τ = t.log) [] := by
  unfold S3Client.uploadPart
  simp only [Leaf.bind_eq, Leaf.pure_eq, Leaf.spec_bind, Leaf.spec_clock, Leaf.spec_send, Leaf.spec_log,
    Leaf.spec_ret, true_and]
  intro t s n u x v w y
  refine ⟨.part self.config.bucket key uid pn chunk self.checksum x, rfl, ?_⟩
  cases x with
  | error e => rfl
  | ok out => rfl

/-- **A stream of transfers** with one label. -/
theorem spec_transfers {β : Type} {w : ℕ} {ls : List (Leaf (S3 κ) β)} (label : String)
    (hl : ∀ l ∈ ls, l.Spec (talk fun _ => True)
      (fun _ τ => ∃ t : Transfer, t.label = label ∧ wired τ = t.log) []) (hτ : wired τ = []) :
    (Prog.bufferUnordered w ls).Spec (talk fun _ => True) (fun _ τ' => Transfers (wired τ')) τ := by
  refine Prog.spec_bufferUnordered (fun _ _ => True)
    (fun _ _ τ => ∃ t : Transfer, t.label = label ∧ wired τ = t.log)
    (fun j l hj => hl l (List.mem_of_getElem? hj)) (fun _ _ _ _ _ _ => ⟨trivial, trivial⟩) ?_
  intro loc new rs u hwoven hperm hres
  refine ⟨trivial, ?_⟩
  have hne : Nonempty Transfer := ⟨.get "" "" none (.read [] [])⟩
  obtain ⟨x, hall, -⟩ := exists_outcomes hperm fun j b hb => hres (j, b) hb
  have hx : ∀ j, j < ls.length → (x j).label = label ∧ wired (loc j) = (x j).log := by
    intro j hj
    obtain ⟨_, hb⟩ := hall j hj
    exact hb
  have hloc : (fun j => wired (loc j)) = each Transfer.log ((List.range ls.length).map x) := by
    funext j
    unfold each
    rw [List.getElem?_map]
    by_cases hj : j < ls.length
    · rw [List.getElem?_range hj]
      exact (hx j hj).2
    · rw [List.getElem?_eq_none (by rw [List.length_range]; exact not_lt.mp hj),
        hwoven.outside j (not_lt.mp hj)]
      rfl
  have hshuffle : Shuffle (fun j => wired (loc j)) (wired new) :=
    (hwoven.shuffle.filterMap _).filterMap _
  refine ⟨label, (List.range ls.length).map x, fun t ht => ?_, ?_⟩
  · obtain ⟨j, hj, rfl⟩ := List.mem_map.mp ht
    exact (hx j (List.mem_range.mp hj)).1
  · rw [wired_order, wired_append, hτ, List.append_nil]
    exact hloc ▸ hshuffle

theorem send_wired {r : Request} (hr : r.httpLabel = none) : (send r : Prog (S3 κ) _).Spec
    (talk fun _ => True) (fun _ τ' => wired τ' = wired τ) τ := by
  refine spec_send ?_
  simp only [Leaf.spec_send, true_and]
  exact fun s n t x => wired_exchange hr s n x

theorem guarded_wired {α : Type} {h : Half} {a : Acquire} {rest : Prog (S3 κ) (S3Result α)}
    {P : List Wire → Prop} (hτ : P (wired τ)) (hrest : ∀ τ₁, wired τ₁ = wired τ →
      rest.Spec (talk fun _ => True) (fun _ τ' => P (wired τ')) τ₁) :
    (self.guarded h a rest).Spec (talk fun _ => True) (fun _ τ' => P (wired τ')) τ := by
  rw [spec_guarded]
  simp only [true_and, wired_lost, wired_want]
  refine fun s => ⟨fun t u => ?_, fun _ => hτ⟩
  refine Prog.Spec.weaken (hrest _ ?_) fun _ _ _ h _ => h
  simp only [wired_addQueueWait, wired_got, wired_want]

theorem stat_wired : (self.stat key).Spec (talk fun _ => True) (fun _ τ' => wired τ' = wired τ) τ := by
  refine guarded_wired (P := fun ws => ws = wired τ) rfl fun τ₁ hτ₁ => ?_
  rw [Prog.bind_eq, Prog.spec_bind]
  refine (send_wired rfl).weaken fun r τ' _ h => (Prog.spec_ret _).mpr ⟨trivial, h.trans hτ₁⟩

theorem simplePut_transfers {body : Bytes} (hτ : wired τ = []) : (self.simplePut key body).Spec
    (talk fun _ => True) (fun _ τ' => Transfers (wired τ')) τ := by
  refine guarded_wired (hτ ▸ transfers_nil) fun τ₁ hτ₁ => ?_
  rw [hτ] at hτ₁
  simp only [Prog.bind_eq, Prog.pure_eq, Prog.spec_bind, Prog.spec_clock, true_and]
  refine fun t => spec_send ?_
  simp only [Leaf.spec_send, Prog.spec_log, Prog.spec_ret, true_and]
  intro s n u x v w y
  have hlog : ∀ new : History (S3 κ), wired new =
      (Transfer.put self.config.bucket key body self.checksum x).log → Transfers (wired (new ++ τ₁)) := by
    intro new hnew
    rw [wired_append, hnew, hτ₁, List.append_nil]
    exact transfers_log _
  cases x with
  | error e => exact hlog [_, _, _, _, _, _] rfl
  | ok out => exact hlog [_, _, _, _, _, _] rfl

theorem simpleGet_transfers (hτ : wired τ = []) : (self.simpleGet key).Spec
    (talk fun _ => True) (fun _ τ' => Transfers (wired τ')) τ := by
  refine guarded_wired (hτ ▸ transfers_nil) fun τ₁ hτ₁ => ?_
  refine Prog.spec_wait (Fut.Spec.weaken getBody_spec ?_)
  rintro r τ' - ⟨x, -, hx, -⟩
  rw [hx, hτ₁, hτ, List.append_nil]
  exact transfers_log _

/-- **What is seen of an upload**: its parts. -/
theorem multipartPut_transfers {body : Bytes} (hτ : wired τ = []) : (self.multipartPut key body).Spec
    (talk fun _ => True) (fun _ τ' => Transfers (wired τ')) τ := by
  refine guarded_wired (hτ ▸ transfers_nil) fun τ₁ hτ₁ => ?_
  rw [hτ] at hτ₁
  rw [Prog.bind_eq, Prog.spec_bind]
  refine (send_wired rfl).weaken fun r τ₂ _ hτ₂ => ?_
  rw [hτ₁] at hτ₂
  have hret : ∀ e : S3Error, (Prog.ret (.error e) : Prog (S3 κ) (S3Result Unit)).Spec (talk fun _ => True)
      (fun _ τ' => Transfers (wired τ')) τ₂ :=
    fun e => (Prog.spec_ret _).mpr ⟨trivial, hτ₂ ▸ transfers_nil⟩
  match r with
  | .error e => exact hret e
  | .ok ⟨none⟩ => exact hret _
  | .ok ⟨some uid⟩ =>
    show (Prog.bind _ _).Spec _ _ _
    rw [Prog.spec_bind]
    refine (spec_transfers "put_part" ?_ hτ₂).weaken fun results τ₃ _ h₃ => ?_
    · intro l hl
      obtain ⟨c, -, rfl⟩ := List.mem_map.mp hl
      exact uploadPart_transfer uid c.1 c.2
    · cases S3Client.collectParts results with
      | mk parts err =>
        cases err with
        | some e =>
          show (Prog.bind _ _).Spec _ _ _
          rw [Prog.spec_bind]
          have habort : (Request.abortMultipartUpload self.config.bucket key uid).httpLabel = none := rfl
          refine (send_wired habort).weaken fun _ τ₄ _ h₄ => (Prog.spec_ret _).mpr ⟨trivial, ?_⟩
          rwa [h₄]
        | none =>
          have hcomplete : (Request.completeMultipartUpload self.config.bucket key uid
              (S3Client.sortParts parts)).httpLabel = none := rfl
          refine (send_wired hcomplete).weaken fun _ τ₄ _ h₄ => ?_
          rwa [h₄]

/-- **What is seen of a range download**: its ranges. -/
theorem rangeGet_transfers {total : ℕ} (hτ : wired τ = []) : (self.rangeGet key total).Spec
    (talk fun _ => True) (fun _ τ' => Transfers (wired τ')) τ := by
  refine guarded_wired (hτ ▸ transfers_nil) fun τ₁ hτ₁ => ?_
  rw [Prog.bind_eq, Prog.spec_bind]
  refine (spec_transfers "get_range" ?_ (hτ₁.trans hτ)).weaken fun results τ₂ _ h₂ =>
    (Prog.spec_ret _).mpr ⟨trivial, h₂⟩
  intro l hl
  obtain ⟨i, -, rfl⟩ := List.mem_map.mp hl
  refine Fut.Spec.weaken (rangePart_spec i _) fun _ τ' _ h => ?_
  obtain ⟨x, -, hx, -⟩ := h
  exact ⟨_, rfl, hx⟩

theorem finish_wired {α : Type} (r : S3Result α) : (finish r : Prog (S3 κ) Unit).Spec (talk fun _ => True)
    (fun _ τ' => wired τ' = wired τ) τ := by
  cases r with
  | ok v =>
    show (recordOk : Prog (S3 κ) Unit).Spec _ _ _
    simp only [spec_recordOk, true_and]
    exact fun t t' u => rfl
  | error e =>
    show (recordErr e : Prog (S3 κ) Unit).Spec _ _ _
    simp only [spec_recordErr, true_and]
    exact fun t u => rfl

end

/-- The calls that transfer objects. -/
def Op.transfers : Op → Bool
  | .put .. | .get .. => true
  | _ => false

/-- **What is seen of an upload or a download.** -/
theorem op_transferred {self : S3Client κ} {op : Op} (hop : op.transfers = true) :
    (op.program self).Spec (talk fun _ => True) (fun _ τ => Transfers (wired τ)) [] := by
  refine op_of_stages (T := (talk fun _ => True).triples) (A := fun τ => wired τ = [])
    (B := fun τ _ => Transfers (wired τ)) (C := fun τ _ => Transfers (wired τ)) (I := (· = []))
    ?_ (fun r τ _ h => ?_) ?_ [] trivial rfl
  · rintro τ - rfl
    simp only [spec_startOp, true_and]
    exact fun t u => rfl
  · refine (finish_wired r).weaken fun _ τ' _ hτ' => ?_
    show Transfers (wired τ')
    rwa [hτ']
  cases op with
  | put key body =>
    refine ⟨fun τ => wired τ = [], fun τ _ h => (Prog.spec_log _).mpr ⟨trivial, fun t =>
      ⟨trivial, h⟩⟩, fun _ τ _ h => multipartPut_transfers h, fun _ τ _ h => simplePut_transfers h⟩
  | get key =>
    refine ⟨fun τ _ => wired τ = [], fun τ _ => Transfers (wired τ), ?_, fun e τ (h : wired τ = []) => ?_,
      fun info _ τ _ h => rangeGet_transfers h, fun info _ τ _ h => simpleGet_transfers h,
      fun d τ _ h => (Prog.spec_log _).mpr ⟨trivial, fun t => ⟨trivial, h⟩⟩, fun e τ h => h⟩
    · exact fun τ _ h => stat_wired.weaken fun r τ' _ hτ' => hτ'.trans h
    · show Transfers (wired τ)
      rw [h]
      exact transfers_nil
  | delete key => cases hop
  | head key => cases hop
  | list pfx recursive => cases hop

/-! ## The transfers of the messages -/

/-- **The messages of transfers among `ms` are those of `ts`**, interleaved. -/
def Attributed (ts : List Transfer) (ms : List Msg) : Prop :=
  Shuffle (each Transfer.messages ts) (ms.filter Msg.ofTransfer)

/-- The message is a request with the label `op`. -/
def Msg.asks (op : String) : Msg → Bool
  | .request r => r.httpLabel = some op
  | _ => false

/-- The message brings the last of what a transfer that succeeds receives. -/
def Msg.delivers : Msg → Bool
  | .reply (.putObject ..) x => x.isOk
  | .reply (.uploadPart ..) x => x.isOk
  | .body _ x => x.isOk
  | _ => false

namespace Transfer

variable (t : Transfer)

theorem countP_asks (op : String) : t.messages.countP (Msg.asks op) = (decide (t.label = op)).toNat := by
  have hone : t.messages.countP (Msg.asks op) = (Msg.asks op (.request t.request)).toNat := by
    cases t with
    | get bucket key range x => cases x <;> rfl
    | _ => rfl
  rw [hone]
  simp only [Msg.asks, t.httpLabel_request, Option.some.injEq]

theorem countP_delivers : t.messages.countP Msg.delivers = t.succeeded.toNat := by
  cases t with
  | get bucket key range x => cases x <;> rfl
  | put bucket key body sum x => cases x <;> rfl
  | part bucket key uid pn chunk sum x => cases x <;> rfl

theorem recorded_iff : t.recorded = true ↔ (t.ranged = true → t.succeeded = true) := by
  unfold recorded
  cases t.ranged <;> simp

/-- The transfers without a record are the ranges that have failed. -/
theorem not_recorded : (!t.recorded) = decide (t.label = "get_range" ∧ t.succeeded = false) := by
  have hranged : t.ranged = decide (t.label = "get_range") := by
    rw [Bool.eq_iff_iff, t.ranged_iff, decide_eq_true_eq]
  unfold recorded
  rw [Bool.decide_and, ← hranged]
  cases t.ranged <;> cases t.succeeded <;> rfl

theorem mem_messages {r : Request} : .request r ∈ t.messages ↔ r = t.request := by
  cases t with
  | get bucket key range x => cases x <;> simp [messages, Fetch.messages, request]
  | _ => simp [messages, request]

end Transfer

theorem countP_outcome {label : String} {ts : List Transfer} (hl : ∀ t ∈ ts, t.label = label) (op : String)
    (ok : Bool) : ts.countP (fun t => t.label = op ∧ t.succeeded = ok) =
      if label = op then
        if ok then ts.countP Transfer.succeeded else ts.length - ts.countP Transfer.succeeded
      else 0 := by
  split_ifs with hop hok
  · refine List.countP_congr fun t ht => ?_
    rw [hl t ht, hop, hok]
    simp
  · have hneg : ts.countP (fun t => t.label = op ∧ t.succeeded = ok) =
        ts.countP (fun t => !t.succeeded) := by
      refine List.countP_congr fun t ht => ?_
      rw [hl t ht, hop, Bool.not_eq_true _ |>.mp hok]
      simp
    have hlen := List.length_eq_countP_add_countP Transfer.succeeded (l := ts)
    have hnot : (fun t : Transfer => decide ¬ t.succeeded = true) = fun t => !t.succeeded := by
      funext t
      cases t.succeeded <;> rfl
    rw [hnot] at hlen
    omega
  · refine List.countP_eq_zero.mpr fun t ht => ?_
    rw [hl t ht]
    simp [hop]

/-- **The outcomes of the transfers are those of the messages**, however the messages are attributed. -/
theorem attributed_counts {label : String} {ts ts₀ : List Transfer} {ms : List Msg} (h : Attributed ts ms)
    (h₀ : Attributed ts₀ ms) (hl : ∀ t ∈ ts₀, t.label = label) (op : String) (ok : Bool) :
    ts.countP (fun t => t.label = op ∧ t.succeeded = ok) =
      ts₀.countP (fun t => t.label = op ∧ t.succeeded = ok) := by
  have hlabels : ∀ t ∈ ts, t.label = label := by
    intro t ht
    have hmem : Msg.request t.request ∈ ms.filter Msg.ofTransfer :=
      h.mem_iff.mpr (mem_each.mpr ⟨t, ht, t.mem_messages.mpr rfl⟩)
    obtain ⟨t₀, ht₀, hm⟩ := mem_each.mp (h₀.mem_iff.mp hmem)
    have hreq := congrArg Request.httpLabel (t₀.mem_messages.mp hm)
    rw [t.httpLabel_request, t₀.httpLabel_request, hl t₀ ht₀] at hreq
    exact Option.some.inj hreq
  have hlen : ts.length = ts₀.length := by
    have hall : ∀ us : List Transfer, (∀ t ∈ us, t.label = label) →
        us.countP (fun t => t.label = label) = us.length :=
      fun us hus => List.countP_eq_length.mpr fun t ht => decide_eq_true (hus t ht)
    rw [← hall ts hlabels, ← hall ts₀ hl,
      ← h.countP_each (P := Msg.asks label) fun t => t.countP_asks label,
      ← h₀.countP_each (P := Msg.asks label) fun t => t.countP_asks label]
  have hsucc : ts.countP Transfer.succeeded = ts₀.countP Transfer.succeeded := by
    rw [← h.countP_each Transfer.countP_delivers, ← h₀.countP_each Transfer.countP_delivers]
  rw [countP_outcome hlabels, countP_outcome hl, hlen, hsucc]

/-- The message of what is seen. -/
def Wire.heard : Wire → Option Msg
  | msg m => some m
  | http .. => none

theorem heard_wires (es : List (Ev (S3 κ))) :
    (es.filterMap wireOf).filterMap Wire.heard = (messages es).filter Msg.ofTransfer := by
  unfold messages
  rw [List.filterMap_filterMap, ← List.filterMap_eq_filter, List.filterMap_filterMap]
  refine List.filterMap_congr fun e _ => ?_
  have hmsg : ∀ o : Option Msg, ((o.filter Msg.ofTransfer).map Wire.msg).bind Wire.heard =
      o.bind (Option.guard Msg.ofTransfer) := by
    intro o
    cases o with
    | none => rfl
    | some m =>
      unfold Option.filter Option.guard
      dsimp only [Option.bind_some]
      split_ifs <;> rfl
  cases e with
  | emit m => cases m <;> rfl
  | sent n q => exact hmsg (msgOf (.sent n q))
  | answered n q x => exact hmsg (msgOf (.answered n q x))
  | _ => rfl

theorem Transferred.attributed {label : String} {ts : List Transfer} {es : List (Ev (S3 κ))}
    (h : Transferred label ts (es.filterMap wireOf)) : Attributed ts (messages es) := by
  have hlog : ∀ t : Transfer, t.log.filterMap Wire.heard = t.messages := by
    intro t
    have hmsg : (t.messages.map Wire.msg).filterMap Wire.heard = t.messages := by
      rw [List.filterMap_map]
      exact List.filterMap_some
    unfold Transfer.log
    split_ifs
    · exact hmsg
    · exact hmsg
  have hshuffle := h.shuffle.filterMap Wire.heard
  simp only [each_filterMap, hlog, heard_wires] at hshuffle
  exact hshuffle

/-! ## The records -/

/-- A record that `http` makes. -/
def Record.isHttp : Record → Bool
  | .counter name _ _ => name = "s3.http.total"
  | .histogram name _ _ => name = "s3.http.duration"
  | .gauge .. => false

/-- A record of `s3.http.duration` with the label `op` and the status of `ok`. -/
def Record.lasts (op : String) (ok : Bool) : Record → Bool
  | .histogram name labels _ =>
    name = "s3.http.duration" ∧ labels = [("op", op), ("status", if ok then "ok" else "err")]
  | _ => false

theorem Record.isHttp_of_lasts {op : String} {ok : Bool} {r : Record} (h : r.lasts op ok = true) :
    r.isHttp = true := by
  cases r with
  | histogram name labels v =>
    simp only [Record.lasts, decide_eq_true_eq] at h
    simp [Record.isHttp, h.1]
  | _ => cases h

/-- The records of `http` among those of an event. -/
def Metric.https : Metric → List Record
  | .http op nanos b => httpRecords op nanos b
  | _ => []

/-- What is seen is a record that `Q` counts. -/
def Wire.counts (Q : String → Bool → Bool) : Wire → Bool
  | .http op ok => Q op ok
  | .msg _ => false

section

variable (m : OpMetrics)

theorem https_record (status : String) (now : ℕ) : (m.record status now).filter Record.isHttp = [] := by
  unfold OpMetrics.record
  split_ifs <;> simp [Record.isHttp]

theorem https_ok (now later : ℕ) : (m.ok now later).2.filter Record.isHttp = [] := by
  have hbytes : (m.bytes later).filter Record.isHttp = [] := by
    unfold OpMetrics.bytes
    dsimp only
    split_ifs <;> simp [Record.isHttp]
  have happ : (m.ok now later).2 =
      m.record "ok" now ++ ([.counter "s3.op.ok" [("op", m.op)] 1] ++ m.bytes later) := rfl
  rw [happ, List.filter_append, List.filter_append, https_record, hbytes]
  simp [Record.isHttp]

theorem https_err (e : S3Error) (now : ℕ) : (m.err e now).2.filter Record.isHttp = [] := by
  have happ : (m.err e now).2 =
      m.record "err" now ++ [.counter "s3.op.err" [("op", m.op), ("kind", e.errorKind.display)] 1] := rfl
  rw [happ, List.filter_append, https_record]
  simp [Record.isHttp]

theorem https_drop (now : ℕ) : (m.drop now).filter Record.isHttp = [] := by
  unfold OpMetrics.drop
  split_ifs
  · rfl
  · rw [List.filter_append, https_record]
    simp [Record.isHttp]

end

/-- **Only `http` makes records of transfers.** -/
theorem Tally.next_https (s : Tally) (e : Metric) :
    (s.next e).records.filter Record.isHttp = s.records.filter Record.isHttp ++ e.https := by
  obtain ⟨m, rs⟩ := s
  have hnone : ∀ rs', rs'.filter Record.isHttp = [] →
      (rs ++ rs').filter Record.isHttp = rs.filter Record.isHttp ++ [] := by
    intro rs' h
    rw [List.filter_append, h]
  cases e with
  | startOperation op now =>
    exact hnone (S3o.startOperation op now).2 (by simp [S3o.startOperation, Record.isHttp])
  | addQueueWait d => exact (List.append_nil _).symm
  | sent n => exact (List.append_nil _).symm
  | recv n => exact (List.append_nil _).symm
  | ok now later =>
    cases m with
    | none => exact (List.append_nil _).symm
    | some m => exact hnone _ (https_ok m now later)
  | err e now =>
    cases m with
    | none => exact (List.append_nil _).symm
    | some m => exact hnone _ (https_err m e now)
  | http op nanos ok =>
    show (rs ++ httpRecords op nanos ok).filter Record.isHttp = _
    rw [List.filter_append]
    simp [Metric.https, httpRecords, Record.isHttp]
  | ttfb op nanos => exact hnone (ttfbRecords op nanos) (by simp [ttfbRecords, Record.isHttp])

theorem Tally.close_https (s : Tally) (now : ℕ) :
    (s.close now).filter Record.isHttp = s.records.filter Record.isHttp := by
  obtain ⟨m, rs⟩ := s
  unfold Tally.close
  rw [List.filter_append]
  cases m with
  | none => exact List.append_nil _
  | some m =>
    show _ ++ (m.drop now).filter Record.isHttp = _
    rw [https_drop, List.append_nil]

section

variable {P : Record → Bool} {Q : String → Bool → Bool}

/-- **The records of transfers are those that are seen of them.** `P` counts records, and `Q` what they
are made from. -/
theorem Proc.countP_records (hP : ∀ r, P r = true → r.isHttp = true)
    (hQ : ∀ op nanos ok, (httpRecords op nanos ok).countP P = (Q op ok).toNat) (q : Proc κ) :
    q.records.countP P = (q.trace.filterMap wireOf).countP (Wire.counts Q) := by
  have hfilter : ∀ rs : List Record, rs.countP P = (rs.filter Record.isHttp).countP P := by
    intro rs
    rw [List.countP_filter]
    refine List.countP_congr fun r _ => ?_
    rw [Bool.and_eq_true]
    exact ⟨fun h => ⟨h, hP r h⟩, fun h => h.1⟩
  have hclose : q.records.countP P = q.tally.records.countP P := by
    unfold Proc.records
    split_ifs
    · rw [hfilter, Tally.close_https, ← hfilter]
    · rfl
  -- a message is no record
  have hmsg : ∀ (es : List (Ev (S3 κ))) (e : Ev (S3 κ)),
      wireOf e = ((msgOf e).filter Msg.ofTransfer).map .msg →
      (es.filterMap wireOf).countP (Wire.counts Q) = ((e :: es).filterMap wireOf).countP (Wire.counts Q) := by
    intro es e he
    rw [List.filterMap_cons, he]
    cases (msgOf e).filter Msg.ofTransfer <;> rfl
  rw [hclose]
  unfold Proc.tally
  induction q.trace with
  | nil => rfl
  | cons e es ih =>
    cases e with
    | emit e =>
      show ((replay (metricsOf es)).next e).records.countP P = _
      rw [hfilter, Tally.next_https, List.countP_append, ← hfilter, ih]
      cases e with
      | http op nanos ok =>
        show _ + (httpRecords op nanos ok).countP P = (Wire.http op ok :: _).countP (Wire.counts Q)
        rw [hQ, List.countP_cons]
        cases hq : Q op ok <;> simp [Wire.counts, hq]
      | _ => rfl
    | sent n r => exact ih.trans (hmsg es _ rfl)
    | answered n r x => exact ih.trans (hmsg es _ rfl)
    | _ => exact ih

theorem Transferred.countP_records {label : String} {ts : List Transfer} {q : Proc κ}
    (h : Transferred label ts (q.trace.filterMap wireOf)) (hP : ∀ r, P r = true → r.isHttp = true)
    (hQ : ∀ op nanos ok, (httpRecords op nanos ok).countP P = (Q op ok).toNat) :
    q.records.countP P = ts.countP fun t => t.recorded && Q t.label t.succeeded := by
  rw [Proc.countP_records hP hQ]
  refine h.shuffle.countP_each fun t => ?_
  have hmessages : (t.messages.map Wire.msg).countP (Wire.counts Q) = 0 := by
    rw [List.countP_map]
    exact List.countP_eq_zero.mpr fun m _ => Bool.false_ne_true
  unfold Transfer.log
  rw [List.countP_append, hmessages, Nat.add_zero]
  cases t.recorded with
  | false => rfl
  | true =>
    show ([Wire.http t.label t.succeeded]).countP (Wire.counts Q) = (Q t.label t.succeeded).toNat
    cases hq : Q t.label t.succeeded <;> simp [Wire.counts, hq]

end

/-- **The HTTP records of a call are exact**: as many increments of `s3.http.total` have a label as
requests were sent with it, and as many records of `s3.http.duration` have a label and a status as
transfers with that label have had that outcome. -/
structure Proc.HttpExact (q : Proc κ) (ts : List Transfer) : Prop where
  total : ∀ op, q.records.count (.counter "s3.http.total" [("op", op)] 1) =
    (requestsOf (messages q.trace)).countP fun r => r.httpLabel = some op
  duration : ∀ op ok, q.records.countP (Record.lasts op ok) =
    ts.countP fun t => t.label = op ∧ t.succeeded = ok

section

variable {q : Proc κ} {label : String} {ts ts₀ : List Transfer}

theorem Attributed.countP_requests {ms : List Msg} (h : Attributed ts ms) (op : String) :
    (requestsOf ms).countP (fun r => r.httpLabel = some op) = ts.countP fun t => t.label = op := by
  rw [← h.countP_each (P := Msg.asks op) fun t => t.countP_asks op]
  unfold requestsOf
  rw [List.countP_filterMap, List.countP_filter]
  refine List.countP_congr fun m _ => ?_
  cases m with
  | request r => simp +contextual [Msg.asks, Msg.ofTransfer]
  | _ => simp [Msg.asks]

theorem Transferred.count_total (h : Transferred label ts (q.trace.filterMap wireOf)) (op : String) :
    q.records.count (.counter "s3.http.total" [("op", op)] 1) =
      ts.countP fun t => t.recorded && t.label = op := by
  refine h.countP_records (Q := fun op' _ => op' = op) (fun r hr => ?_) fun op' nanos ok => ?_
  · obtain rfl := eq_of_beq hr
    simp [Record.isHttp]
  · by_cases hop : op' = op
    · simp [httpRecords, hop]
    · simp [httpRecords, hop]

theorem Transferred.countP_duration (h : Transferred label ts (q.trace.filterMap wireOf)) (op : String)
    (ok : Bool) : q.records.countP (Record.lasts op ok) =
      ts.countP fun t => t.recorded && (t.label = op ∧ t.succeeded = ok : Bool) := by
  refine h.countP_records (Q := fun op' ok' => op' = op ∧ ok' = ok) (fun r => Record.isHttp_of_lasts)
    fun op' nanos ok' => ?_
  by_cases hop : op' = op
  · cases ok' <;> cases ok <;> simp [httpRecords, Record.lasts, hop]
  · simp [httpRecords, Record.lasts, hop]

/-- **The records are exact when no range has failed, and only then.** -/
theorem Transferred.exact_iff (h₀ : Transferred label ts₀ (q.trace.filterMap wireOf))
    (h : Attributed ts (messages q.trace)) :
    q.HttpExact ts ↔ ∀ t ∈ ts, t.ranged = true → t.succeeded = true := by
  have hcounts := attributed_counts h h₀.attributed h₀.labels
  have hlost : ts.countP (fun t => !t.recorded) = ts₀.countP fun t => !t.recorded := by
    simp only [Transfer.not_recorded]
    exact hcounts "get_range" false
  have hnone : ∀ us : List Transfer, us.countP (fun t => !t.recorded) = 0 ↔ ∀ t ∈ us, t.recorded = true := by
    intro us
    rw [List.countP_eq_zero]
    exact forall₂_congr fun t _ => by cases t.recorded <;> simp
  have hall : (∀ t ∈ ts, t.ranged = true → t.succeeded = true) ↔ ts.countP (fun t => !t.recorded) = 0 := by
    rw [hnone]
    exact forall₂_congr fun t _ => t.recorded_iff.symm
  rw [hall]
  constructor
  · -- a range that fails is not recorded as `err`
    intro hexact
    have hduration := hexact.duration "get_range" false
    rw [h₀.countP_duration] at hduration
    simp only [← Transfer.not_recorded, Bool.and_not_self] at hduration
    rw [← hduration, List.countP_false]
    rfl
  · intro hzero
    rw [hlost] at hzero
    have hrecorded := (hnone ts₀).mp hzero
    refine ⟨fun op => ?_, fun op ok => ?_⟩
    · rw [h₀.count_total, h₀.attributed.countP_requests]
      refine List.countP_congr fun t ht => ?_
      rw [hrecorded t ht, Bool.true_and]
    · rw [h₀.countP_duration, hcounts]
      refine List.countP_congr fun t ht => ?_
      rw [hrecorded t ht, Bool.true_and]

end

/-! ## Every run -/

variable [DecidableEq κ] [DecidableEq ι]

/-- **Every transfer is recorded once, with its outcome, exactly when no range has failed.** In every run,
the messages of an upload or a download that has returned are those of its transfers. However they are
attributed, its HTTP records are exact when every GET of a range was accepted and its body read, and only
then. -/
theorem http_exact_iff (S : Setup κ ι) {s : Sys κ ι} {l : List ((ι × Act κ) × Sys κ ι)}
    (hr : Run Sys.Step S.init l s) {i : ι} (hop : (S.op i).transfers = true) {r : Outcome}
    (hm : (s.procs i).mode = .ended (some r)) :
    (∃ ts, Attributed ts (messages (s.procs i).trace)) ∧
    ∀ ts, Attributed ts (messages (s.procs i).trace) →
      ((s.procs i).HttpExact ts ↔ ∀ t ∈ ts, t.ranged = true → t.succeeded = true) := by
  obtain ⟨τ, hτ⟩ := follows_run hr i
  obtain ⟨label, ts₀, h₀⟩ := hτ.reached.returned (op_transferred hop) hm
  unfold wired at h₀
  rw [← hτ.trace] at h₀
  exact ⟨⟨ts₀, h₀.attributed⟩, fun ts h => h₀.exact_iff h⟩

/-- The download of an object of one byte, by its range. -/
theorem http_exact_byte : ∃ l s ts, Run Sys.Step getSetup.init l s ∧
    (s.procs 0).mode = .ended (some (.ok (.data [7]))) ∧ ts ≠ [] ∧ (s.procs 0).HttpExact ts := by
  let t : Transfer := .get "bucket" "key" (some ⟨0, 0⟩) (.read [7] [7])
  obtain ⟨l, s, hr, hrun⟩ := getSetup.observe (sampleAnswer [7]) (List.replicate 57 (0, .go))
    (fun s => ((s.procs 0).mode, messages (s.procs 0).trace))
    (v := (.ended (some (.ok (.data [7]))),
      t.messages ++ (getSetup.client 0).measured "key" ⟨some 1, none, none, none⟩)) rfl
  obtain ⟨hm, hmsgs⟩ := Prod.mk.inj hrun
  have hattr : Attributed [t] (messages (s.procs 0).trace) := by
    rw [hmsgs]
    exact shuffle_one Transfer.messages t
  refine ⟨l, s, [t], hr, hm, List.cons_ne_nil _ _, ?_⟩
  refine ((http_exact_iff getSetup hr (i := 0) rfl hm).2 [t] hattr).mpr fun u hu _ => ?_
  obtain rfl := List.mem_singleton.mp hu
  rfl

/-- A service that reports one byte and refuses its range. -/
def refusedRange (n : ℕ) : ∀ q, (S3 κ).Ans q
  | .http (.getObject ..) => .error (.serviceError 503 "SlowDown")
  | q => sampleAnswer [7] n q

/-- **A range that fails has no record.** The GET of the only range is refused: one request with the label
`get_range` was sent, and no record has it. -/
theorem range_failure_unrecorded : ∃ l s, Run Sys.Step getSetup.init l s ∧
    (s.procs 0).mode = .ended (some (.error (.backend .throttled "SlowDown"))) ∧
    requestsOf (messages (s.procs 0).trace) =
      [.getObject "bucket" "key" (some ⟨0, 0⟩), .headObject "bucket" "key"] ∧
    (s.procs 0).records.count (.counter "s3.http.total" [("op", "get_range")] 1) = 0 ∧
    (∀ ok, (s.procs 0).records.countP (Record.lasts "get_range" ok) = 0) ∧
    ∀ ts, ¬ (s.procs 0).HttpExact ts := by
  obtain ⟨l, s, hr, hrun⟩ := getSetup.observe refusedRange (List.replicate 51 (0, .go))
    (fun s => ((s.procs 0).mode, requestsOf (messages (s.procs 0).trace),
      (s.procs 0).records.filter Record.isHttp))
    (v := (.ended (some (.error (.backend .throttled "SlowDown"))),
      [.getObject "bucket" "key" (some ⟨0, 0⟩), .headObject "bucket" "key"], [])) rfl
  simp only [Prod.mk.injEq, List.filter_eq_nil_iff] at hrun
  obtain ⟨hm, hreq, hnone⟩ := hrun
  have htotal : (s.procs 0).records.count (.counter "s3.http.total" [("op", "get_range")] 1) = 0 :=
    List.count_eq_zero.mpr fun hmem => hnone _ hmem rfl
  refine ⟨l, s, hr, hm, hreq, htotal, fun ok => List.countP_eq_zero.mpr fun r hmem hr' => ?_,
    fun ts hexact => ?_⟩
  · exact hnone r hmem (Record.isHttp_of_lasts hr')
  · have hcount := hexact.total "get_range"
    rw [htotal, hreq] at hcount
    simp [Request.httpLabel] at hcount

end S3o
