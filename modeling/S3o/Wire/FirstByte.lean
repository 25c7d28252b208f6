import S3o.Async.Balance
import S3o.System.Traffic
import S3o.Wire.Records

/-!
# Times to first byte

A transfer records its time to first byte when `send` returns, whatever it returns. So unlike
`s3.http.total` the histogram `s3.http.ttfb` counts every transfer, failed ranges included.

* `heads`, `asks`: the records and the requests with a label;
* `Headed`: a statement that keeps them balanced;
* **`op_headed`**: every operation does;
* **`ttfb_exact`**: a call never has more records than requests, and as many when it returns.
-/

namespace S3o

open Async Lts

variable {κ ι α : Type}

/-- The time to first byte of a request with the label `op` is recorded. -/
def heads (op : String) : Ev (S3 κ) → Bool
  | .emit (.ttfb op' _) => op' = op
  | _ => false

/-- A request with the label `op` is sent. -/
def asks (op : String) : Ev (S3 κ) → Bool
  | .sent _ (Await.http r) => r.httpLabel = some op
  | _ => false

variable (op : String)

/-- As many records as requests. -/
def Matched (τ : History (S3 κ)) : Prop := τ.tally (heads op) = τ.tally (asks op)

/-- The records are never ahead of the requests. -/
abbrev heading : Watch (S3 κ) := behind (heads op) (asks op)

/-- **A statement that keeps records and requests balanced.** -/
def Headed (p : Prog (S3 κ) α) : Prop :=
  ∀ τ, Matched op τ → p.Spec (heading op) (fun _ τ' => Matched op τ') τ

/-- A future that does. -/
def Leaf.Headed (l : Leaf (S3 κ) α) : Prop :=
  ∀ τ, Matched op τ → l.Spec (heading op) (fun _ τ' => Matched op τ') τ

section

variable {op} {self : S3Client κ} {key : String} {τ : History (S3 κ)} {t n : ℕ}

theorem Matched.le (h : Matched op τ) : τ.tally (heads op) ≤ τ.tally (asks op) := Nat.le_of_eq h

theorem Matched.event {e : Ev (S3 κ)} (h : Matched op τ) (h₁ : heads op e = false)
    (h₂ : asks op e = false) : Matched op ((t, .event e) :: τ) := by
  unfold Matched
  rw [History.tally_of_not h₁, History.tally_of_not h₂]
  exact h

theorem Matched.read (h : Matched op τ) : Matched op ((t, .read) :: τ) := h

/-- A request with the label `label` that waits for its record. -/
structure Owing (op label : String) (τ : History (S3 κ)) : Prop where
  tally : τ.tally (asks op) = τ.tally (heads op) + if label = op then 1 else 0

theorem Owing.le {label : String} (h : Owing op label τ) : τ.tally (heads op) ≤ τ.tally (asks op) := by
  rw [h.tally]
  exact Nat.le_add_right _ _

theorem Matched.asked {r : Request} {label : String} (h : Matched op τ) (hr : r.httpLabel = some label) :
    Owing op label ((t, .event (requested n r)) :: τ) := by
  refine ⟨?_⟩
  have hheads : heads op (requested (κ := κ) n r) = false := rfl
  rw [History.tally_of_not hheads, h]
  by_cases hop : label = op
  · have hasks : asks op (requested (κ := κ) n r) = true := by simp [asks, hr, hop]
    rw [History.tally_of hasks, if_pos hop]
  · have hasks : asks op (requested (κ := κ) n r) = false := by simp [asks, hr, hop]
    rw [History.tally_of_not hasks, if_neg hop, Nat.add_zero]

theorem Owing.event {label : String} {e : Ev (S3 κ)} (h : Owing op label τ) (h₁ : heads op e = false)
    (h₂ : asks op e = false) : Owing op label ((t, .event e) :: τ) := by
  refine ⟨?_⟩
  rw [History.tally_of_not h₁, History.tally_of_not h₂]
  exact h.tally

theorem Owing.read {label : String} (h : Owing op label τ) : Owing op label ((t, .read) :: τ) := ⟨h.tally⟩

theorem Owing.paid {label : String} {d : ℕ} (h : Owing op label τ) :
    Matched op ((t, .event (.emit (.ttfb label d))) :: τ) := by
  have hasks : asks op (.emit (.ttfb label d) : Ev (S3 κ)) = false := rfl
  unfold Matched
  rw [History.tally_of_not hasks, h.tally]
  by_cases hop : label = op
  · have hheads : heads op (.emit (.ttfb label d) : Ev (S3 κ)) = true := by simp [heads, hop]
    rw [History.tally_of hheads, if_pos hop]
  · have hheads : heads op (.emit (.ttfb label d) : Ev (S3 κ)) = false := by simp [heads, hop]
    rw [History.tally_of_not hheads, if_neg hop, Nat.add_zero]

/-! ## Requests -/

theorem Leaf.send_owing {r : Request} {label : String} (hr : r.httpLabel = some label)
    (hτ : Matched op τ) :
    (Leaf.send r : Leaf (S3 κ) _).Spec (heading op) (fun _ τ' => Owing op label τ') τ := by
  rw [Leaf.spec_send]
  refine ⟨hτ.le, fun s n => ?_⟩
  have howing : Owing op label ((s, .event (requested n r)) :: τ) := hτ.asked hr
  refine ⟨howing.le, trivial, fun t x => ?_⟩
  have hreply : Owing op label ((t, .event (replied n r x)) :: (s, .event (requested n r)) :: τ) :=
    howing.event rfl rfl
  exact ⟨hreply.le, hreply⟩

theorem Leaf.send_headed {r : Request} (hr : r.httpLabel = none) :
    Leaf.Headed op (Leaf.send r : Leaf (S3 κ) _) := by
  intro τ hτ
  rw [Leaf.spec_send]
  refine ⟨hτ.le, fun s n => ?_⟩
  have hasks : asks op (requested (κ := κ) n r) = false := by simp [asks, hr]
  have hsent : Matched op ((s, .event (requested n r)) :: τ) := hτ.event rfl hasks
  refine ⟨hsent.le, trivial, fun t x => ?_⟩
  have hreply : Matched op ((t, .event (replied n r x)) :: (s, .event (requested n r)) :: τ) :=
    hsent.event rfl rfl
  exact ⟨hreply.le, hreply⟩

theorem send_headed {r : Request} (hr : r.httpLabel = none) : Headed op (send r : Prog (S3 κ) _) :=
  fun τ hτ => spec_send (Leaf.send_headed hr τ hτ)

theorem Leaf.collect_headed (b : Bytes) (label : String) :
    Leaf.Headed op (Leaf.collect b label : Leaf (S3 κ) _) := by
  intro τ hτ
  rw [Leaf.spec_collect]
  refine ⟨hτ.le, fun s n => ?_⟩
  have hsent : Matched op ((s, .event (.sent (S := S3 κ) n (Await.collect b))) :: τ) := hτ.event rfl rfl
  refine ⟨hsent.le, trivial, fun t x => ?_⟩
  have hread : Matched op ((t, .event (collected n b x)) ::
      (s, .event (.sent (S := S3 κ) n (Await.collect b))) :: τ) := hsent.event rfl rfl
  exact ⟨hread.le, hread⟩

theorem Leaf.log_headed {e : Metric} (he : heads op (.emit e : Ev (S3 κ)) = false) :
    Leaf.Headed op (Leaf.log e : Leaf (S3 κ) _) := by
  intro τ hτ
  rw [Leaf.spec_log]
  have hlog : ∀ t, Matched op ((t, .event (.emit e)) :: τ) := fun t => hτ.event he rfl
  exact ⟨hτ.le, fun t => ⟨(hlog t).le, hlog t⟩⟩

theorem log_headed {e : Metric} (he : heads op (.emit e : Ev (S3 κ)) = false) :
    Headed op (Prog.log e : Prog (S3 κ) _) := by
  intro τ hτ
  rw [Prog.spec_log]
  have hlog : ∀ t, Matched op ((t, .event (.emit e)) :: τ) := fun t => hτ.event he rfl
  exact ⟨hτ.le, fun t => ⟨(hlog t).le, hlog t⟩⟩

/-! ## Statements -/

theorem Headed.ret (a : α) : Headed op (.ret a : Prog (S3 κ) α) :=
  fun _ hτ => (Prog.spec_ret a).mpr ⟨hτ.le, hτ⟩

theorem Leaf.Headed.ret (a : α) : Leaf.Headed op (.ret a : Leaf (S3 κ) α) :=
  fun _ hτ => (Leaf.spec_ret a).mpr ⟨hτ.le, hτ⟩

/-- **Sequencing.** -/
theorem Headed.bind {β : Type} {p : Prog (S3 κ) α} {f : α → Prog (S3 κ) β} (hp : Headed op p)
    (hf : ∀ a, Headed op (f a)) : Headed op (p.bind f) := by
  intro τ hτ
  rw [Prog.spec_bind]
  exact (hp τ hτ).weaken fun a τ' _ hτ' => hf a τ' hτ'

theorem Leaf.Headed.bind {β : Type} {p : Leaf (S3 κ) α} {f : α → Leaf (S3 κ) β} (hp : Leaf.Headed op p)
    (hf : ∀ a, Leaf.Headed op (f a)) : Leaf.Headed op (p.bind f) := by
  intro τ hτ
  rw [Leaf.spec_bind]
  exact Fut.Spec.weaken (hp τ hτ) fun a τ' _ hτ' => hf a τ' hτ'

theorem clock_headed : Headed op (Prog.clock : Prog (S3 κ) ℕ) := by
  intro τ hτ
  rw [Prog.spec_clock]
  exact ⟨hτ.le, fun t => ⟨hτ.read.le, hτ.read⟩⟩

theorem guarded_headed {h : Half} {a : Acquire} {rest : Prog (S3 κ) (S3Result α)}
    (hrest : Headed op rest) : Headed op (self.guarded h a rest) := by
  intro τ hτ
  rw [spec_guarded]
  refine ⟨hτ.le, fun s => ?_⟩
  have hwant : Matched op ((s, .event (.want (self.pool, h) a)) :: τ) := hτ.event rfl rfl
  refine ⟨hwant.le, trivial, fun t => ?_, fun t => ?_⟩
  · have hgot : Matched op ((t, .event (.got (self.pool, h) a (t - s))) ::
        (s, .event (.want (self.pool, h) a)) :: τ) := hwant.event rfl rfl
    refine ⟨hgot.le, fun u => ?_⟩
    refine (hrest _ (hgot.event rfl rfl)).weaken fun r τ' _ hτ' => ⟨hτ'.le, fun v => ?_⟩
    have hfreed : Matched op ((v, .event .freed) :: τ') := hτ'.event rfl rfl
    exact ⟨hfreed.le, hfreed⟩
  · have hlost : Matched op ((t, .event (.lost (self.pool, h) a)) ::
        (s, .event (.want (self.pool, h) a)) :: τ) := hwant.event rfl rfl
    exact ⟨hlost.le, hlost⟩

/-- **A stream.** -/
theorem stream_headed {w : ℕ} {ls : List (Leaf (S3 κ) α)} (hl : ∀ l ∈ ls, Leaf.Headed op l) :
    Headed op (Prog.bufferUnordered w ls : Prog (S3 κ) (List α)) :=
  fun _ hτ => Prog.spec_balanced (fun l h => hl l h [] rfl) hτ

/-! ## Transfers -/

/-- The rest of a future whose request owes a record: it makes the record, and keeps the balance. -/
def Leaf.Pays (op label : String) (l : Leaf (S3 κ) α) : Prop :=
  ∀ τ, Owing op label τ → l.Spec (heading op) (fun _ τ' => Matched op τ') τ

section

variable {label : String} {β : Type}

theorem Leaf.Headed.send {r : Request} {f : S3Result r.Output → Leaf (S3 κ) β}
    (hr : r.httpLabel = some label) (hf : ∀ x, Leaf.Pays op label (f x)) :
    Leaf.Headed op ((Leaf.send r).bind f) := by
  intro τ hτ
  rw [Leaf.spec_bind]
  exact Fut.Spec.weaken (Leaf.send_owing hr hτ) fun x τ' _ hτ' => hf x τ' hτ'

theorem Leaf.Pays.clock {f : ℕ → Leaf (S3 κ) β} (hf : ∀ t, Leaf.Pays op label (f t)) :
    Leaf.Pays op label (Leaf.clock.bind f) := by
  intro τ hτ
  rw [Leaf.spec_bind, Leaf.spec_clock]
  exact ⟨hτ.le, fun t => hf t τ hτ⟩

theorem Leaf.Pays.log {e : Metric} {f : Unit → Leaf (S3 κ) β} (he : heads op (.emit e : Ev (S3 κ)) = false)
    (hf : Leaf.Pays op label (f ())) : Leaf.Pays op label ((Leaf.log e : Leaf (S3 κ) Unit).bind f) := by
  intro τ hτ
  rw [Leaf.spec_bind, Leaf.spec_log]
  have hlog : ∀ t, Owing op label ((t, .event (.emit e)) :: τ) := fun t => hτ.event he rfl
  exact ⟨hτ.le, fun t => ⟨(hlog t).le, hf _ (hlog t)⟩⟩

/-- **The record.** -/
theorem Leaf.Pays.head {d : ℕ} {f : Unit → Leaf (S3 κ) β} (hf : Leaf.Headed op (f ())) :
    Leaf.Pays op label ((Leaf.log (Metric.ttfb label d) : Leaf (S3 κ) Unit).bind f) := by
  intro τ hτ
  rw [Leaf.spec_bind, Leaf.spec_log]
  exact ⟨hτ.le, fun t => ⟨hτ.paid.le, hf _ hτ.paid⟩⟩

theorem Leaf.Headed.clock {f : ℕ → Leaf (S3 κ) β} (hf : ∀ t, Leaf.Headed op (f t)) :
    Leaf.Headed op (Leaf.clock.bind f) := by
  intro τ hτ
  rw [Leaf.spec_bind, Leaf.spec_clock]
  exact ⟨hτ.le, fun t => hf t τ hτ⟩

end

/-- **A part** records its time to first byte last. -/
theorem uploadPart_headed (uid : String) (pn : ℤ) (chunk : Bytes) :
    Leaf.Headed op (self.uploadPart key uid pn chunk) := by
  unfold S3Client.uploadPart
  simp only [Leaf.bind_eq, Leaf.pure_eq]
  refine .clock fun t => .send rfl fun r => .clock fun t' => .log rfl (.head ?_)
  exact Leaf.Headed.ret _

/-- **The GET of a whole object** records it before the body is read. -/
theorem getBody_headed : Leaf.Headed op (self.getBody key) := by
  unfold S3Client.getBody
  simp only [Leaf.bind_eq, Leaf.pure_eq]
  refine .clock fun t => .send rfl fun r => .clock fun t' => .head ?_
  have hend : ∀ r : S3Result Bytes, Leaf.Headed op
      (Leaf.clock.bind fun now => (Leaf.log (Metric.http "get" (now - t) (isOk r))).bind fun _ =>
        .ret r : Leaf (S3 κ) (S3Result Bytes)) :=
    fun r => .clock fun now => .bind (Leaf.log_headed rfl) fun _ => Leaf.Headed.ret _
  cases r with
  | error e => exact hend _
  | ok output => exact .bind (Leaf.collect_headed _ _) hend

/-- **A range** records it whether it fails or not. -/
theorem rangePart_headed (i : ℕ) (r : ℕ × ℕ) : Leaf.Headed op (self.rangePart key i r) := by
  unfold S3Client.rangePart
  simp only [Leaf.bind_eq, Leaf.pure_eq]
  refine .clock fun t => .send rfl fun reply => .clock fun t' => .head ?_
  cases reply with
  | error e => exact Leaf.Headed.ret _
  | ok output =>
    refine .bind (Leaf.collect_headed _ _) fun body => ?_
    cases body with
    | error e => exact Leaf.Headed.ret _
    | ok d => exact .clock fun now => .bind (Leaf.log_headed rfl) fun _ => Leaf.Headed.ret _

/-- **`simple_put`** records it after its transfer. -/
theorem simplePut_headed (body : Bytes) : Headed op (self.simplePut key body) := by
  refine guarded_headed fun τ hτ => ?_
  simp only [Prog.bind_eq, Prog.pure_eq, Prog.spec_bind, Prog.spec_clock, Prog.spec_log, Prog.spec_ret]
  refine ⟨hτ.le, fun t => ⟨hτ.le, ?_⟩⟩
  have hsend : (Leaf.send (.putObject self.config.bucket key body self.checksum) : Leaf (S3 κ) _).Spec
      (heading op) (fun _ τ' => Owing op "put" τ') ((t, .read) :: τ) := Leaf.send_owing rfl hτ.read
  refine Prog.Spec.weaken (spec_send hsend) fun r τ₁ _ h₁ => ?_
  refine ⟨h₁.le, fun t' => ⟨h₁.le, h₁.le, fun u => ?_⟩⟩
  have hread : Owing op "put" ((t', .read) :: τ₁) := h₁.read
  have hhttp : Owing op "put" ((u, .event (.emit (.http "put" (t' - t) (isOk r)))) :: (t', .read) :: τ₁) :=
    hread.event rfl rfl
  exact ⟨hhttp.le, hhttp.le, fun v => ⟨hhttp.paid.le, hhttp.paid.le, hhttp.paid⟩⟩

/-! ## Operations -/

theorem stat_headed : Headed op (self.stat key) := by
  refine guarded_headed ?_
  rw [Prog.bind_eq]
  exact .bind (send_headed rfl) fun r => Headed.ret _

theorem simpleGet_headed : Headed op (self.simpleGet key) :=
  guarded_headed fun τ hτ => Prog.spec_wait (getBody_headed τ hτ)

theorem paginatedList_headed (pfx : String) (recursive : Bool) :
    Headed op (self.paginatedList pfx recursive) := by
  intro τ hτ
  refine Prog.spec_repeat (fun _ _ τ => Matched op τ) (fun i s τ hτ => ⟨fun _ _ => trivial, ?_⟩) hτ
  unfold S3Client.listPage
  simp only [Leaf.bind_eq, Leaf.pure_eq, Leaf.spec_bind]
  refine Fut.Spec.weaken (Leaf.send_headed rfl τ hτ) fun r τ' _ hτ' => ?_
  cases r with
  | error e => exact (Leaf.spec_ret _).mpr ⟨hτ'.le, hτ'⟩
  | ok resp =>
    dsimp only
    split
    · exact (Leaf.spec_ret _).mpr ⟨hτ'.le, hτ'⟩
    · exact (Leaf.spec_ret _).mpr ⟨hτ'.le, hτ'⟩

/-- **`multipart_put`.** -/
theorem multipartPut_headed (body : Bytes) : Headed op (self.multipartPut key body) := by
  refine guarded_headed ?_
  rw [Prog.bind_eq]
  refine .bind (send_headed rfl) fun r => ?_
  match r with
  | .error e => exact Headed.ret _
  | .ok ⟨none⟩ => exact Headed.ret _
  | .ok ⟨some uid⟩ =>
    refine .bind (stream_headed fun l hl => ?_) fun results => ?_
    · obtain ⟨c, -, rfl⟩ := List.mem_map.mp hl
      exact uploadPart_headed uid c.1 c.2
    · cases S3Client.collectParts results with
      | mk parts err =>
        cases err with
        | some e => exact .bind (send_headed rfl) fun _ => Headed.ret _
        | none => exact send_headed rfl

/-- **`range_get`.** -/
theorem rangeGet_headed (total : ℕ) : Headed op (self.rangeGet key total) := by
  refine guarded_headed ?_
  rw [Prog.bind_eq]
  refine .bind (stream_headed fun l hl => ?_) fun results => Headed.ret _
  obtain ⟨i, -, rfl⟩ := List.mem_map.mp hl
  exact rangePart_headed i _

theorem sequential_headed (op : String) : Sequential fun _ (p : Prog (S3 κ) _) => Headed op p where
  ret := Headed.ret
  bind := Headed.bind
  clock := clock_headed
  log {e} he := log_headed <| by
    cases e with
    | ttfb => exact he.elim
    | _ => rfl

/-- **Every operation keeps the balance.** -/
theorem op_headed (o : Op) : Headed op (o.program self) := by
  have hsequential : Sequential fun _ (p : Prog (S3 κ) _) => Headed op p := sequential_headed op
  refine op_of_scopes hsequential ?_
  cases o with
  | put key body => exact ⟨fun _ => multipartPut_headed _, fun _ => simplePut_headed _⟩
  | get key => exact ⟨stat_headed, rangeGet_headed, simpleGet_headed⟩
  | delete key =>
    refine guarded_headed (.bind (send_headed rfl) fun r => ?_)
    exact .bind (hsequential.finish r) fun _ => Headed.ret r
  | head key => exact stat_headed
  | list pfx recursive =>
    refine guarded_headed (.bind (paginatedList_headed pfx recursive) fun r => ?_)
    exact .bind (hsequential.finish r) fun _ => Headed.ret r

end

/-! ## The records -/

/-- A record of `s3.http.ttfb` with the label `op`. -/
def Record.heads (op : String) : Record → Bool
  | .histogram name labels _ => name = "s3.http.ttfb" ∧ labels = [("op", op)]
  | _ => false

section

variable (op : String)

theorem countP_eq_seen (rs : List Record) :
    rs.countP (Record.heads op) = (rs.filterMap (Option.guard fun r => r.heads op)).length := by
  rw [List.countP_eq_length_filter, List.filterMap_eq_filter]

theorem heads_unseen (r : Record) (hr : r.isEnd = true) :
    Option.guard (fun r => Record.heads op r) r = none := by
  rw [Option.guard_eq_none_iff]
  cases r with
  | histogram name labels v =>
    have hname : name ≠ "s3.http.ttfb" := by
      rintro rfl
      cases hr
    simp [Record.heads, hname]
  | _ => rfl

/-- **Only `ttfb` makes these records.** -/
theorem Tally.next_heads (s : Tally) (e : Metric) : (s.next e).records.countP (Record.heads op) =
    s.records.countP (Record.heads op) + (heads op (.emit e : Ev (S3 κ))).toNat := by
  have hnews : (s.news e).countP (Record.heads op) = (heads op (.emit e : Ev (S3 κ))).toNat := by
    cases e with
    | ok now later =>
      obtain ⟨m, rs⟩ := s
      cases m with
      | none => rfl
      | some m =>
        show (m.bytes later).countP (Record.heads op) = 0
        unfold OpMetrics.bytes
        dsimp only
        split_ifs <;> simp [Record.heads]
    | http label nanos ok => simp [Tally.news, httpRecords, Record.heads, heads]
    | ttfb label nanos =>
      by_cases hop : label = op <;> simp [Tally.news, ttfbRecords, Record.heads, heads, hop]
    | _ => rfl
  rw [← hnews, countP_eq_seen, Tally.next_seen (heads_unseen op), List.length_append, ← countP_eq_seen,
    ← countP_eq_seen]

end

theorem Proc.countP_heads (op : String) (q : Proc κ) :
    q.records.countP (Record.heads op) = q.trace.countP (heads op) := by
  rw [countP_eq_seen, Proc.records_seen (heads_unseen op), ← countP_eq_seen]
  unfold Proc.tally
  induction q.trace with
  | nil => rfl
  | cons e es ih =>
    rw [List.countP_cons]
    cases e with
    | emit e =>
      show ((replay (metricsOf es)).next e).records.countP (Record.heads op) = _
      rw [Tally.next_heads (κ := κ), ih]
      cases heads op (.emit e : Ev (S3 κ)) <;> rfl
    | _ => exact ih

theorem countP_asks (op : String) (es : List (Ev (S3 κ))) :
    (requestsOf (messages es)).countP (fun r => r.httpLabel = some op) = es.countP (asks op) := by
  induction es with
  | nil => rfl
  | cons e es ih =>
    rw [List.countP_cons, ← ih]
    cases e with
    | sent n q =>
      cases q with
      | http r => exact List.countP_cons
      | collect b => rfl
    | answered n q x =>
      cases q with
      | http r => rfl
      | collect b => rfl
    | _ => rfl

/-! ## Every run -/

variable [DecidableEq κ] [DecidableEq ι]

/-- **Every transfer has one time to first byte.** In every run and for every label, a call never has more
records of `s3.http.ttfb` than it has sent requests, and exactly as many when it has returned, whatever has
failed. -/
theorem ttfb_exact (S : Setup κ ι) {s : Sys κ ι} {l : List ((ι × Act κ) × Sys κ ι)}
    (hr : Run Sys.Step S.init l s) (i : ι) (op : String) :
    (s.procs i).records.countP (Record.heads op) ≤
        (requestsOf (messages (s.procs i).trace)).countP (fun r => r.httpLabel = some op) ∧
      ∀ r, (s.procs i).mode = .ended (some r) → (s.procs i).records.countP (Record.heads op) =
        (requestsOf (messages (s.procs i).trace)).countP fun r => r.httpLabel = some op := by
  obtain ⟨τ, hτ⟩ := follows_run hr i
  have hheaded : Headed op ((S.op i).program (S.client i)) := op_headed (S.op i)
  have hspec := hheaded [] rfl
  rw [Proc.countP_heads, countP_asks, hτ.trace]
  exact ⟨hτ.reached.always hspec, fun r hm => hτ.reached.returned hspec hm⟩

/-- A range that fails has no `s3.http.total`, and its time to first byte. -/
theorem ttfb_exact_refused : ∃ l s, Run Sys.Step getSetup.init l s ∧
    (s.procs 0).mode = .ended (some (.error (.backend .throttled "SlowDown"))) ∧
    (s.procs 0).records.countP (Record.heads "get_range") = 1 := by
  obtain ⟨l, s, hr, hrun⟩ := getSetup.observe refusedRange (List.replicate 51 (0, .go))
    (fun s => ((s.procs 0).mode, requestsOf (messages (s.procs 0).trace)))
    (v := (.ended (some (.error (.backend .throttled "SlowDown"))),
      [.getObject "bucket" "key" (some ⟨0, 0⟩), .headObject "bucket" "key"])) rfl
  obtain ⟨hm, hreq⟩ := Prod.mk.inj hrun
  refine ⟨l, s, hr, hm, ((ttfb_exact getSetup hr 0 "get_range").2 _ hm).trans ?_⟩
  rw [hreq]
  decide

end S3o
