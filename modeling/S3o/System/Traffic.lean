import Mathlib.Algebra.BigOperators.Fin
import S3o.System.Accounting

/-!
# The bytes that a call counts

`put_object` notes the length of its body before it acquires anything, and `get_object` the length of what
it has read. They reach the byte counters when the call ends, and only when it has succeeded.

* `Cargo`, `cargoOf`, `cargo`: the events that decide the byte counters, and their monitor;
* **`op_cargo`**: what a call has noted wherever it waits, and when it returns;
* `Load`, `load_replay`: the byte counters that a list of such events stands for;
* `Tally.next_seen`: what an event adds to the records other than those of an end;
* **`traffic_exact`**: in every run the byte counters are those of the calls that have succeeded.
-/

namespace S3o

open Async Lts

variable {κ ι : Type}

/-- The events that decide the byte counters of a call. -/
inductive Cargo
  | start (op : String)
  | sent (n : ℕ)
  | recv (n : ℕ)
  | ok
  deriving DecidableEq

def cargoOf : Ev (S3 κ) → Option Cargo
  | .emit (.startOperation op _) => some (.start op)
  | .emit (.sent n) => some (.sent n)
  | .emit (.recv n) => some (.recv n)
  | .emit (.ok _ _) => some .ok
  | _ => none

/-- The monitor of these events. A call may be suspended when they are `σ`. -/
abbrev cargo (σ : List Cargo) : Monitor (S3 κ) := .project cargoOf (· = σ)

/-- The bytes that a call is given. -/
def Op.size : Op → ℕ
  | .put _ body => body.data.length
  | _ => 0

/-- The bytes that a call returns. -/
def Value.size : Value → ℕ
  | .data d => d.length
  | _ => 0

/-- What a call notes before it first waits. -/
def Op.laden : Op → List Cargo
  | .put key body => [.sent body.data.length, .start (Op.put key body).label]
  | op => [.start op.label]

/-- What a call notes of what it returns. -/
def Value.noted : Value → List Cargo
  | .data d => [.recv d.length]
  | _ => []

/-- What a call has noted before it records its outcome. -/
def Op.Carried (op : Op) (g : List Cargo) : Outcome → Prop
  | .ok v => g = v.noted ++ op.laden
  | .error _ => g = op.laden

/-- What a call has noted when it returns. -/
def Op.Delivered (op : Op) (g : List Cargo) : Outcome → Prop
  | .ok v => g = .ok :: (v.noted ++ op.laden)
  | .error _ => g = op.laden

/-! ## The operations -/

section

variable {self : S3Client κ} {σ : List Cargo} {α : Type}

theorem cargoOf_unseen : Unseen (cargoOf (κ := κ)) :=
  ⟨fun _ _ => rfl, fun _ _ _ => rfl, fun _ _ _ => rfl, fun _ _ => rfl⟩

/-- **A statement that acquires** notes nothing, whether it gets its permits or not. -/
theorem Scoped.cargo {p : Prog (S3 κ) (S3Result α)} (hp : Scoped cargoOf self p) :
    (cargo σ).triples.Triple (· = σ) p fun g _ => g = σ := by
  obtain ⟨h, a, rest, rfl, hrest⟩ := hp
  intro (g : List Cargo) hg
  subst hg
  rw [safe_guarded]
  refine ⟨trivial, rfl, fun d => ⟨trivial, trivial, ?_⟩, trivial, rfl⟩
  exact Prog.safe_weaken (fun g r hg => ⟨trivial, hg⟩) _ _ (hrest g)

theorem finish_cargo {op : Op} {r : S3Result Value} {g : List Cargo} (h : op.Carried g r) :
    (finish r : Prog (S3 κ) _).Safe (cargo σ) (fun g' _ => op.Delivered g' r) g := by
  refine safe_finish r _ ?_ ?_
  · rintro x rfl t t'
    exact ⟨trivial, congrArg (Cargo.ok :: ·) h⟩
  · rintro e rfl t
    exact ⟨trivial, h⟩

theorem Op.Carried.plain {op : Op} {g : List Cargo} {v : α → Value} (hv : ∀ x, (v x).noted = [])
    (hg : g = op.laden) (r : S3Result α) : op.Carried g (r.map v) := by
  cases r with
  | ok x => exact hg.trans (by rw [hv]; rfl)
  | error e => exact hg

/-- An operation that ends under its guard notes only its outcome. -/
theorem ended_cargo {op : Op} {h : Half} {a : Acquire} {p : Prog (S3 κ) (S3Result α)} {v : α → Value}
    (hv : ∀ x, (v x).noted = []) (hp : p.Safe (cargo op.laden) (fun g _ => g = op.laden) op.laden) :
    (cargo op.laden).triples.Triple (· = op.laden)
      (self.guarded h a (p.bind fun r => (finish r).bind fun _ => .ret r))
      fun g r => op.Delivered g (r.map v) := by
  rintro g rfl
  rw [safe_guarded]
  refine ⟨trivial, rfl, fun d => ⟨trivial, trivial, ?_⟩, trivial, rfl⟩
  rw [Prog.safe_bind]
  refine Prog.safe_weaken (fun g r hg => ?_) _ _ hp
  rw [Prog.safe_bind, ← finish_map r v]
  exact Prog.safe_weaken (fun _ _ h => ⟨trivial, h⟩) _ _ (finish_cargo (.plain hv hg r))

/-- **What a call has noted**, wherever it waits and when it returns. -/
theorem op_cargo (op : Op) : (op.program self).Safe (cargo op.laden) op.Delivered [] := by
  refine op_of_stages (T := (cargo op.laden).triples) (A := (· = [.start op.label])) (B := op.Carried)
    (C := op.Delivered) (I := (· = [])) ?_ (fun r g h => finish_cargo h) ?_ [] rfl
  · rintro g rfl
    exact (safe_startOp _ _).mpr fun t => ⟨trivial, rfl⟩
  cases op with
  | put key body =>
    refine ⟨(· = (Op.put key body).laden), ?_, fun _ => ?_, fun _ => ?_⟩
    · rintro g rfl
      exact ⟨trivial, rfl⟩
    · exact (cargo _).triples.post (multipartPut_scoped cargoOf_unseen key body.data).cargo
        fun g r h => .plain (fun _ => rfl) h r
    · exact (cargo _).triples.post (simplePut_scoped cargoOf_unseen key body.data).cargo
        fun g r h => .plain (fun _ => rfl) h r
  | get key =>
    refine ⟨_, _, (stat_scoped cargoOf_unseen key).cargo, fun e g h => h,
      fun info _ => (rangeGet_scoped cargoOf_unseen key info.contentLength).cargo,
      fun info _ => (simpleGet_scoped cargoOf_unseen key).cargo, ?_, fun e g h => h⟩
    rintro d g rfl
    exact ⟨trivial, rfl⟩
  | delete key => exact ended_cargo (fun _ => rfl) (send_unseen cargoOf_unseen _)
  | head key =>
    exact (cargo _).triples.post (stat_scoped cargoOf_unseen key).cargo fun g r h => .plain (fun _ => rfl) h r
  | list pfx recursive =>
    exact ended_cargo (fun _ => rfl) (paginatedList_unseen cargoOf_unseen pfx recursive)

end

/-! ## The end of an operation -/

/-- A record of the end of an operation, other than its bytes. -/
def Record.isEnd : Record → Bool
  | .histogram name _ _ => ["s3.op.latency", "s3.op.duration", "s3.op.queue_wait"].contains name
  | .counter name _ _ => ["s3.op.ok", "s3.op.err", "s3.op.cancelled"].contains name
  | .gauge .. => false

/-- What an event records besides. -/
def Tally.news (s : Tally) : Metric → List Record
  | .startOperation op now => (startOperation op now).2
  | .ok _ later => (s.m.map fun m => m.bytes later).getD []
  | .http op nanos ok => httpRecords op nanos ok
  | .ttfb op nanos => ttfbRecords op nanos
  | _ => []

section

variable {β : Type} {f : Record → Option β}

theorem record_unseen (hf : ∀ r, r.isEnd = true → f r = none) (m : OpMetrics) (status : String) (now : ℕ) :
    (m.record status now).filterMap f = [] := by
  unfold OpMetrics.record
  split_ifs <;> simp [hf, Record.isEnd]

/-- **The records that are of interest** are those before an event and those of the event itself. -/
theorem Tally.next_seen (hf : ∀ r, r.isEnd = true → f r = none) (s : Tally) (e : Metric) :
    (s.next e).records.filterMap f = s.records.filterMap f ++ (s.news e).filterMap f := by
  obtain ⟨m, rs⟩ := s
  have hsame : rs.filterMap f = rs.filterMap f ++ [] := (List.append_nil _).symm
  cases e with
  | startOperation op now => exact List.filterMap_append
  | ok now later =>
    cases m with
    | none => exact hsame
    | some m =>
      show (rs ++ (m.record "ok" now ++
        ([Record.counter "s3.op.ok" [("op", m.op)] 1] ++ m.bytes later))).filterMap f = _
      rw [List.filterMap_append, List.filterMap_append, List.filterMap_append, record_unseen hf,
        List.filterMap_cons, hf _ rfl]
      rfl
  | err e now =>
    cases m with
    | none => exact hsame
    | some m =>
      show (rs ++ (m.record "err" now ++
        [Record.counter "s3.op.err" [("op", m.op), ("kind", e.errorKind.display)] 1])).filterMap f = _
      rw [List.filterMap_append, List.filterMap_append, record_unseen hf, List.filterMap_cons, hf _ rfl]
      rfl
  | http op nanos ok => exact List.filterMap_append
  | ttfb op nanos => exact List.filterMap_append
  | _ => exact hsame

theorem Proc.records_seen (hf : ∀ r, r.isEnd = true → f r = none) (q : Proc κ) :
    q.records.filterMap f = q.tally.records.filterMap f := by
  unfold Proc.records
  split_ifs
  · unfold Tally.close
    rw [List.filterMap_append]
    cases q.tally.m with
    | none => exact List.append_nil _
    | some m =>
      have hdrop : (m.drop q.clock).filterMap f = [] := by
        unfold OpMetrics.drop
        split_ifs
        · rfl
        · rw [List.filterMap_append, record_unseen hf, List.filterMap_cons, hf _ rfl]
          rfl
      show _ ++ (m.drop q.clock).filterMap f = _
      rw [hdrop, List.append_nil]
  · rfl

end

/-! ## From the events to the counters -/

/-- The records of the byte counters. -/
def shipments (rs : List Record) : List Record :=
  rs.filter (Record.counts ["s3.op.bytes_sent", "s3.op.bytes_recv"])

/-- The byte counters of a call that has noted `sent` and `recv`. A zero is not recorded. -/
def bill (op : String) (sent recv : ℕ) : List Record :=
  (if 0 < sent then [.counter "s3.op.bytes_sent" [("op", op)] sent] else []) ++
    if 0 < recv then [.counter "s3.op.bytes_recv" [("op", op)] recv] else []

/-- What a call has noted under its label, and its byte counters. -/
structure Load where
  noted : Option (String × ℕ × ℕ)
  billed : List Record

def Load.next (b : Load) : Cargo → Load
  | .start op => ⟨some (op, 0, 0), b.billed⟩
  | .sent n => { b with noted := b.noted.map fun m => (m.1, m.2.1 + n, m.2.2) }
  | .recv n => { b with noted := b.noted.map fun m => (m.1, m.2.1, m.2.2 + n) }
  | .ok => match b.noted with
    | none => b
    | some (op, sent, recv) => { b with billed := b.billed ++ bill op sent recv }

/-- The byte counters that a list of events stands for. -/
def load : List Cargo → Load
  | [] => ⟨none, []⟩
  | k :: l => (load l).next k

def Tally.load (s : Tally) : Load :=
  ⟨s.m.map fun m => (m.op, m.bytesSent, m.bytesRecv), shipments s.records⟩

theorem shipments_eq (rs : List Record) : shipments rs =
    rs.filterMap (Option.guard fun r => r.counts ["s3.op.bytes_sent", "s3.op.bytes_recv"]) :=
  (congrFun List.filterMap_eq_filter rs).symm

theorem shipments_unseen (r : Record) (hr : r.isEnd = true) :
    Option.guard (fun r => Record.counts ["s3.op.bytes_sent", "s3.op.bytes_recv"] r) r = none := by
  rw [Option.guard_eq_none_iff]
  cases r with
  | counter name labels n =>
    simp only [Record.isEnd, List.contains_cons, List.contains_nil, Bool.or_false, Bool.or_eq_true,
      beq_iff_eq] at hr
    rcases hr with rfl | rfl | rfl <;> rfl
  | _ => rfl

theorem shipments_bytes (m : OpMetrics) (now : ℕ) :
    shipments (m.bytes now) = bill m.op m.bytesSent m.bytesRecv := by
  unfold OpMetrics.bytes shipments bill
  dsimp only
  split_ifs <;> simp [Record.counts]

theorem Tally.next_shipments (s : Tally) (e : Metric) :
    shipments (s.next e).records = shipments s.records ++ shipments (s.news e) := by
  simp only [shipments_eq]
  exact Tally.next_seen shipments_unseen s e

/-- **The byte counters of a call are those of its events**, event by event. -/
theorem Tally.load_next (s : Tally) (e : Metric) :
    (s.next e).load = match cargoOf (.emit e : Ev (S3 κ)) with
      | none => s.load
      | some k => s.load.next k := by
  have hbilled := s.next_shipments e
  obtain ⟨m, rs⟩ := s
  unfold Tally.load
  rw [hbilled]
  have hsame : shipments rs ++ [] = shipments rs := List.append_nil _
  cases e with
  | startOperation op now => exact congrArg (Load.mk _) hsame
  | addQueueWait d => cases m <;> exact congrArg (Load.mk _) hsame
  | sent n => cases m <;> exact congrArg (Load.mk _) hsame
  | recv n => cases m <;> exact congrArg (Load.mk _) hsame
  | ok now later =>
    cases m with
    | none => exact congrArg (Load.mk _) hsame
    | some m =>
      show (⟨_, shipments rs ++ shipments (m.bytes later)⟩ : Load) = _
      rw [shipments_bytes]
      rfl
  | err e now => cases m <;> exact congrArg (Load.mk _) hsame
  | http op nanos ok => exact congrArg (Load.mk _) hsame
  | ttfb op nanos => exact congrArg (Load.mk _) hsame

theorem load_replay (τ : List (Ev (S3 κ))) :
    (replay (metricsOf τ)).load = load (τ.filterMap cargoOf) := by
  induction τ with
  | nil => rfl
  | cons e τ ih =>
    cases e with
    | emit m =>
      show ((replay (metricsOf τ)).next m).load = _
      rw [Tally.load_next (κ := κ), ih, List.filterMap_cons]
      cases cargoOf (.emit m : Ev (S3 κ)) <;> rfl
    | _ => exact ih

theorem Proc.shipments (q : Proc κ) :
    S3o.shipments q.records = (load (q.trace.filterMap cargoOf)).billed := by
  rw [← load_replay, shipments_eq, Proc.records_seen shipments_unseen, ← shipments_eq]
  rfl

theorem load_laden (op : Op) : load op.laden = ⟨some (op.label, op.size, 0), []⟩ := by
  cases op with
  | put key body =>
    show (⟨some ("put", 0 + body.data.length, 0), []⟩ : Load) = _
    rw [Nat.zero_add]
    rfl
  | _ => rfl

theorem load_delivered (op : Op) (v : Value) :
    (load (.ok :: (v.noted ++ op.laden))).billed = bill op.label op.size v.size := by
  show ((load (v.noted ++ op.laden)).next .ok).billed = _
  cases v with
  | data d =>
    show (((load op.laden).next (.recv d.length)).next .ok).billed = _
    rw [load_laden]
    show [] ++ bill op.label op.size (0 + d.length) = _
    rw [Nat.zero_add]
    rfl
  | _ =>
    show ((load op.laden).next .ok).billed = _
    rw [load_laden]
    rfl

/-! ## Rates -/

/-- The labels of a rate, its bytes and its nanoseconds. -/
def Record.rate? : Record → Option (List (String × String) × ℕ × ℕ)
  | .gauge _ labels (.rate bytes nanos) => some (labels, bytes, nanos)
  | _ => none

def rates (rs : List Record) : List (List (String × String) × ℕ × ℕ) := rs.filterMap Record.rate?

theorem rates_unseen (r : Record) (hr : r.isEnd = true) : r.rate? = none := by
  cases r with
  | gauge name labels v => cases hr
  | _ => rfl

/-- A rate is that of all bytes noted, over a time that is not zero. -/
theorem rates_bytes (m : OpMetrics) (now : ℕ) {x : List (String × String) × ℕ × ℕ}
    (hx : x ∈ rates (m.bytes now)) :
    x.1 = [("op", m.op)] ∧ x.2.1 = m.bytesSent + m.bytesRecv ∧ 0 < x.2.1 ∧ x.2.2 ≠ 0 := by
  have hbytes : rates (m.bytes now) =
      if 0 < m.bytesSent + m.bytesRecv ∧ now - m.start - m.queueWait ≠ 0 then
        [([("op", m.op)], m.bytesSent + m.bytesRecv, now - m.start - m.queueWait)] else [] := by
    unfold OpMetrics.bytes rates
    dsimp only
    split_ifs <;> rfl
  rw [hbytes] at hx
  split_ifs at hx with hpos
  · obtain rfl := List.mem_singleton.mp hx
    exact ⟨rfl, rfl, hpos⟩
  · cases hx

/-- **A rate comes from an end of the call that succeeds**, and divides what was noted then. -/
theorem rate_noted {es : List (Ev (S3 κ))} {x : List (String × String) × ℕ × ℕ}
    (hx : x ∈ rates (replay (metricsOf es)).records) :
    x.2.2 ≠ 0 ∧ 0 < x.2.1 ∧ ∃ σ op sent recv, .ok :: σ <:+ es.filterMap cargoOf ∧
      (load σ).noted = some (op, sent, recv) ∧ x.1 = [("op", op)] ∧ x.2.1 = sent + recv := by
  induction es with
  | nil => cases hx
  | cons e es ih =>
    -- a rate that was there before
    have hold : x ∈ rates (replay (metricsOf es)).records → x.2.2 ≠ 0 ∧ 0 < x.2.1 ∧
        ∃ σ op sent recv, .ok :: σ <:+ (e :: es).filterMap cargoOf ∧
          (load σ).noted = some (op, sent, recv) ∧ x.1 = [("op", op)] ∧ x.2.1 = sent + recv := by
      intro hx
      obtain ⟨h₁, h₂, σ, op, sent, recv, hσ, h⟩ := ih hx
      refine ⟨h₁, h₂, σ, op, sent, recv, hσ.trans ?_, h⟩
      exact (List.suffix_cons e es).filterMap _
    cases e with
    | emit e =>
      have hx' : x ∈ rates ((replay (metricsOf es)).next e).records := hx
      have hnext : rates ((replay (metricsOf es)).next e).records =
          rates (replay (metricsOf es)).records ++ rates ((replay (metricsOf es)).news e) :=
        Tally.next_seen rates_unseen _ e
      rw [hnext] at hx'
      rcases List.mem_append.mp hx' with h | h
      · exact hold h
      · -- only the end of a call that succeeds has rates
        have hload := load_replay es
        generalize replay (metricsOf es) = s at h hload
        cases e with
        | ok now later =>
          obtain ⟨m, rs⟩ := s
          cases m with
          | none => cases h
          | some m =>
            obtain ⟨h₁, h₂, h₃, h₄⟩ := rates_bytes m later h
            refine ⟨h₄, h₃, es.filterMap cargoOf, m.op, m.bytesSent, m.bytesRecv, List.suffix_rfl, ?_,
              h₁, h₂⟩
            exact (congrArg Load.noted hload).symm
        | _ => cases h
    | _ => exact hold hx

theorem Proc.rate_noted {q : Proc κ} {x : List (String × String) × ℕ × ℕ} (hx : x ∈ rates q.records) :
    x.2.2 ≠ 0 ∧ 0 < x.2.1 ∧ ∃ σ op sent recv, .ok :: σ <:+ q.trace.filterMap cargoOf ∧
      (load σ).noted = some (op, sent, recv) ∧ x.1 = [("op", op)] ∧ x.2.1 = sent + recv := by
  unfold rates at hx
  rw [Proc.records_seen rates_unseen] at hx
  exact S3o.rate_noted hx

/-! ## Every run -/

/-- What a call has returned, if it has succeeded. -/
def Proc.value (q : Proc κ) : Option Value :=
  match q.mode with
  | .ended (some (.ok v)) => some v
  | _ => none

/-- The byte counters of a call of `op` with a value, or none. -/
def Op.billed (op : Op) : Option Value → List Record
  | some v => bill op.label op.size v.size
  | none => []

variable [DecidableEq κ] [DecidableEq ι] {S : Setup κ ι} {s : Sys κ ι}
  {l : List ((ι × Act κ) × Sys κ ι)}

/-- **What a call has noted when it is not in the middle of a poll.** -/
theorem call_cargo (hr : Run Sys.Step S.init l s) (i : ι) (hrest : (s.procs i).AtRest) :
    match (s.procs i).value with
    | some v => (s.procs i).trace.filterMap cargoOf = .ok :: (v.noted ++ (S.op i).laden)
    | none => (s.procs i).trace.filterMap cargoOf = [] ∨
        (s.procs i).trace.filterMap cargoOf = (S.op i).laden := by
  have hw := watched_run (op_cargo (S.op i)) hr
  have hd := tidy_run hr i
  generalize s.procs i = q at *
  cases ha : q.active with
  | true =>
    have hp := hw.pause hd hrest ha
    rw [Monitor.exec_project] at hp
    have hnone : q.value = none := by
      unfold Proc.value
      cases hm : q.mode with
      | ended r => simp [Proc.active, Proc.hasEnded, hm] at ha
      | _ => rfl
    rw [hnone]
    exact Or.inr hp
  | false =>
    cases hw with
    | fresh hp => exact Or.inl rfl
    | live h hp => cases ha
    | unwinding h hp => cases ha
    | dropped h hp =>
      rw [Monitor.exec_project] at hp
      exact Or.inr hp
    | @returned r ts c n τ h hp =>
      rw [Monitor.exec_project] at hp
      cases r with
      | ok v => exact hp
      | error e => exact Or.inr hp

theorem ok_not_mem_laden (op : Op) : Cargo.ok ∉ op.laden := by
  cases op <;> simp [Op.laden]

theorem ok_not_mem_noted (v : Value) : Cargo.ok ∉ v.noted := by
  cases v <;> simp [Value.noted]

/-- **The byte counters of a call.** -/
theorem call_billed (hr : Run Sys.Step S.init l s) (i : ι) (hrest : (s.procs i).AtRest) :
    shipments (s.procs i).records = (S.op i).billed (s.procs i).value := by
  have hc := call_cargo hr i hrest
  rw [Proc.shipments]
  cases hv : (s.procs i).value with
  | some v =>
    rw [hv] at hc
    dsimp only at hc
    rw [hc, load_delivered]
    rfl
  | none =>
    rw [hv] at hc
    rcases hc with hc | hc
    · rw [hc]
      rfl
    · rw [hc, load_laden]
      rfl

/-- **The rate of a call.** -/
theorem call_rate (hr : Run Sys.Step S.init l s) (i : ι) (hrest : (s.procs i).AtRest)
    {x : List (String × String) × ℕ × ℕ} (hx : x ∈ rates (s.procs i).records) :
    x.2.2 ≠ 0 ∧ 0 < x.2.1 ∧ x.1 = [("op", (S.op i).label)] ∧
      ∃ v, (s.procs i).value = some v ∧ x.2.1 = (S.op i).size + v.size := by
  obtain ⟨h₁, h₂, σ, op, sent, recv, hσ, hload, hlabel, hbytes⟩ := Proc.rate_noted hx
  have hmem : Cargo.ok ∈ (s.procs i).trace.filterMap cargoOf := hσ.subset List.mem_cons_self
  have hc := call_cargo hr i hrest
  cases hv : (s.procs i).value with
  | some v =>
    rw [hv] at hc
    dsimp only at hc
    rw [hc] at hσ
    have hwhole : σ = v.noted ++ (S.op i).laden := by
      rcases List.suffix_cons_iff.mp hσ with h | h
      · exact (List.cons.inj h).2
      · rcases List.mem_append.mp (h.subset List.mem_cons_self) with h | h
        · exact absurd h (ok_not_mem_noted v)
        · exact absurd h (ok_not_mem_laden _)
    have hnoted : (load (v.noted ++ (S.op i).laden)).noted =
        some ((S.op i).label, (S.op i).size, v.size) := by
      cases v with
      | data d =>
        show ((load (S.op i).laden).next (.recv d.length)).noted = _
        rw [load_laden]
        show some ((S.op i).label, (S.op i).size, 0 + d.length) = _
        rw [Nat.zero_add]
        rfl
      | _ =>
        show (load (S.op i).laden).noted = _
        rw [load_laden]
        rfl
    rw [hwhole, hnoted] at hload
    obtain ⟨rfl, rfl, rfl⟩ : (S.op i).label = op ∧ (S.op i).size = sent ∧ v.size = recv := by
      simpa using hload
    exact ⟨h₁, h₂, hlabel, v, rfl, hbytes⟩
  | none =>
    rw [hv] at hc
    rcases hc with hc | hc
    · rw [hc] at hmem
      cases hmem
    · rw [hc] at hmem
      exact absurd hmem (ok_not_mem_laden _)

/-! ## The counters of the system -/

theorem added_sent (rs : List Record) :
    added "s3.op.bytes_sent" (shipments rs) = added "s3.op.bytes_sent" rs := by
  unfold added shipments
  rw [List.filter_filter]
  congr 2
  refine List.filter_congr fun r _ => ?_
  cases r with
  | counter name labels n => by_cases hn : name = "s3.op.bytes_sent" <;> simp [Record.counts, hn]
  | _ => rfl

theorem added_recv (rs : List Record) :
    added "s3.op.bytes_recv" (shipments rs) = added "s3.op.bytes_recv" rs := by
  unfold added shipments
  rw [List.filter_filter]
  congr 2
  refine List.filter_congr fun r _ => ?_
  cases r with
  | counter name labels n => by_cases hn : name = "s3.op.bytes_recv" <;> simp [Record.counts, hn]
  | _ => rfl

theorem added_bill (op : String) (sent recv : ℕ) :
    added "s3.op.bytes_sent" (bill op sent recv) = sent ∧
      added "s3.op.bytes_recv" (bill op sent recv) = recv := by
  unfold added bill
  constructor
  · split_ifs with h₁ h₂ h₂
    all_goals simp [Record.counts, Record.incr]
    all_goals omega
  · split_ifs with h₁ h₂ h₂
    all_goals simp [Record.counts, Record.incr]
    all_goals omega

/-- The bytes that a call has uploaded: its body, if it has succeeded. -/
def Proc.uploaded (op : Op) (q : Proc κ) : ℕ := (q.value.map fun _ => op.size).getD 0

/-- The bytes that a call has downloaded: what it has returned, if it has succeeded. -/
def Proc.downloaded (q : Proc κ) : ℕ := (q.value.map Value.size).getD 0

omit [DecidableEq κ] in
theorem added_billed (op : Op) (q : Proc κ) :
    added "s3.op.bytes_sent" (op.billed q.value) = q.uploaded op ∧
      added "s3.op.bytes_recv" (op.billed q.value) = q.downloaded := by
  unfold Proc.uploaded Proc.downloaded
  cases q.value with
  | none => exact ⟨rfl, rfl⟩
  | some v => exact added_bill op.label op.size v.size

/-- **Traffic accounting.** A call has counted bytes when it has succeeded and only then: its body under
`s3.op.bytes_sent` and what it has returned under `s3.op.bytes_recv`, each once, with its label, and not at
all when there are none. Its rate divides their sum by a time that is not zero. So the counters are the
sums over the calls that have succeeded whenever no call is in the middle of a poll. -/
structure Sys.Shipped [Fintype ι] (S : Setup κ ι) (s : Sys κ ι) : Prop where
  billed : ∀ i, (s.procs i).AtRest → shipments (s.procs i).records = (S.op i).billed (s.procs i).value
  rate : ∀ i, (s.procs i).AtRest → ∀ x ∈ rates (s.procs i).records,
    x.2.2 ≠ 0 ∧ 0 < x.2.1 ∧ x.1 = [("op", (S.op i).label)] ∧
      ∃ v, (s.procs i).value = some v ∧ x.2.1 = (S.op i).size + v.size
  sent : (∀ i, (s.procs i).AtRest) →
    s.counter "s3.op.bytes_sent" = ∑ i, (s.procs i).uploaded (S.op i)
  recv : (∀ i, (s.procs i).AtRest) → s.counter "s3.op.bytes_recv" = ∑ i, (s.procs i).downloaded

/-- **The byte counters are those of the calls that have succeeded**, in every state that can be
reached. -/
theorem traffic_exact [Fintype ι] (S : Setup κ ι) {s : Sys κ ι} {l : List ((ι × Act κ) × Sys κ ι)}
    (hr : Run Sys.Step S.init l s) : s.Shipped S := by
  refine ⟨fun i => call_billed hr i, fun i hi x hx => call_rate hr i hi hx, fun hrest => ?_,
    fun hrest => ?_⟩
  · refine Finset.sum_congr rfl fun i _ => ?_
    rw [← added_sent, call_billed hr i (hrest i)]
    exact (added_billed (S.op i) (s.procs i)).1
  · refine Finset.sum_congr rfl fun i _ => ?_
    rw [← added_recv, call_billed hr i (hrest i)]
    exact (added_billed (S.op i) (s.procs i)).2

/-- An upload of three bytes and a download. -/
def trafficSetup : Setup Unit (Fin 2) :=
  smallSetup fun i => if i = 0 then .put "key" ⟨[1, 2, 3], by decide⟩ else .get "key"

theorem traffic_exact_both : ∃ l s, Run Sys.Step trafficSetup.init l s ∧
    s.counter "s3.op.bytes_sent" = 3 ∧ s.counter "s3.op.bytes_recv" = 1 := by
  obtain ⟨l, s, hr, hmodes⟩ := trafficSetup.observe (sampleAnswer [7])
    (List.replicate 40 (0, .go) ++ List.replicate 57 (1, .go))
    (fun s => ((s.procs 0).mode, (s.procs 1).mode))
    (v := (.ended (some (.ok .unit)), .ended (some (.ok (.data [7]))))) rfl
  obtain ⟨hput, hget⟩ := Prod.mk.inj hmodes
  have hrest : ∀ i, (s.procs i).AtRest := by
    intro i
    unfold Proc.AtRest
    match i with
    | 0 => rw [hput]; trivial
    | 1 => rw [hget]; trivial
  obtain ⟨-, -, hsent, hrecv⟩ := traffic_exact trafficSetup hr
  refine ⟨l, s, hr, (hsent hrest).trans ?_, (hrecv hrest).trans ?_⟩
  · rw [Fin.sum_univ_two]
    unfold Proc.uploaded Proc.value
    rw [hput, hget]
    rfl
  · rw [Fin.sum_univ_two]
    unfold Proc.downloaded Proc.value
    rw [hput, hget]
    rfl

end S3o
