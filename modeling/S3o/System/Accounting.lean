import Mathlib.Algebra.BigOperators.Ring.Finset
import S3o.Operations
import S3o.Scopes
import S3o.System.Advance
import S3o.System.Watch

/-!
# What a call counts

Every call counts one operation when it starts and one outcome when it ends. The outcome counter is
the one of its result, with one exception: `delete_object` and `list_objects` leave by `?` when their
acquisition times out, and then the `Drop` of `OpMetrics` counts a cancellation.

* `Mark`, `markOf`, `accounts`: the events that decide the counters, and their monitor;
* **`op_accounts`**: the marks of a call that returns;
* `Book`, `book_replay`: the counters a list of marks stands for;
* **`outcomes_exact_iff`**: the counters are those of the results, and add up, exactly when no such
  call has timed out.
-/

namespace S3o

open Async Lts

variable {κ ι : Type}

/-- The events that decide the outcome counters of a call. -/
inductive Mark
  | start (op : String)
  | lost
  | ok
  | err (kind : ErrorKind)
  deriving DecidableEq

def markOf : Ev (S3 κ) → Option Mark
  | .emit (.startOperation op _) => some (.start op)
  | .emit (.ok _ _) => some .ok
  | .emit (.err e _) => some (.err e.errorKind)
  | .lost _ _ => some .lost
  | _ => none

/-- The mark that the end of an operation calls for. -/
def Mark.of {α : Type} : S3Result α → Mark
  | .ok _ => .ok
  | .error e => .err e.errorKind

/-- The calls that return the timeout of their acquisition by `?`. -/
def Op.returnsEarly : Op → Bool
  | .delete .. | .list .. => true
  | _ => false

/-- The monitor of marks. A call may be suspended when its marks are `σ`. -/
abbrev accounts (σ : List Mark) : Monitor (S3 κ) := .project markOf (· = σ)

/-! ## The operations -/

section

variable {self : S3Client κ} {σ : List Mark} {α : Type}

theorem markOf_unseen : Unseen (markOf (κ := κ)) :=
  ⟨fun _ _ => rfl, fun _ _ _ => rfl, fun _ _ _ => rfl, fun _ _ => rfl⟩

/-- The marks after the scope of a guard, or after the timeout of its acquisition. -/
def Tried (σ : List Mark) (g : List Mark) (r : S3Result α) : Prop :=
  g = σ ∨ g = .lost :: σ ∧ ∃ e, r = .error e

theorem Tried.of_ok {g : List Mark} {v : α} (h : Tried σ g (.ok v : S3Result α)) : g = σ := by
  rcases h with h | ⟨-, e, he⟩
  · exact h
  · cases he

/-- **A statement that acquires.** -/
theorem Scoped.accounts {p : Prog (S3 κ) (S3Result α)} (hp : Scoped markOf self p) :
    (accounts σ).triples.Triple (· = σ) p (Tried σ) := by
  obtain ⟨h, a, rest, rfl, hrest⟩ := hp
  intro (g : List Mark) hg
  subst hg
  rw [safe_guarded]
  refine ⟨trivial, rfl, fun d => ⟨trivial, trivial, ?_⟩, trivial, Or.inr ⟨rfl, _, rfl⟩⟩
  exact Prog.safe_weaken (fun g r hg => ⟨trivial, Or.inl hg⟩) _ _ (hrest g)

/-- The marks of a call that is to record its outcome. -/
def Op.Opened (op : Op) (g : List Mark) : Prop :=
  g = [.start op.label] ∨ g = [.lost, .start op.label] ∧ op.returnsEarly = false

/-- **The marks of a call that has returned `r`.** -/
def Op.Closed (op : Op) (g : List Mark) (r : Outcome) : Prop :=
  g = [Mark.of r, .start op.label] ∨
  g = [Mark.of r, .lost, .start op.label] ∧ op.returnsEarly = false ∨
  g = [.lost, .start op.label] ∧ op.returnsEarly = true ∧ ∃ e, r = .error e

theorem Op.Opened.closed {op : Op} {g : List Mark} (h : op.Opened g) (r : Outcome) :
    op.Closed (Mark.of r :: g) r := by
  rcases h with rfl | ⟨rfl, hop⟩
  · exact Or.inl rfl
  · exact Or.inr (Or.inl ⟨rfl, hop⟩)

theorem Tried.opened {op : Op} (hop : op.returnsEarly = false) {g : List Mark} {r : S3Result α}
    (h : Tried [.start op.label] g r) : op.Opened g :=
  h.imp_right fun h => ⟨h.1, hop⟩

theorem finish_accounts {op : Op} (r : Outcome) {g : List Mark} (h : op.Opened g) :
    (finish r : Prog (S3 κ) _).Safe (accounts σ) (fun g' _ => op.Closed g' r) g := by
  refine safe_finish r _ ?_ ?_
  · rintro v rfl t t'
    exact ⟨trivial, h.closed (.ok v)⟩
  · rintro e rfl t
    exact ⟨trivial, h.closed (.error e)⟩

/-- An operation that ends under its guard returns early when it gets none. -/
theorem early_accounts {op : Op} (hop : op.returnsEarly = true) {h : Half} {a : Acquire}
    {p : Prog (S3 κ) (S3Result α)} {v : α → Value}
    (hp : p.Safe (accounts [.start op.label]) (fun g _ => g = [.start op.label]) [.start op.label]) :
    (accounts [.start op.label]).triples.Triple (· = [.start op.label])
      (self.guarded h a (p.bind fun r => (finish r).bind fun _ => .ret r))
      fun g r => op.Closed g (r.map v) := by
  rintro g rfl
  rw [safe_guarded]
  refine ⟨trivial, rfl, fun d => ⟨trivial, trivial, ?_⟩, trivial,
    Or.inr (Or.inr ⟨rfl, hop, _, rfl⟩)⟩
  rw [Prog.safe_bind]
  refine Prog.safe_weaken (fun g r hg => ?_) _ _ hp
  rw [Prog.safe_bind, ← finish_map r v]
  exact Prog.safe_weaken (fun _ _ h => ⟨trivial, h⟩) _ _ (finish_accounts _ (Or.inl hg))

/-- **Every call that returns is closed.** -/
theorem op_accounts (op : Op) :
    (op.program self).Safe (accounts [.start op.label]) op.Closed [] := by
  refine op_of_stages (T := (accounts [.start op.label]).triples) (A := (· = [.start op.label]))
    (B := fun g _ => op.Opened g) (C := op.Closed) (I := (· = [])) ?_
    (fun r g h => finish_accounts r h) ?_ [] rfl
  · rintro g rfl
    exact (safe_startOp _ _).mpr fun t => ⟨trivial, rfl⟩
  cases op with
  | put key body =>
    refine ⟨(· = [.start "put"]), fun g hg => ⟨trivial, hg⟩, fun _ => ?_, fun _ => ?_⟩
    · exact (accounts _).triples.post (multipartPut_scoped markOf_unseen key body.data).accounts
        fun g r h => h.opened rfl
    · exact (accounts _).triples.post (simplePut_scoped markOf_unseen key body.data).accounts
        fun g r h => h.opened rfl
  | get key =>
    let σ : List Mark := [.start (Op.get key).label]
    have hopened : ∀ {α : Type} {g : List Mark} {r : S3Result α}, Tried σ g r → (Op.get key).Opened g :=
      fun h => h.opened rfl
    refine ⟨Tried σ, Tried σ, (stat_scoped markOf_unseen key).accounts, fun e g h => hopened h,
      fun info _ => ?_, fun info _ => ?_, fun d g h => ⟨trivial, hopened h⟩, fun e g h => hopened h⟩
    · exact (accounts _).triples.pre (fun g h => h.of_ok)
        (rangeGet_scoped markOf_unseen key info.contentLength).accounts
    · exact (accounts _).triples.pre (fun g h => h.of_ok) (simpleGet_scoped markOf_unseen key).accounts
  | delete key => exact early_accounts rfl (send_unseen markOf_unseen _)
  | head key =>
    exact (accounts _).triples.post (stat_scoped markOf_unseen key).accounts fun g r h => h.opened rfl
  | list pfx recursive =>
    exact early_accounts rfl (paginatedList_unseen markOf_unseen pfx recursive)

end

/-! ## From marks to counters -/

/-- A counter with one of the given names. -/
def Record.counts (names : List String) : Record → Bool
  | .counter name _ _ => names.contains name
  | _ => false

/-- What a record adds to its counter. -/
def Record.incr : Record → ℕ
  | .counter _ _ n => n
  | _ => 0

def totals (rs : List Record) : List Record := rs.filter (Record.counts ["s3.op.total"])

def outcomes (rs : List Record) : List Record :=
  rs.filter (Record.counts ["s3.op.ok", "s3.op.err", "s3.op.cancelled"])

/-- The counter that the end of a call calls for. -/
def outcomeRecord (op : String) : Option Outcome → Record
  | some (.ok _) => .counter "s3.op.ok" [("op", op)] 1
  | some (.error e) => .counter "s3.op.err" [("op", op), ("kind", e.errorKind.display)] 1
  | none => .counter "s3.op.cancelled" [("op", op)] 1

def totalRecord (op : String) : Record := .counter "s3.op.total" [("op", op)] 1

/-- The counters of a call, and its label with whether its outcome is recorded. -/
structure Book where
  op : Option (String × Bool)
  totals : List Record
  outcomes : List Record

def Book.next (b : Book) : Mark → Book
  | .start op => ⟨some (op, false), b.totals ++ [totalRecord op], b.outcomes⟩
  | .lost => b
  | .ok => match b.op with
    | none => b
    | some (op, _) => ⟨some (op, true), b.totals, b.outcomes ++ [outcomeRecord op (some (.ok .unit))]⟩
  | .err kind => match b.op with
    | none => b
    | some (op, _) =>
      ⟨some (op, true), b.totals, b.outcomes ++ [outcomeRecord op (some (.error (.backend kind "")))]⟩

/-- The counters that a list of marks stands for. -/
def book : List Mark → Book
  | [] => ⟨none, [], []⟩
  | k :: l => (book l).next k

/-- The end of the call: a cancellation unless the outcome is recorded. -/
def Book.close (b : Book) : List Record :=
  b.outcomes ++ match b.op with
    | some (op, false) => [outcomeRecord op none]
    | _ => []

def Tally.book (s : Tally) : Book :=
  ⟨s.m.map fun m => (m.op, m.done), totals s.records, outcomes s.records⟩

section

variable (m : OpMetrics)

theorem totals_append (rs rs' : List Record) : totals (rs ++ rs') = totals rs ++ totals rs' :=
  List.filter_append ..

theorem outcomes_append (rs rs' : List Record) : outcomes (rs ++ rs') = outcomes rs ++ outcomes rs' :=
  List.filter_append ..

theorem counts_record (status : String) (now : ℕ) :
    totals (m.record status now) = [] ∧ outcomes (m.record status now) = [] := by
  unfold OpMetrics.record totals outcomes
  split_ifs <;> simp [Record.counts]

theorem counts_bytes (now : ℕ) : totals (m.bytes now) = [] ∧ outcomes (m.bytes now) = [] := by
  unfold OpMetrics.bytes totals outcomes
  dsimp only
  constructor
  · split_ifs <;> simp [Record.counts]
  · split_ifs <;> simp [Record.counts]

theorem counts_ok (now later : ℕ) : totals (m.ok now later).2 = [] ∧
    outcomes (m.ok now later).2 = [outcomeRecord m.op (some (.ok .unit))] := by
  obtain ⟨h₁, h₂⟩ := counts_record m "ok" now
  obtain ⟨h₃, h₄⟩ := counts_bytes m later
  have happ : (m.ok now later).2 =
      m.record "ok" now ++ ([outcomeRecord m.op (some (.ok .unit))] ++ m.bytes later) := rfl
  rw [happ, totals_append, totals_append, outcomes_append, outcomes_append, h₁, h₂, h₃, h₄]
  exact ⟨rfl, rfl⟩

theorem counts_err (e : S3Error) (now : ℕ) : totals (m.err e now).2 = [] ∧
    outcomes (m.err e now).2 = [outcomeRecord m.op (some (.error e))] := by
  obtain ⟨h₁, h₂⟩ := counts_record m "err" now
  have happ : (m.err e now).2 = m.record "err" now ++ [outcomeRecord m.op (some (.error e))] := rfl
  rw [happ, totals_append, outcomes_append, h₁, h₂]
  exact ⟨rfl, rfl⟩

theorem counts_drop (now : ℕ) : totals (m.drop now) = [] ∧
    outcomes (m.drop now) = if m.done then [] else [outcomeRecord m.op none] := by
  obtain ⟨h₁, h₂⟩ := counts_record m "cancelled" now
  unfold OpMetrics.drop
  split_ifs
  · exact ⟨rfl, rfl⟩
  · rw [totals_append, outcomes_append, h₁, h₂]
    exact ⟨rfl, rfl⟩

end

/-- **The counters of a call are those of its marks**, event by event. -/
theorem Tally.book_next (s : Tally) (e : Metric) :
    (s.next e).book = match markOf (.emit e : Ev (S3 κ)) with
      | none => s.book
      | some k => s.book.next k := by
  obtain ⟨m, rs⟩ := s
  cases e with
  | startOperation op now =>
    unfold Tally.book Tally.next
    rw [totals_append, outcomes_append]
    simp [markOf, Book.next, startOperation, totals, outcomes, Record.counts, totalRecord]
  | addQueueWait d => cases m <;> rfl
  | sent n => cases m <;> rfl
  | recv n => cases m <;> rfl
  | ok now later =>
    cases m with
    | none => rfl
    | some m =>
      obtain ⟨h₁, h₂⟩ := counts_ok m now later
      unfold Tally.book Tally.next
      dsimp only
      rw [totals_append, outcomes_append, h₁, h₂, List.append_nil]
      rfl
  | err e now =>
    cases m with
    | none => rfl
    | some m =>
      obtain ⟨h₁, h₂⟩ := counts_err m e now
      unfold Tally.book Tally.next
      dsimp only
      rw [totals_append, outcomes_append, h₁, h₂, List.append_nil]
      rfl
  | http op nanos ok =>
    unfold Tally.book Tally.next
    rw [totals_append, outcomes_append]
    simp [markOf, httpRecords, totals, outcomes, Record.counts]
  | ttfb op nanos =>
    unfold Tally.book Tally.next
    rw [totals_append, outcomes_append]
    simp [markOf, ttfbRecords, totals, outcomes, Record.counts]

theorem book_replay (τ : List (Ev (S3 κ))) :
    (replay (metricsOf τ)).book = book (τ.filterMap markOf) := by
  induction τ with
  | nil => rfl
  | cons e τ ih =>
    cases e with
    | emit m =>
      show ((replay (metricsOf τ)).next m).book = _
      rw [Tally.book_next (κ := κ), ih, List.filterMap_cons]
      cases markOf (.emit m : Ev (S3 κ)) <;> rfl
    | _ => exact ih

theorem Tally.close_counts (s : Tally) (now : ℕ) :
    totals (s.close now) = s.book.totals ∧ outcomes (s.close now) = s.book.close := by
  obtain ⟨m, rs⟩ := s
  unfold Tally.close
  rw [totals_append, outcomes_append]
  cases m with
  | none => exact ⟨List.append_nil _, rfl⟩
  | some m =>
    obtain ⟨h₁, h₂⟩ := counts_drop m now
    refine ⟨?_, ?_⟩
    · show totals rs ++ totals (m.drop now) = totals rs
      rw [h₁, List.append_nil]
    · show outcomes rs ++ outcomes (m.drop now) = _
      rw [h₂]
      obtain ⟨op, start, wait, bs, br, done⟩ := m
      cases done <;> rfl

theorem Proc.counts (q : Proc κ) :
    totals q.records = (book (q.trace.filterMap markOf)).totals ∧
    outcomes q.records = if q.hasEnded then (book (q.trace.filterMap markOf)).close
      else (book (q.trace.filterMap markOf)).outcomes := by
  obtain ⟨h₁, h₂⟩ := q.tally.close_counts q.clock
  rw [← book_replay]
  unfold Proc.records
  split_ifs
  · exact ⟨h₁, h₂⟩
  · exact ⟨rfl, rfl⟩

/-! ## Every run -/

/-- The acquisition of the call, or one of its two, has timed out. -/
def Proc.TimedOut (q : Proc κ) : Prop := ∃ h a, Ev.lost h a ∈ q.trace

theorem Proc.timedOut_iff (q : Proc κ) : q.TimedOut ↔ .lost ∈ q.trace.filterMap markOf := by
  rw [List.mem_filterMap]
  constructor
  · rintro ⟨h, a, hm⟩
    exact ⟨_, hm, rfl⟩
  · rintro ⟨e, hm, he⟩
    cases e with
    | lost h a => exact ⟨h, a, hm⟩
    | emit m => cases m <;> cases he
    | _ => cases he

/-- The counters of a call of `op` that has ended with `r`: the one of its result, or a cancellation
in place of the error of a timeout. -/
def Proc.Settled (op : Op) (q : Proc κ) (r : Option Outcome) : Prop :=
  outcomes q.records = [outcomeRecord op.label r] ∧ (op.returnsEarly = true → ¬ q.TimedOut) ∨
  outcomes q.records = [outcomeRecord op.label none] ∧ op.returnsEarly = true ∧ q.TimedOut ∧
    ∃ e, r = some (.error e)

section

variable {op : Op} {q : Proc κ}

theorem Proc.counts_active (hm : q.trace.filterMap markOf = [.start op.label]) (he : q.hasEnded = false) :
    totals q.records = [totalRecord op.label] ∧ outcomes q.records = [] := by
  obtain ⟨htot, hout⟩ := q.counts
  rw [htot, hout, hm, he]
  exact ⟨rfl, rfl⟩

/-- **What a call has counted when it ends.** -/
theorem Proc.Watched.settled (h : q.Watched (accounts [.start op.label]) op.Closed []) {r : Option Outcome}
    (hr : q.mode = .ended r) : totals q.records = [totalRecord op.label] ∧ q.Settled op r := by
  obtain ⟨htot, hout⟩ := q.counts
  have hend := Proc.hasEnded_iff.mpr ⟨r, hr⟩
  have hlost := q.timedOut_iff
  unfold Proc.Settled
  rw [htot, hout, hend, if_pos rfl, hlost]
  cases r with
  | none =>
    have hp := h.pauses hr
    rw [Monitor.exec_project] at hp
    have hm : q.trace.filterMap markOf = [.start op.label] := by simpa using hp
    rw [hm]
    exact ⟨rfl, Or.inl ⟨rfl, by simp⟩⟩
  | some r' =>
    have hp := h.result hr
    rw [Monitor.exec_project] at hp
    have hof : ∀ σ, book σ = ⟨some (op.label, false), [totalRecord op.label], []⟩ →
        (book (Mark.of r' :: σ)).totals = [totalRecord op.label] ∧
        (book (Mark.of r' :: σ)).close = [outcomeRecord op.label (some r')] := by
      intro σ hσ
      cases r' with
      | ok v =>
        show ((book σ).next .ok).totals = _ ∧ ((book σ).next .ok).close = _
        rw [hσ]
        exact ⟨rfl, rfl⟩
      | error e =>
        show ((book σ).next (.err e.errorKind)).totals = _ ∧
          ((book σ).next (.err e.errorKind)).close = _
        rw [hσ]
        exact ⟨rfl, rfl⟩
    have hne : Mark.lost ≠ Mark.of r' := by cases r' <;> simp [Mark.of]
    rcases hp with hm | ⟨hm, hop⟩ | ⟨hm, hop, e, rfl⟩
    · rw [hm]
      obtain ⟨h₁, h₂⟩ := hof [.start op.label] rfl
      exact ⟨h₁, Or.inl ⟨h₂, by simp [hne]⟩⟩
    · rw [hm]
      obtain ⟨h₁, h₂⟩ := hof [.lost, .start op.label] rfl
      exact ⟨h₁, Or.inl ⟨h₂, by simp [hop]⟩⟩
    · rw [hm]
      exact ⟨rfl, Or.inr ⟨rfl, hop, by simp, e, rfl⟩⟩

end

variable [DecidableEq κ] [DecidableEq ι] {S : Setup κ ι} {s : Sys κ ι}
  {l : List ((ι × Act κ) × Sys κ ι)}

theorem watched_accounts (hr : Run Sys.Step S.init l s) (i : ι) :
    (s.procs i).Watched (accounts [.start (S.op i).label]) (S.op i).Closed [] :=
  watched_run (op_accounts (S.op i)) hr

/-- **What a call has counted when it is not in the middle of a poll.** -/
theorem call_counts (hr : Run Sys.Step S.init l s) (i : ι) (hrest : (s.procs i).AtRest) :
    totals (s.procs i).records =
        (if (s.procs i).started then [totalRecord (S.op i).label] else []) ∧
      ((s.procs i).hasEnded = false → outcomes (s.procs i).records = []) := by
  have hw := watched_accounts hr i
  have hd := tidy_run hr i
  generalize s.procs i = q at *
  cases ha : q.active with
  | true =>
    have hp := hw.pause hd hrest ha
    rw [Monitor.exec_project] at hp
    obtain ⟨hs, he⟩ : q.started = true ∧ q.hasEnded = false := by simpa [Proc.active] using ha
    obtain ⟨h₁, h₂⟩ := q.counts_active hp he
    rw [hs, if_pos rfl]
    exact ⟨h₁, fun _ => h₂⟩
  | false =>
    cases hw with
    | fresh hp =>
      obtain ⟨h₁, h₂⟩ := Proc.counts (κ := κ) ⟨.fresh _, _, _, _, []⟩
      exact ⟨h₁, fun _ => h₂⟩
    | live h hp => cases ha
    | unwinding h hp => cases ha
    | dropped h hp =>
      exact ⟨((Proc.Watched.dropped h hp).settled rfl).1, nofun⟩
    | returned h hp =>
      exact ⟨((Proc.Watched.returned h hp).settled rfl).1, nofun⟩

/-! ## The counters of the system -/

/-- What records add to a counter. -/
def added (name : String) (rs : List Record) : ℕ :=
  ((rs.filter (Record.counts [name])).map Record.incr).sum

theorem added_outcomes (rs : List Record) :
    added "s3.op.ok" rs + added "s3.op.err" rs + added "s3.op.cancelled" rs =
      ((outcomes rs).map Record.incr).sum := by
  induction rs with
  | nil => rfl
  | cons r rs ih =>
    unfold added outcomes at *
    cases r with
    | counter name labels n =>
      by_cases h₁ : name = "s3.op.ok"
      · subst h₁
        simp [Record.counts, Record.incr] at ih ⊢
        omega
      by_cases h₂ : name = "s3.op.err"
      · subst h₂
        simp [Record.counts, Record.incr] at ih ⊢
        omega
      by_cases h₃ : name = "s3.op.cancelled"
      · subst h₃
        simp [Record.counts, Record.incr] at ih ⊢
        omega
      simpa [Record.counts, h₁, h₂, h₃] using ih
    | gauge name labels v => simpa [Record.counts] using ih
    | histogram name labels v => simpa [Record.counts] using ih

variable [Fintype ι]

/-- The value of a counter. -/
def Sys.counter (s : Sys κ ι) (name : String) : ℕ := ∑ i, added name (s.procs i).records

/-- The calls that run. -/
def Sys.running (s : Sys κ ι) : ℕ := ∑ i, (s.procs i).active.toNat

/-- **Outcome accounting.** A started call has counted itself once. A call that has ended has counted
one outcome, that of its result, and one that runs has counted none. So the counters add up whenever no
call is in the middle of a poll. -/
structure Sys.Accounted (S : Setup κ ι) (s : Sys κ ι) : Prop where
  total : ∀ i, (s.procs i).AtRest → totals (s.procs i).records =
    if (s.procs i).started then [totalRecord (S.op i).label] else []
  outcome : ∀ i r, (s.procs i).mode = .ended r →
    outcomes (s.procs i).records = [outcomeRecord (S.op i).label r]
  pending : ∀ i, (s.procs i).AtRest → (s.procs i).hasEnded = false →
    outcomes (s.procs i).records = []
  balance : (∀ i, (s.procs i).AtRest) → s.counter "s3.op.total" =
    s.counter "s3.op.ok" + s.counter "s3.op.err" + s.counter "s3.op.cancelled" + s.running

omit [Fintype ι] in
theorem call_balance (hr : Run Sys.Step S.init l s) (i : ι) (hrest : (s.procs i).AtRest) :
    added "s3.op.total" (s.procs i).records =
      added "s3.op.ok" (s.procs i).records + added "s3.op.err" (s.procs i).records +
        added "s3.op.cancelled" (s.procs i).records + (s.procs i).active.toNat := by
  rw [added_outcomes]
  obtain ⟨htot, hout⟩ := call_counts hr i hrest
  have hw := watched_accounts hr i
  have htotal : added "s3.op.total" (s.procs i).records =
      ((totals (s.procs i).records).map Record.incr).sum := rfl
  rw [htotal, htot]
  unfold Proc.active
  cases he : (s.procs i).hasEnded with
  | false =>
    rw [hout he]
    cases (s.procs i).started <;> rfl
  | true =>
    obtain ⟨r, hm⟩ := Proc.hasEnded_iff.mp he
    have hs : (s.procs i).started = true := by
      unfold Proc.started
      rw [hm]
    rw [hs, if_pos rfl]
    have hone : ∀ op r, ([outcomeRecord op r].map Record.incr).sum = 1 := by
      intro op r
      match r with
      | none => rfl
      | some (.ok v) => rfl
      | some (.error e) => rfl
    rcases (hw.settled hm).2 with ⟨h, -⟩ | ⟨h, -⟩
    · rw [h, hone]
      rfl
    · rw [h, hone]
      rfl

/-- **The counters are those of the results exactly when no `delete_object` and no `list_objects` has
returned the timeout of its acquisition.** -/
theorem outcomes_exact_iff (S : Setup κ ι) {s : Sys κ ι} {l : List ((ι × Act κ) × Sys κ ι)}
    (hr : Run Sys.Step S.init l s) :
    s.Accounted S ↔ ∀ i, (S.op i).returnsEarly = true → (s.procs i).hasEnded = true →
      ¬ (s.procs i).TimedOut := by
  constructor
  · intro hacc i hop he hto
    obtain ⟨r, hm⟩ := Proc.hasEnded_iff.mp he
    rcases ((watched_accounts hr i).settled hm).2 with ⟨-, h⟩ | ⟨h, -, -, e, rfl⟩
    · exact h hop hto
    · have := hacc.outcome i _ hm
      rw [h] at this
      simp [outcomeRecord] at this
  · intro hno
    refine ⟨fun i hi => (call_counts hr i hi).1, ?_, fun i hi => (call_counts hr i hi).2, ?_⟩
    · intro i r hm
      have he := Proc.hasEnded_iff.mpr ⟨r, hm⟩
      rcases ((watched_accounts hr i).settled hm).2 with ⟨h, -⟩ | ⟨-, hop, hto, -⟩
      · exact h
      · exact absurd hto (hno i hop he)
    · intro hrest
      unfold Sys.counter Sys.running
      rw [← Finset.sum_add_distrib, ← Finset.sum_add_distrib, ← Finset.sum_add_distrib]
      exact Finset.sum_congr rfl fun i _ => call_balance hr i (hrest i)

/-- Three calls of `delete_object` on one client of two write connections. -/
def deleteSetup : Setup Unit (Fin 3) := smallSetup fun _ => .delete "key"

/-- Two calls wait for their replies, and the third for a permit until its timeout. -/
def deleteScript : List (Fin 3 × Cmd) :=
  List.replicate 17 (0, .go) ++ List.replicate 17 (1, .go) ++ List.replicate 8 (2, .go) ++
    (2, .pool .expire) :: List.replicate 5 (2, .go)

theorem outcomes_exact_delete : ∃ l s, Run Sys.Step deleteSetup.init l s ∧
    (s.procs 1).hasEnded = true ∧ s.Accounted deleteSetup := by
  obtain ⟨l, s, hr, hrun⟩ := deleteSetup.observe (sampleAnswer [])
    (List.replicate 17 (0, .go) ++ List.replicate 27 (1, .go))
    (fun s => ((s.procs 1).hasEnded, (List.finRange 3).map fun i => (s.procs i).trace.filterMap markOf))
    (v := (true, [[.start "delete"], [.ok, .start "delete"], []])) rfl
  obtain ⟨hend, hmarks⟩ := Prod.mk.inj hrun
  refine ⟨l, s, hr, hend, (outcomes_exact_iff deleteSetup hr).mpr fun i _ _ hto => ?_⟩
  have hlost := (s.procs i).timedOut_iff.mp hto
  have hmem : (s.procs i).trace.filterMap markOf ∈
      (List.finRange 3).map fun i => (s.procs i).trace.filterMap markOf :=
    List.mem_map_of_mem (List.mem_finRange i)
  rw [hmarks] at hmem
  simp only [List.mem_cons, List.not_mem_nil, or_false] at hmem
  rcases hmem with h | h | h
  · rw [h] at hlost
    simp at hlost
  · rw [h] at hlost
    simp at hlost
  · rw [h] at hlost
    simp at hlost

/-- **A timeout that is counted as a cancellation.** -/
theorem delete_timeout_cancelled : ∃ l s, Run Sys.Step deleteSetup.init l s ∧
    (s.procs 2).mode = .ended (some (.error (.backend .timeout "write pool timeout"))) ∧
    outcomes (s.procs 2).records = [.counter "s3.op.cancelled" [("op", "delete")] 1] ∧
    ¬ s.Accounted deleteSetup := by
  obtain ⟨l, s, hr, hs⟩ := deleteSetup.script (sampleAnswer []) deleteScript rfl
  have hmode : (exec (Sys.cmd (sampleAnswer [])) deleteSetup.init deleteScript).map
      (fun s => (s.procs 2).mode) =
      some (.ended (some (.error (.backend .timeout "write pool timeout")))) := rfl
  have hrec : (exec (Sys.cmd (sampleAnswer [])) deleteSetup.init deleteScript).map
      (fun s => outcomes (s.procs 2).records) =
      some [.counter "s3.op.cancelled" [("op", "delete")] 1] := by decide +kernel
  rw [hs] at hmode hrec
  have hm := Option.some.inj hmode
  have hr' := Option.some.inj hrec
  refine ⟨l, s, hr, hm, hr', fun hacc => ?_⟩
  have hout := hr'.symm.trans (hacc.outcome 2 _ hm)
  simp [outcomeRecord] at hout

end S3o
