import S3o.System.Accounting
import S3o.System.History

/-!
# The split of the latency

A call adds to its queue wait what each acquisition returns with its guard, and an acquisition that
gives no guard returns nothing. So the recorded queue wait is the time of the acquisitions that were
granted, and what a call has spent in the others is recorded as duration.

* `Wait`, `waits`, `waitsUntil`: the acquisitions of a call and the time they took;
* `spans`, `Divided`: the histograms of the latency, the duration and the queue wait;
* `split`, `Metered`, `Priced`: what a history says of the split before and after it is recorded;
* **`op_metered`**: every operation keeps its meter;
* **`latency_split_iff`**: the split is exact if and only if no acquisition without a guard took time.
-/

namespace S3o

open Async Lts

variable {κ ι : Type}

/-! ## Acquisitions -/

/-- The time an acquisition took, and whether it gave a guard. -/
structure Wait where
  granted : Bool
  time : ℕ
  deriving DecidableEq

/-- When the acquisition in progress was called. -/
def opened : List (ℕ × Ev (S3 κ)) → Option ℕ
  | [] => none
  | (t, .want _ _) :: _ => some t
  | (_, .got _ _ _) :: _ | (_, .lost _ _) :: _ => none
  | _ :: l => opened l

/-- The acquisitions that have returned. -/
def waits : List (ℕ × Ev (S3 κ)) → List Wait
  | [] => []
  | (t, .got _ _ _) :: l => ⟨true, t - (opened l).getD t⟩ :: waits l
  | (t, .lost _ _) :: l => ⟨false, t - (opened l).getD t⟩ :: waits l
  | _ :: l => waits l

/-- The acquisitions of a call that ends at `now`: if one is in progress it is dropped. -/
def waitsUntil (now : ℕ) (l : List (ℕ × Ev (S3 κ))) : List Wait :=
  ((opened l).map fun s => ⟨false, now - s⟩).toList ++ waits l

/-- The time they took. -/
def spent (ws : List Wait) : ℕ := (ws.map Wait.time).sum

/-- The time of those that gave a guard. -/
def queued (ws : List Wait) : ℕ := spent (ws.filter Wait.granted)

@[simp] theorem queued_cons (w : Wait) (ws : List Wait) :
    queued (w :: ws) = (if w.granted then w.time else 0) + queued ws := by
  unfold queued spent
  by_cases hw : w.granted <;> simp [hw]

theorem spent_eq_queued (ws : List Wait) :
    spent ws = queued ws + spent (ws.filter fun w => !w.granted) := by
  induction ws with
  | nil => rfl
  | cons w ws ih =>
    rw [queued_cons]
    unfold spent at ih ⊢
    by_cases hw : w.granted
    · simp [hw, ih]
      omega
    · simp [hw, ih]
      omega

theorem spent_eq_queued_iff (ws : List Wait) :
    spent ws = queued ws ↔ ∀ w ∈ ws, w.granted = false → w.time = 0 := by
  rw [spent_eq_queued, Nat.add_eq_left]
  unfold spent
  rw [List.sum_eq_zero_iff, List.forall_mem_map]
  simp

theorem queued_waitsUntil (now : ℕ) (l : List (ℕ × Ev (S3 κ))) :
    queued (waitsUntil now l) = queued (waits l) := by
  unfold waitsUntil
  cases opened l <;> simp

/-! ## Records -/

/-- The latencies, durations and queue waits among records. -/
def spans (rs : List Record) : List (String × ℕ) :=
  rs.filterMap fun
    | .histogram name _ (.nanos n) =>
      if name ∈ ["s3.op.latency", "s3.op.duration", "s3.op.queue_wait"] then some (name, n) else none
    | _ => none

/-- A latency without the queue wait `w`, and the queue wait unless it is zero. -/
def split (w latency : ℕ) : List (String × ℕ) :=
  [("s3.op.latency", latency), ("s3.op.duration", latency - w)] ++
    if w = 0 then [] else [("s3.op.queue_wait", w)]

/-- **The recorded latency is the queue wait `w` and the recorded duration.** -/
def Divided (w : ℕ) (rs : List Record) : Prop := ∃ latency, w ≤ latency ∧ spans rs = split w latency

theorem Divided.unique {w w' : ℕ} {rs : List Record} (h : Divided w rs) (h' : Divided w' rs) :
    w = w' := by
  obtain ⟨a, hw, ha⟩ := h
  obtain ⟨b, hw', hb⟩ := h'
  rw [ha] at hb
  unfold split at hb
  simp only [List.cons_append, List.nil_append, List.cons.injEq, Prod.mk.injEq, true_and] at hb
  omega

@[simp] theorem spans_append (rs rs' : List Record) : spans (rs ++ rs') = spans rs ++ spans rs' :=
  List.filterMap_append

section

variable (m : OpMetrics)

theorem spans_record (status : String) (now : ℕ) :
    spans (m.record status now) = split m.queueWait (now - m.start) := by
  unfold OpMetrics.record split
  by_cases hw : m.queueWait = 0 <;> simp [hw, spans]

theorem spans_bytes (now : ℕ) : spans (m.bytes now) = [] := by
  unfold OpMetrics.bytes spans
  dsimp only
  split_ifs <;> simp

theorem spans_ok (now later : ℕ) : spans (m.ok now later).2 = split m.queueWait (now - m.start) := by
  unfold OpMetrics.ok
  have hcons : ∀ n l v rs, spans (.counter n l v :: rs) = spans rs := fun _ _ _ _ => rfl
  simp only [spans_append, hcons, spans_bytes, spans_record, List.append_nil]

theorem spans_err (e : S3Error) (now : ℕ) :
    spans (m.err e now).2 = split m.queueWait (now - m.start) := by
  unfold OpMetrics.err
  rw [spans_append, spans_record]
  exact List.append_nil _

theorem spans_drop (now : ℕ) :
    spans (m.drop now) = if m.done then [] else split m.queueWait (now - m.start) := by
  unfold OpMetrics.drop
  by_cases hm : m.done
  · rw [if_pos hm, if_pos hm]
    rfl
  · rw [if_neg hm, if_neg hm, spans_append, spans_record]
    exact List.append_nil _

end

/-! ## The meter of a call -/

/-- The events that the split depends on. -/
def clocked : Ev (S3 κ) → Option Unit
  | .got _ _ _ => some ()
  | .emit (.startOperation _ _) | .emit (.addQueueWait _) | .emit (.ok _ _) | .emit (.err _ _) => some ()
  | _ => none

theorem clocked_unseen : Unseen (clocked (κ := κ)) :=
  ⟨fun _ _ => rfl, fun _ _ _ => rfl, fun _ _ _ => rfl, fun _ _ => rfl⟩

/-- **What the split depends on**: when the operation has started and the queue wait it has added up,
whether it has recorded, and what. -/
structure Meter where
  start : ℕ
  wait : ℕ
  done : Bool
  spans : List (String × ℕ)

/-- The meter of a call, once its operation has started. -/
def Tally.meter (s : Tally) : Option Meter :=
  s.m.map fun m => ⟨m.start, m.queueWait, m.done, spans s.records⟩

theorem Tally.meter_next (s : Tally) {x : Metric} (hx : clocked (.emit x : Ev (S3 κ)) = none) :
    (s.next x).meter = s.meter := by
  obtain ⟨m, rs⟩ := s
  cases x with
  | sent n => cases m <;> rfl
  | recv n => cases m <;> rfl
  | http op d ok =>
    unfold Tally.meter Tally.next httpRecords
    dsimp only
    rw [spans_append]
    simp [spans]
  | ttfb op d =>
    unfold Tally.meter Tally.next ttfbRecords
    dsimp only
    rw [spans_append]
    simp [spans]
  | _ => cases hx

section

variable {s : Tally} {start wait : ℕ} {done : Bool} {xs : List (String × ℕ)}

theorem Tally.meter_eq_some (h : s.meter = some ⟨start, wait, done, xs⟩) :
    ∃ m : OpMetrics, s.m = some m ∧ m.start = start ∧ m.queueWait = wait ∧ m.done = done ∧
      spans s.records = xs := by
  obtain ⟨m, hm, heq⟩ := Option.map_eq_some_iff.mp h
  simp only [Meter.mk.injEq] at heq
  exact ⟨m, hm, heq⟩

theorem Tally.meter_addQueueWait (h : s.meter = some ⟨start, wait, done, xs⟩) (d : ℕ) :
    (s.next (.addQueueWait d)).meter = some ⟨start, wait + d, done, xs⟩ := by
  obtain ⟨m, hm, rfl, rfl, rfl, rfl⟩ := Tally.meter_eq_some h
  unfold Tally.meter Tally.next
  rw [hm]
  rfl

theorem Tally.meter_ok (h : s.meter = some ⟨start, wait, false, []⟩) (now later : ℕ) :
    (s.next (.ok now later)).meter = some ⟨start, wait, true, split wait (now - start)⟩ := by
  obtain ⟨m, hm, rfl, rfl, -, hxs⟩ := Tally.meter_eq_some h
  unfold Tally.meter Tally.next
  rw [hm]
  dsimp only
  rw [spans_append, hxs, spans_ok]
  rfl

theorem Tally.meter_err (h : s.meter = some ⟨start, wait, false, []⟩) (e : S3Error) (now : ℕ) :
    (s.next (.err e now)).meter = some ⟨start, wait, true, split wait (now - start)⟩ := by
  obtain ⟨m, hm, rfl, rfl, -, hxs⟩ := Tally.meter_eq_some h
  unfold Tally.meter Tally.next
  rw [hm]
  dsimp only
  rw [spans_append, hxs, spans_err]
  rfl

/-- **The records of a call that has ended at `now`.** -/
theorem Tally.spans_close (h : s.meter = some ⟨start, wait, done, xs⟩) (now : ℕ) :
    spans (s.close now) = xs ++ if done then [] else split wait (now - start) := by
  obtain ⟨m, hm, rfl, rfl, rfl, rfl⟩ := Tally.meter_eq_some h
  unfold Tally.close
  rw [hm, spans_append]
  dsimp only
  rw [spans_drop]

end

/-- The meter after a history. -/
def meter (τ : History (S3 κ)) : Option Meter := (replay (metricsOf τ.events)).meter

/-- The time that the granted acquisitions of a history took. -/
def timeQueued (τ : History (S3 κ)) : ℕ := queued (waits (timed τ))

/-- **Where nothing is clocked** the meter stays, and no acquisition is granted. -/
theorem meter_unseen {new : History (S3 κ)} (τ : History (S3 κ)) (hnew : new.events.filterMap clocked = []) :
    meter (new ++ τ) = meter τ ∧ timeQueued (new ++ τ) = timeQueued τ := by
  induction new with
  | nil => exact ⟨rfl, rfl⟩
  | cons x new ih =>
    obtain ⟨t, x⟩ := x
    cases x with
    | read => exact ih hnew
    | order js => exact ih hnew
    | event e =>
      have he : clocked e = none := by
        simpa using List.filterMap_eq_nil_iff.mp hnew e List.mem_cons_self
      have hrest : (History.events new).filterMap clocked = [] :=
        List.filterMap_eq_nil_iff.mpr fun y hy =>
          List.filterMap_eq_nil_iff.mp hnew y (List.mem_cons_of_mem _ hy)
      obtain ⟨hm, hq⟩ := ih hrest
      rw [← hm, ← hq]
      cases e with
      | emit x => exact ⟨Tally.meter_next _ he, rfl⟩
      | got h a d => cases he
      | lost h a =>
        refine ⟨rfl, ?_⟩
        show queued (⟨false, _⟩ :: waits (timed (new ++ τ))) = _
        rw [queued_cons, if_neg Bool.false_ne_true, Nat.zero_add]
        rfl
      | _ => exact ⟨rfl, rfl⟩

/-- The instants of a history do not decrease. -/
def Timely (τ : History (S3 κ)) : Prop := τ.Pairwise fun x y => y.1 ≤ x.1

/-- **An operation in progress**: it has added up the time of the granted acquisitions and recorded
nothing, and this time has passed since it started. -/
def Metered (τ : History (S3 κ)) : Prop :=
  ∃ start, meter τ = some ⟨start, timeQueued τ, false, []⟩ ∧
    (Timely τ → ∀ now, (∀ x ∈ τ, x.1 ≤ now) → start + timeQueued τ ≤ now)

/-- **An operation that has recorded its latency.** -/
def Priced (τ : History (S3 κ)) : Prop :=
  ∃ start latency, meter τ = some ⟨start, timeQueued τ, true, split (timeQueued τ) latency⟩ ∧
    (Timely τ → timeQueued τ ≤ latency)

/-! ## What each statement does to the meter -/

section

variable {τ : History (S3 κ)} {α : Type}

theorem Metered.unseen {new : History (S3 κ)} (h : Metered τ) (hnew : new.events.filterMap clocked = []) :
    Metered (new ++ τ) := by
  obtain ⟨start, hm, hlate⟩ := h
  obtain ⟨hm', hq⟩ := meter_unseen τ hnew
  refine ⟨start, ?_, fun hτ now hnow => ?_⟩
  · rw [hm', hq, hm]
  · rw [hq]
    exact hlate (List.pairwise_append.mp hτ).2.1 now fun x hx => hnow x (List.mem_append_right _ hx)

theorem Metered.event (h : Metered τ) (t : ℕ) {e : Ev (S3 κ)} (he : clocked e = none) :
    Metered ((t, .event e) :: τ) := by
  have : Metered ([(t, .event e)] ++ τ) := h.unseen (by simp [History.events, he])
  exact this

theorem Priced.unseen {new : History (S3 κ)} (h : Priced τ) (hnew : new.events.filterMap clocked = []) :
    Priced (new ++ τ) := by
  obtain ⟨start, latency, hm, hlate⟩ := h
  obtain ⟨hm', hq⟩ := meter_unseen τ hnew
  refine ⟨start, latency, ?_, fun hτ => ?_⟩
  · rw [hm', hq, hm]
  · rw [hq]
    exact hlate (List.pairwise_append.mp hτ).2.1

theorem metered_start (op : String) (t u : ℕ) :
    Metered [(u, .event (.emit (.startOperation op t) : Ev (S3 κ))), (t, .read)] :=
  ⟨t, rfl, fun _ now hnow => hnow (t, .read) (by simp)⟩

/-- **An acquisition that is granted** and added to the queue wait. -/
theorem Metered.granted (h : Metered τ) (k : κ × Half) (a : Acquire) (s t u : ℕ) :
    Metered ((u, .event (.emit (.addQueueWait (t - s)))) :: (t, .event (.got k a (t - s))) ::
      (s, .event (.want k a)) :: τ) := by
  obtain ⟨start, hm, hlate⟩ := h
  have hq : timeQueued ((u, .event (.emit (.addQueueWait (t - s)))) :: (t, .event (.got k a (t - s))) ::
      (s, .event (.want k a)) :: τ) = timeQueued τ + (t - s) := by
    show queued (⟨true, t - s⟩ :: waits (timed τ)) = _
    rw [queued_cons, if_pos rfl, Nat.add_comm]
    rfl
  refine ⟨start, ?_, fun hτ now hnow => ?_⟩
  · rw [hq]
    exact Tally.meter_addQueueWait hm (t - s)
  · rw [hq]
    obtain ⟨-, hτ⟩ := List.pairwise_cons.mp hτ
    obtain ⟨ht, hτ⟩ := List.pairwise_cons.mp hτ
    obtain ⟨hs, hτ⟩ := List.pairwise_cons.mp hτ
    have hst : s ≤ t := ht _ List.mem_cons_self
    have htn : t ≤ now := hnow (t, .event (.got k a (t - s))) (by simp)
    have := hlate hτ s hs
    omega

/-- **The outcome is recorded** at an instant `t` that was read before. -/
theorem Metered.priced (h : Metered τ) (t u : ℕ) {x : Metric} {ρ : History (S3 κ)}
    (hρ : ρ.events = []) (ht : (t, .read) ∈ ρ)
    (hx : ∀ (s : Tally) (start wait : ℕ), s.meter = some ⟨start, wait, false, []⟩ →
      (s.next x).meter = some ⟨start, wait, true, split wait (t - start)⟩) :
    Priced ((u, .event (.emit x)) :: (ρ ++ τ)) := by
  have hρ' : ρ.events.filterMap clocked = [] := by
    rw [hρ]
    rfl
  obtain ⟨start, hm, hlate⟩ := h
  obtain ⟨hm', hq'⟩ := meter_unseen τ hρ'
  have hq : timeQueued ((u, .event (.emit x)) :: (ρ ++ τ)) = timeQueued τ := hq'
  refine ⟨start, t - start, ?_, fun hτ => ?_⟩
  · rw [hq]
    exact hx _ _ _ (hm'.trans hm)
  · obtain ⟨-, hτ, hold⟩ := List.pairwise_append.mp (List.pairwise_cons.mp hτ).2
    have := hlate hτ t fun y hy => hold _ ht y hy
    rw [hq]
    omega

end

/-! ## The operations -/

/-- A call is suspended only while its operation is in progress. -/
abbrev metering : Watch (S3 κ) := ⟨fun _ => True, Metered, fun _ _ => True⟩

section

variable {self : S3Client κ} {τ : History (S3 κ)} {α : Type}

theorem spec_unseen {p : Prog (S3 κ) α} (hp : p.Safe (.project clocked (· = [])) (fun g _ => g = []) [])
    (hτ : Metered τ) : p.Spec metering (fun _ τ' => Metered τ') τ := by
  refine (hp.spec fun new _ => ⟨trivial, fun hpause => ?_, fun _ => trivial⟩).weaken ?_
  · rw [Monitor.exec_project] at hpause
    exact hτ.unseen hpause
  · rintro a _ - ⟨new, rfl, -, hnew⟩
    rw [Monitor.exec_project] at hnew
    exact hτ.unseen hnew

/-- **An acquisition and the scope of its guard.** -/
theorem guarded_metered {h : Half} {a : Acquire} {rest : Prog (S3 κ) (S3Result α)}
    {ψ : S3Result α → History (S3 κ) → Prop} (hτ : Metered τ)
    (hrest : ∀ τ', Metered τ' → rest.Spec metering (fun r τ' => ∀ v, ψ r ((v, .event .freed) :: τ')) τ')
    (hlost : ∀ e τ', Metered τ' → ψ (.error e) τ') : (self.guarded h a rest).Spec metering ψ τ := by
  rw [spec_guarded]
  refine ⟨trivial, fun s => ⟨trivial, hτ.event s rfl, fun t => ⟨trivial, fun u => ?_⟩, fun t => ?_⟩⟩
  · refine (hrest _ (hτ.granted _ a s t u)).weaken fun r τ' _ hψ => ?_
    exact ⟨trivial, fun v => ⟨trivial, hψ v⟩⟩
  · exact ⟨trivial, hlost _ _ ((hτ.event s rfl).event t rfl)⟩

theorem Scoped.metered {p : Prog (S3 κ) (S3Result α)} (hp : Scoped clocked self p) :
    metering.triples.Triple Metered p fun τ _ => Metered τ := by
  obtain ⟨h, a, rest, rfl, hrest⟩ := hp
  refine fun τ _ hτ => guarded_metered hτ (fun τ' hτ' => ?_) fun e τ' hτ' => hτ'
  exact (spec_unseen (hrest []) hτ').weaken fun r τ' _ hτ' v => hτ'.event v rfl

theorem recordErr_metered (e : S3Error) (hτ : Metered τ) :
    (recordErr e : Prog (S3 κ) _).Spec metering (fun _ τ' => Priced τ') τ := by
  rw [spec_recordErr]
  refine ⟨trivial, fun t => ⟨trivial, fun u => ⟨trivial, ?_⟩⟩⟩
  exact hτ.priced t u (ρ := [(t, .read)]) rfl (by simp) fun s _ _ h => s.meter_err h e t

theorem finish_metered (r : S3Result α) (hτ : Metered τ) :
    (finish r : Prog (S3 κ) _).Spec metering (fun _ τ' => Priced τ') τ := by
  cases r with
  | ok v =>
    show (recordOk : Prog (S3 κ) _).Spec _ _ _
    rw [spec_recordOk]
    refine ⟨trivial, fun t => ⟨trivial, fun t' => ⟨trivial, fun u => ⟨trivial, ?_⟩⟩⟩⟩
    exact hτ.priced t u (ρ := [(t', .read), (t, .read)]) rfl (by simp) fun s _ _ h =>
      s.meter_ok h t t'
  | error e => exact recordErr_metered e hτ

/-- Where a call may end: with its latency recorded, or with its operation still in progress. -/
def Stopped (τ : History (S3 κ)) : Prop := Metered τ ∨ Priced τ

theorem Stopped.event (h : Stopped τ) (t : ℕ) {e : Ev (S3 κ)} (he : clocked e = none) :
    Stopped ((t, .event e) :: τ) := by
  refine h.imp (fun h => h.event t he) fun h => ?_
  have : Priced ([(t, .event e)] ++ τ) := h.unseen (by simp [History.events, he])
  exact this

/-- An operation that ends under its guard. -/
theorem ended_metered {h : Half} {a : Acquire} {p : Prog (S3 κ) (S3Result α)}
    (hp : p.Safe (.project clocked (· = [])) (fun g _ => g = []) []) :
    metering.triples.Triple Metered (self.guarded h a (p.bind fun r => (finish r).bind fun _ => .ret r))
      fun τ _ => Stopped τ := by
  refine fun τ _ hτ => guarded_metered hτ (fun τ hτ => ?_) fun e τ hτ => Or.inl hτ
  rw [Prog.spec_bind]
  refine (spec_unseen hp hτ).weaken fun r τ' _ hτ' => ?_
  simp only [Prog.spec_bind, Prog.spec_ret, true_and]
  exact (finish_metered r hτ').weaken fun _ _ _ h v => Stopped.event (Or.inr h) v rfl

/-- **Every operation keeps its meter**, and it is suspended only while it is in progress. -/
theorem op_metered (op : Op) : (op.program self).Spec metering (fun _ τ => Stopped τ) [] := by
  refine op_of_stages (T := metering.triples) (A := Metered) (B := fun τ _ => Metered τ)
    (C := fun τ _ => Stopped τ) (I := (· = [])) ?_
    (fun r τ _ hτ => (finish_metered r hτ).weaken fun _ _ _ h => Or.inr h) ?_ [] trivial rfl
  · rintro τ - rfl
    simp only [spec_startOp, true_and]
    exact fun t u => metered_start op.label t u
  have hlog : ∀ e : Metric, clocked (κ := κ) (.emit e) = none →
      metering.triples.Triple Metered (Prog.log e : Prog (S3 κ) _) fun τ _ => Metered τ := by
    intro e he τ _ hτ
    simp only [Prog.spec_log, true_and]
    exact fun t => hτ.event t he
  cases op with
  | put key body =>
    exact ⟨Metered, hlog _ rfl, fun _ => (multipartPut_scoped clocked_unseen key body.data).metered,
      fun _ => (simplePut_scoped clocked_unseen key body.data).metered⟩
  | get key =>
    exact ⟨_, _, (stat_scoped clocked_unseen key).metered, fun e τ hτ => hτ,
      fun info _ => (rangeGet_scoped clocked_unseen key info.contentLength).metered,
      fun info _ => (simpleGet_scoped clocked_unseen key).metered, fun d => hlog _ rfl, fun e τ hτ => hτ⟩
  | delete key => exact ended_metered (send_unseen clocked_unseen _)
  | head key => exact (stat_scoped clocked_unseen key).metered
  | list pfx recursive => exact ended_metered (paginatedList_unseen clocked_unseen pfx recursive)

end

/-! ## Every run -/

variable [DecidableEq κ] [DecidableEq ι] {S : Setup κ ι} {s : Sys κ ι}
  {l : List ((ι × Act κ) × Sys κ ι)}

/-- **A call that has ended** has recorded its latency as the time of its granted acquisitions and the
rest. -/
theorem call_divided (hr : Run Sys.Step S.init l s) (i : ι) (hi : (s.procs i).hasEnded = true) :
    Divided (queued (waitsUntil (s.procs i).clock (stamps i l))) (s.procs i).records := by
  obtain ⟨τ, hτ⟩ := follows_run hr i
  have hspec : ((S.op i).program (S.client i)).Spec metering (fun _ τ => Stopped τ) [] := op_metered _
  obtain ⟨r, hm⟩ := Proc.hasEnded_iff.mp hi
  have hstop : Stopped τ := by
    cases r with
    | none => exact Or.inl (hτ.reached.paused hspec hm)
    | some r => exact hτ.reached.returned hspec hm
  rw [queued_waitsUntil, ← hτ.timed]
  have hmeter : (s.procs i).tally.meter = meter τ := by
    unfold Proc.tally meter
    rw [hτ.trace]
  unfold Proc.records
  rw [if_pos hi]
  rcases hstop with ⟨start, hm, hlate⟩ | ⟨start, latency, hm, hlate⟩
  · refine ⟨(s.procs i).clock - start, ?_, ?_⟩
    · have := hlate hτ.sorted _ hτ.past
      unfold timeQueued at this
      omega
    · rw [Tally.spans_close (hmeter.trans hm)]
      rfl
  · refine ⟨latency, hlate hτ.sorted, ?_⟩
    rw [Tally.spans_close (hmeter.trans hm), if_pos rfl, List.append_nil]
    rfl

/-- **The latency is the time in acquisitions and the duration exactly when every acquisition that gave
no guard took no time**: one that timed out, or one in which the call was dropped. -/
theorem latency_split_iff (S : Setup κ ι) {s : Sys κ ι} {l : List ((ι × Act κ) × Sys κ ι)}
    (hr : Run Sys.Step S.init l s) (i : ι) (hi : (s.procs i).hasEnded = true) :
    Divided (spent (waitsUntil (s.procs i).clock (stamps i l))) (s.procs i).records ↔
      ∀ w ∈ waitsUntil (s.procs i).clock (stamps i l), w.granted = false → w.time = 0 := by
  rw [← spent_eq_queued_iff]
  have hdiv := call_divided hr i hi
  constructor
  · exact fun h => h.unique hdiv
  · intro h
    rwa [h]

/-- Two calls wait for their replies, and the third for a permit. -/
def queueScript : List (Fin 3 × Cmd) :=
  List.replicate 17 (0, .go) ++ List.replicate 17 (1, .go) ++ List.replicate 8 (2, .go)

/-- The first call returns, the third has its permit after five nanoseconds and its reply seven later. -/
def waitScript : List (Fin 3 × Cmd) :=
  queueScript ++ List.replicate 10 (0, .go) ++ List.replicate 6 (2, .go) ++
    [(2, .at 5), (2, .go), (2, .go), (2, .at 12)] ++ List.replicate 9 (2, .go)

/-- A `delete_object` that waits for its permit, and then for its reply. -/
theorem latency_split_delete : ∃ l s, Run Sys.Step deleteSetup.init l s ∧
    (s.procs 2).hasEnded = true ∧ waitsUntil (s.procs 2).clock (stamps 2 l) = [⟨true, 5⟩] ∧
    spans (s.procs 2).records =
      [("s3.op.latency", 12), ("s3.op.duration", 7), ("s3.op.queue_wait", 5)] ∧
    Divided (spent (waitsUntil (s.procs 2).clock (stamps 2 l))) (s.procs 2).records := by
  obtain ⟨l, s, hr, hrun⟩ := deleteSetup.observeRun (sampleAnswer []) waitScript
    (fun r => ((r.2.procs 2).hasEnded, waitsUntil (r.2.procs 2).clock (stamps 2 r.1),
      spans (r.2.procs 2).records))
    (v := (true, [⟨true, 5⟩],
      [("s3.op.latency", 12), ("s3.op.duration", 7), ("s3.op.queue_wait", 5)])) rfl
  obtain ⟨hend, hrun⟩ := Prod.mk.inj hrun
  obtain ⟨hw, hspans⟩ := Prod.mk.inj hrun
  refine ⟨l, s, hr, hend, hw, hspans, (latency_split_iff deleteSetup hr 2 hend).mpr ?_⟩
  rw [hw]
  simp

/-- The third call is dropped in the queue, and its future is gone after five nanoseconds. -/
def dropScript : List (Fin 3 × Cmd) :=
  queueScript ++ [(2, .pool .cancel), (2, .go), (2, .at 5)]

/-- **A wait that is recorded as duration**: the call is dropped after five nanoseconds in the queue. -/
theorem dropped_wait_unrecorded : ∃ l s, Run Sys.Step deleteSetup.init l s ∧
    (s.procs 2).mode = .ended none ∧
    waitsUntil (s.procs 2).clock (stamps 2 l) = [⟨false, 5⟩] ∧
    spans (s.procs 2).records = [("s3.op.latency", 5), ("s3.op.duration", 5)] ∧
    ¬ Divided (spent (waitsUntil (s.procs 2).clock (stamps 2 l))) (s.procs 2).records := by
  obtain ⟨l, s, hr, hrun⟩ := deleteSetup.observeRun (sampleAnswer []) dropScript
    (fun r => ((r.2.procs 2).mode, waitsUntil (r.2.procs 2).clock (stamps 2 r.1),
      spans (r.2.procs 2).records))
    (v := (.ended none, [⟨false, 5⟩], [("s3.op.latency", 5), ("s3.op.duration", 5)])) rfl
  obtain ⟨hm, hrun⟩ := Prod.mk.inj hrun
  obtain ⟨hw, hspans⟩ := Prod.mk.inj hrun
  refine ⟨l, s, hr, hm, hw, hspans, fun h => ?_⟩
  have hdivided : Divided 0 (s.procs 2).records := ⟨5, Nat.zero_le 5, hspans⟩
  rw [hw] at h
  exact absurd (hdivided.unique h) (by decide)

end S3o
