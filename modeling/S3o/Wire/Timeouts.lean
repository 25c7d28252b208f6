import S3o.Async.Trace
import S3o.System.Accounting
import S3o.Wire.Messages

/-!
# Timeouts of the pool

A call whose acquisition has timed out returns at once. So a call that the pool turns away has asked the
service for nothing, but for the HEAD by which `get_object` begins, and can be made again.

* `losses`: the acquisitions of a history that have timed out;
* `Bounced`: a result that is the timeout of the only one that has, with the messages before it;
* **`op_bounced`**, **`timeout_harmless`**: so is the result of every call that the pool turns away.
-/

namespace S3o

open Async Lts

variable {κ ι α : Type}

/-- The acquisition that has timed out. -/
def lossOf : Ev (S3 κ) → Option ((κ × Half) × Acquire)
  | .lost s a => some (s, a)
  | _ => none

/-- The acquisitions of a history that have timed out, newest first. -/
def losses (τ : History (S3 κ)) : List ((κ × Half) × Acquire) := τ.events.filterMap lossOf

/-- A call is suspended only while none has. -/
abbrev admitted : Watch (S3 κ) := ⟨fun _ => True, fun τ => losses τ = [], fun _ _ => True⟩

/-- **The result of a call that the pool turns away**: the timeout of the acquisition. `P` holds of the
messages before it. -/
def Bounced (P : List Msg → Prop) (r : S3Result α) (τ : History (S3 κ)) : Prop :=
  losses τ = [] ∨ ∃ s a, losses τ = [(s, a)] ∧ r = .error (a.timeoutError s.2.name) ∧ P (said τ)

section

variable {self : S3Client κ} {τ τ' : History (S3 κ)} {P : List Msg → Prop} {t : ℕ}

theorem lossOf_unseen : Unseen (lossOf (κ := κ)) :=
  ⟨fun _ _ => rfl, fun _ _ _ => rfl, fun _ _ _ => rfl, fun _ _ => rfl⟩

theorem losses_append : losses (τ ++ τ') = losses τ ++ losses τ' := by
  unfold losses
  rw [History.events_append, List.filterMap_append]

theorem Bounced.map {β : Type} {f : α → β} {r : S3Result α} (h : Bounced P r τ) :
    Bounced P (r.map f) τ := by
  rcases h with h | ⟨s, a, h, rfl, hP⟩
  · exact Or.inl h
  · exact Or.inr ⟨s, a, h, rfl, hP⟩

theorem Bounced.of_eq {r : S3Result α} (h : Bounced P r τ) (hl : losses τ' = losses τ)
    (hs : said τ' = said τ) : Bounced P r τ' := by
  unfold Bounced
  rw [hl, hs]
  exact h

theorem spec_admitted {p : Prog (S3 κ) α} (hp : p.Safe (.project lossOf (· = [])) (fun g _ => g = []) [])
    (hτ : losses τ = []) : p.Spec admitted (fun _ τ' => losses τ' = []) τ := by
  have hnew : ∀ new : History (S3 κ), new.events.filterMap lossOf = [] → losses (new ++ τ) = [] := by
    intro new h
    rw [losses_append, hτ, List.append_nil]
    exact h
  refine (hp.spec fun new _ => ⟨trivial, fun hpause => ?_, fun _ => trivial⟩).weaken ?_
  · rw [Monitor.exec_project] at hpause
    exact hnew new hpause
  · rintro a _ - ⟨new, rfl, -, h⟩
    rw [Monitor.exec_project] at h
    exact hnew new h

/-- **A statement that acquires** does nothing before it has its permits. -/
theorem Scoped.bounced {p : Prog (S3 κ) (S3Result α)} (hp : Scoped lossOf self p) :
    admitted.triples.Triple (fun τ => losses τ = [] ∧ P (said τ)) p fun τ r => Bounced P r τ := by
  obtain ⟨h, a, rest, rfl, hrest⟩ := hp
  rintro τ - ⟨hτ, hP⟩
  rw [spec_guarded]
  refine ⟨trivial, fun s => ⟨trivial, hτ, fun t => ⟨trivial, fun u => ?_⟩, fun t => ⟨trivial, ?_⟩⟩⟩
  · refine (spec_admitted (hrest []) ?_).weaken fun r τ' _ hτ' => ⟨trivial, fun v => ⟨trivial, Or.inl hτ'⟩⟩
    exact hτ
  · exact Or.inr ⟨(self.pool, h), a, congrArg (((self.pool, h), a) :: ·) hτ, rfl, hP⟩

theorem finish_bounced {r : S3Result α} (h : Bounced P r τ) :
    (finish r : Prog (S3 κ) Unit).Spec admitted (fun _ τ' => Bounced P r τ') τ := by
  cases r with
  | ok v =>
    show (recordOk : Prog (S3 κ) Unit).Spec _ _ _
    simp only [spec_recordOk, true_and]
    exact fun t t' u => h.of_eq rfl rfl
  | error e =>
    show (recordErr e : Prog (S3 κ) Unit).Spec _ _ _
    simp only [spec_recordErr, true_and]
    exact fun t u => h.of_eq rfl rfl

theorem send_admitted (r : Request) (hτ : losses τ = []) :
    (send r : Prog (S3 κ) _).Spec admitted (fun _ τ' => losses τ' = [] ∧
      requestsOf (said τ') = r :: requestsOf (said τ)) τ := by
  refine spec_send ?_
  simp only [Leaf.spec_send, true_and]
  exact fun s n => ⟨hτ, fun t x => ⟨hτ, rfl⟩⟩

/-- `stat` has sent its HEAD, or got no permit for it. -/
def HeadSent (self : S3Client κ) (key : String) (τ : History (S3 κ)) (r : S3Result α) : Prop :=
  losses τ = [] ∧ requestsOf (said τ) = [.headObject self.config.bucket key] ∨
    ∃ s a, losses τ = [(s, a)] ∧ r = .error (a.timeoutError s.2.name) ∧ said τ = []

/-- **`stat`**, before which nothing was said. -/
theorem stat_bounced {key : String} (hτ : losses τ = []) (hsaid : said τ = []) :
    (self.stat key).Spec admitted (fun r τ' => HeadSent self key τ' r) τ := by
  unfold S3Client.stat
  rw [spec_guarded]
  refine ⟨trivial, fun s => ⟨trivial, hτ, fun t => ⟨trivial, fun u => ?_⟩, fun t => ⟨trivial, ?_⟩⟩⟩
  · rw [Prog.bind_eq, Prog.spec_bind]
    refine (send_admitted _ ?_).weaken fun r τ₁ _ h => (Prog.spec_ret _).mpr
      ⟨trivial, trivial, fun v => ⟨trivial, Or.inl ⟨h.1, ?_⟩⟩⟩
    · exact hτ
    · refine h.2.trans ?_
      show _ :: requestsOf (said τ) = _
      rw [hsaid]
      rfl
  · have hlost : ((self.pool, Half.read), Acquire.one) :: losses τ = [((self.pool, .read), .one)] := by
      rw [hτ]
    exact Or.inr ⟨(self.pool, .read), .one, hlost, rfl, hsaid⟩

/-- `delete_object` and `list_objects` end their operation under their guard. -/
theorem early_scoped {h : Half} {a : Acquire} {p : Prog (S3 κ) (S3Result α)}
    (hp : ∀ σ : List ((κ × Half) × Acquire), p.Safe (.project lossOf (· = σ)) (fun g _ => g = σ) σ) :
    Scoped lossOf self (self.guarded h a (p.bind fun r => (finish r).bind fun _ => .ret r)) := by
  refine ⟨h, a, _, rfl, fun σ => ?_⟩
  rw [Prog.safe_bind]
  refine Prog.safe_weaken ?_ _ _ (hp σ)
  intro g r hg
  simp only [Prog.safe_bind, Prog.safe_ret]
  refine safe_finish r _ ?_ ?_
  · exact fun _ _ _ _ => ⟨trivial, hg⟩
  · exact fun _ _ _ => ⟨trivial, hg⟩

/-- The messages of a call that the pool turns away. -/
def Op.Preface (self : S3Client κ) (op : Op) (ms : List Msg) : Prop :=
  requestsOf ms = [] ∨ ∃ key, op = .get key ∧ requestsOf ms = [.headObject self.config.bucket key]

/-- **The result of a call that the pool turns away.** -/
theorem op_bounced (op : Op) :
    (op.program self).Spec admitted (fun r τ => Bounced (op.Preface self) r τ) [] := by
  let A : History (S3 κ) → Prop := fun τ => losses τ = [] ∧ said τ = []
  refine op_of_stages (T := admitted.triples) (A := A) (B := fun τ r => Bounced (op.Preface self) r τ)
    (C := fun τ r => Bounced (op.Preface self) r τ) (I := (· = [])) ?_
    (fun r τ _ h => finish_bounced h) ?_ [] trivial rfl
  · rintro τ - rfl
    simp only [spec_startOp, true_and]
    exact fun t u => ⟨rfl, rfl⟩
  have hbegun : ∀ {α : Type} {p : Prog (S3 κ) (S3Result α)} (v : α → Value), Scoped lossOf self p →
      admitted.triples.Triple A p fun τ r => Bounced (op.Preface self) (r.map v) τ := by
    intro α p v hp
    refine admitted.triples.post (admitted.triples.pre ?_ hp.bounced) fun τ r h => h.map
    exact fun τ h => ⟨h.1, Or.inl (h.2 ▸ rfl)⟩
  cases op with
  | put key body =>
    refine ⟨A, fun τ _ h => (Prog.spec_log _).mpr ⟨trivial, fun t => ⟨trivial, h⟩⟩, fun _ => ?_, fun _ => ?_⟩
    · exact hbegun _ (multipartPut_scoped lossOf_unseen key body.data)
    · exact hbegun _ (simplePut_scoped lossOf_unseen key body.data)
  | get key =>
    have hrest : ∀ {p : Prog (S3 κ) (S3Result Bytes)} (info : ObjectMetadata), Scoped lossOf self p →
        admitted.triples.Triple (fun τ => HeadSent self key τ (.ok info)) p
          fun τ r => Bounced ((Op.get key).Preface self) r τ := by
      refine fun info hp => admitted.triples.pre (fun τ h => ?_) hp.bounced
      rcases h with ⟨hl, hs⟩ | ⟨s, a, hl, he, hs⟩
      · exact ⟨hl, Or.inr ⟨key, rfl, hs⟩⟩
      · cases he
    refine ⟨fun τ r => HeadSent self key τ r, fun τ r => Bounced ((Op.get key).Preface self) r τ,
      fun τ _ h => stat_bounced h.1 h.2, fun e τ h => ?_,
      fun info _ => hrest info (rangeGet_scoped lossOf_unseen key info.contentLength),
      fun info _ => hrest info (simpleGet_scoped lossOf_unseen key), fun d τ _ h => ?_,
      fun e τ h => h.map (f := .data)⟩
    · rcases h with ⟨hl, -⟩ | ⟨s, a, hl, he, hs⟩
      · exact Or.inl hl
      · exact Or.inr ⟨s, a, hl, congrArg Except.error (Except.error.inj he), Or.inl (hs ▸ rfl)⟩
    · exact (Prog.spec_log _).mpr ⟨trivial, fun t => ⟨trivial, (h.of_eq rfl rfl).map⟩⟩
  | delete key => exact hbegun _ (early_scoped fun σ => send_unseen lossOf_unseen _)
  | head key => exact hbegun _ (stat_scoped lossOf_unseen key)
  | list pfx recursive =>
    exact hbegun _ (early_scoped fun σ => paginatedList_unseen lossOf_unseen pfx recursive)

end

/-! ## Every run -/

variable [DecidableEq κ] [DecidableEq ι]

/-- **A call that the pool turns away has done nothing.** In every run, a call with an acquisition that has
timed out was not dropped: it has returned the timeout of this acquisition, which is its only one that has
timed out. It has sent no request, except that a `get_object` may have sent its HEAD. -/
theorem timeout_harmless (S : Setup κ ι) {s : Sys κ ι} {l : List ((ι × Act κ) × Sys κ ι)}
    (hr : Run Sys.Step S.init l s) {i : ι} (hto : (s.procs i).TimedOut)
    (hend : (s.procs i).hasEnded = true) :
    (∃ h a, (s.procs i).mode = .ended (some (.error (a.timeoutError h.2.name))) ∧
      (s.procs i).trace.filterMap lossOf = [(h, a)]) ∧
    (S.op i).Preface (S.client i) (messages (s.procs i).trace) := by
  obtain ⟨τ, hτ⟩ := follows_run hr i
  obtain ⟨h, a, hlost⟩ := hto
  have hmem : (h, a) ∈ losses τ := by
    rw [hτ.trace] at hlost
    exact List.mem_filterMap.mpr ⟨_, hlost, rfl⟩
  obtain ⟨r, hm⟩ := Proc.hasEnded_iff.mp hend
  rw [hτ.trace, messages_events]
  cases r with
  | none =>
    have hnone : losses τ = [] := hτ.reached.paused (op_bounced (S.op i)) hm
    rw [hnone] at hmem
    cases hmem
  | some r =>
    rcases hτ.reached.returned (op_bounced (S.op i)) hm with hnone | ⟨h', a', hone, rfl, hP⟩
    · rw [hnone] at hmem
      cases hmem
    · exact ⟨⟨h', a', hm, hone⟩, hP⟩

theorem timeout_harmless_delete : ∃ l s, Run Sys.Step deleteSetup.init l s ∧
    (∃ h a, (s.procs 2).mode = .ended (some (.error (a.timeoutError h.2.name))) ∧
      (s.procs 2).trace.filterMap lossOf = [(h, a)]) ∧
    requestsOf (messages (s.procs 2).trace) = [] := by
  obtain ⟨l, s, hr, hrun⟩ := deleteSetup.observe (sampleAnswer []) deleteScript
    (fun s => ((s.procs 2).hasEnded, (s.procs 2).trace.filterMap markOf))
    (v := (true, [.lost, .start "delete"])) rfl
  obtain ⟨hend, hmarks⟩ := Prod.mk.inj hrun
  have hto : (s.procs 2).TimedOut := by
    rw [Proc.timedOut_iff, hmarks]
    exact List.mem_cons_self
  obtain ⟨hres, hpre⟩ := timeout_harmless deleteSetup hr hto hend
  rcases hpre with hnone | ⟨key, hget, -⟩
  · exact ⟨l, s, hr, hres, hnone⟩
  · cases hget

end S3o
