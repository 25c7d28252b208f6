import S3o.Async.Trace
import S3o.Rules
import S3o.System.Discipline

/-!
# The history of a call

In every run the steps of a call make a run of its program, wherever they are interleaved with those
of the others, so that what a watch says of the program holds of the call.

* `stamps`, `Proc.completed`: the events of a call with their instants, and what its stream has done;
* `Proc.Reached`, `Follows`: a history of the program that leads to where the call is;
* **`follows_run`**: every call has one, in every run;
* `Proc.Reached.always`, `Proc.Reached.returned`: what is proved of the program holds of the call.
-/

namespace S3o

open Async Lts

variable {κ ι : Type}

/-! ## Histories of calls -/

/-- The events of a history with their instants. -/
def timed (τ : History (S3 κ)) : List (ℕ × Ev (S3 κ)) :=
  τ.filterMap fun x => match x.2 with
    | .event e => some (x.1, e)
    | _ => none

/-- The events of call `i` in a run, newest first, each with the instant of its step. -/
def stamps [DecidableEq ι] (i : ι) (l : List ((ι × Act κ) × Sys κ ι)) : List (ℕ × Ev (S3 κ)) :=
  l.filterMap fun x => if x.1.1 = i then x.1.2.event.map (Prod.mk (x.2.procs i).clock) else none

/-- The futures of the call's stream that have finished, in the order in which they have. -/
def Proc.completed (q : Proc κ) : List ℕ :=
  match q.mode with
  | .live (.join _ _ _ d _) => d.map Prod.fst
  | _ => []

/-- **A history of its program leads to where the call is.** -/
def Proc.Reached (p₀ : Prog (S3 κ) Outcome) (τ : History (S3 κ)) (q : Proc κ) : Prop :=
  match q.mode with
  | .fresh p => p = p₀ ∧ τ = []
  | .live p => p₀.Runs τ p
  | .unwinding _ | .ended none => ∃ p, p₀.Runs τ p ∧ p.Paused
  | .ended (some r) => p₀.Runs τ (.ret r)

/-- **The history of call `i`** in a run: it leads to where the call is, its events are those of the
call, its instants do not decrease, and its streams have completed as the run has shown. -/
structure Follows [DecidableEq ι] (p₀ : Prog (S3 κ) Outcome) (i : ι) (l : List ((ι × Act κ) × Sys κ ι))
    (s₀ s : Sys κ ι) (τ : History (S3 κ)) : Prop where
  reached : (s.procs i).Reached p₀ τ
  trace : (s.procs i).trace = τ.events
  timed : timed τ = stamps i l
  sorted : τ.Pairwise fun x y => y.1 ≤ x.1
  past : ∀ x ∈ τ, x.1 ≤ (s.procs i).clock
  orders : ∀ t js, (t, .order js) ∈ τ → ∃ m, Visits s₀ l m ∧ (m.procs i).completed = js

section

variable {p₀ : Prog (S3 κ) Outcome} {τ : History (S3 κ)} {q : Proc κ} {W : Watch (S3 κ)}
  {ψ : Outcome → History (S3 κ) → Prop}

theorem Proc.Reached.always (h : q.Reached p₀ τ) (hp : p₀.Spec W ψ []) : W.always τ := by
  have hrun : ∀ {p}, p₀.Runs τ p → W.always τ := by
    intro p hr
    have := (hp.run hr).always
    rwa [List.append_nil] at this
  unfold Proc.Reached at h
  split at h
  · obtain ⟨-, rfl⟩ := h
    exact hp.always
  · exact hrun h
  · obtain ⟨p, hr, -⟩ := h
    exact hrun hr
  · obtain ⟨p, hr, -⟩ := h
    exact hrun hr
  · exact hrun h

theorem Proc.Reached.paused (h : q.Reached p₀ τ) (hp : p₀.Spec W ψ []) (hq : q.mode = .ended none) :
    W.paused τ := by
  unfold Proc.Reached at h
  rw [hq] at h
  obtain ⟨p, hr, hpaused⟩ := h
  have := (hp.run hr).paused hpaused
  rwa [List.append_nil] at this

theorem Proc.Reached.runs {r : Outcome} (h : q.Reached p₀ τ) (hq : q.mode = .ended (some r)) :
    p₀.Runs τ (.ret r) := by
  unfold Proc.Reached at h
  rwa [hq] at h

theorem Proc.Reached.returned {r : Outcome} (h : q.Reached p₀ τ) (hp : p₀.Spec W ψ [])
    (hq : q.mode = .ended (some r)) : ψ r τ := by
  have := (hp.run (h.runs hq)).result r rfl
  rwa [List.append_nil] at this

end

/-! ## Every run -/

theorem events_stamp (t : ℕ) {p : Prog (S3 κ) Outcome} {e : Option (Ev (S3 κ))} (τ : History (S3 κ)) :
    History.events (stamp t (p.note e) ++ τ) = e.toList ++ τ.events := by
  rw [History.events_append, Prog.events_note]

theorem timed_stamp (t : ℕ) {p : Prog (S3 κ) Outcome} {e : Option (Ev (S3 κ))} (τ : History (S3 κ)) :
    timed (stamp t (p.note e) ++ τ) = (e.map (Prod.mk t)).toList ++ timed τ := by
  unfold timed
  rw [List.filterMap_append]
  congr 1
  cases e with
  | some e => rfl
  | none =>
    cases p with
    | join w pd r d k => cases pd <;> cases r <;> rfl
    | _ => rfl

theorem mem_stamp {t : ℕ} {x : Option (Note (S3 κ))} {y : ℕ × Note (S3 κ)} (h : y ∈ stamp t x) :
    y.1 = t := by
  obtain ⟨n, -, rfl⟩ := List.mem_map.mp h
  rfl

/-- Only a stream that has completed writes an order. -/
theorem order_stamp {t u n : ℕ} {p p' : Prog (S3 κ) Outcome} {e : Option (Ev (S3 κ))} {js : List ℕ}
    (hs : Prog.Step t n p e p') (h : (u, Note.order js) ∈ stamp t (p.note e)) :
    ∃ (β : Type) (w : ℕ) (d : List (ℕ × β)) (k : List β → Prog (S3 κ) Outcome),
      p = .join w [] [] d k ∧ js = d.map Prod.fst := by
  obtain ⟨x, hx, heq⟩ := List.mem_map.mp h
  obtain rfl := (Prod.mk.inj heq).2
  have hnote := Option.mem_toList.mp hx
  cases e with
  | some e => cases hnote
  | none =>
    cases p with
    | join w pd r d k =>
      cases pd with
      | cons x pd => cases hnote
      | nil =>
        cases r with
        | cons x r => cases hnote
        | nil =>
          cases hnote
          exact ⟨_, w, d, k, rfl, rfl⟩
    | _ => cases hnote

section

variable [DecidableEq ι] {p₀ : Prog (S3 κ) Outcome} {i : ι} {s₀ s t : Sys κ ι}
  {l : List ((ι × Act κ) × Sys κ ι)} {τ : History (S3 κ)}

theorem Follows.silent (h : Follows p₀ i l s₀ s τ) {x : ι × Act κ}
    (hx : x.1 = i → x.2.event = none) (hr : (t.procs i).Reached p₀ τ)
    (htrace : (t.procs i).trace = (s.procs i).trace) (hc : (s.procs i).clock ≤ (t.procs i).clock) :
    Follows p₀ i ((x, t) :: l) s₀ t τ := by
  refine ⟨hr, htrace.trans h.trace, ?_, h.sorted, fun y hy => (h.past y hy).trans hc, ?_⟩
  · rw [h.timed]
    unfold stamps
    rw [List.filterMap_cons]
    by_cases hi : x.1 = i
    · dsimp only
      rw [if_pos hi, hx hi]
      rfl
    · dsimp only
      rw [if_neg hi]
  · intro u js hjs
    obtain ⟨m, hm, hc⟩ := h.orders u js hjs
    exact ⟨m, hm.cons, hc⟩

variable [DecidableEq κ]

/-- **A step of the call** that leaves the pools alone. -/
theorem Follows.act {a : Act κ} {q : Proc κ} (h : Follows p₀ i l s₀ s τ) (hv : Visits s₀ l s)
    (hs : Proc.Step (s.procs i) a q) :
    ∃ τ', Follows p₀ i (((i, a), { s with procs := Function.update s.procs i q }) :: l) s₀
      { s with procs := Function.update s.procs i q } τ' := by
  have hproc : (Function.update s.procs i q) i = q := Function.update_self _ _ _
  have hreached := h.reached
  have htrace := h.trace
  have hpast := h.past
  -- the steps that write nothing
  have hsilent : a.event = none → q.Reached p₀ τ → q.trace = (s.procs i).trace →
      (s.procs i).clock ≤ q.clock → ∃ τ', Follows p₀ i
        (((i, a), { s with procs := Function.update s.procs i q }) :: l) s₀
        { s with procs := Function.update s.procs i q } τ' := by
    intro ha hr ht hc
    refine ⟨τ, h.silent (fun _ => ha) ?_ ?_ ?_⟩
    · dsimp only
      rwa [hproc]
    · dsimp only
      rw [hproc, ht]
    · dsimp only
      rwa [hproc]
  generalize hq₀ : s.procs i = q₀ at *
  cases hs with
  | start t ht =>
    obtain ⟨rfl, rfl⟩ := hreached
    exact hsilent rfl .nil rfl ht
  | cancel hsus =>
    refine hsilent rfl ⟨_, hreached, ?_⟩ rfl le_rfl
    rename_i p _ _ _ _
    cases p with
    | acquiring _ _ _ _ => trivial
    | _ => exact hsus
  | dropFut => exact hsilent rfl hreached rfl le_rfl
  | pop hph => exact hsilent rfl hreached rfl le_rfl
  | dead t ht => exact hsilent rfl hreached rfl ht
  | ret t ht => exact hsilent rfl hreached rfl ht
  | @code p p' e ts ts' c n τ₀ t ht hstep hts =>
    refine ⟨stamp t (p.note e) ++ τ, ?_, ?_, ?_, ?_, ?_, ?_⟩
    · dsimp only
      rw [hproc]
      exact hreached.snoc ⟨t, n, e, hstep, rfl⟩
    · dsimp only
      rw [hproc, events_stamp, ← htrace]
    · rw [timed_stamp, h.timed]
      unfold stamps
      rw [List.filterMap_cons]
      dsimp only
      rw [if_pos rfl, hproc]
      cases e <;> rfl
    · rw [List.pairwise_append]
      refine ⟨?_, h.sorted, fun x hx y hy => ?_⟩
      · cases p.note e with
        | none => exact List.Pairwise.nil
        | some x => exact List.pairwise_singleton _ _
      · rw [mem_stamp hx]
        exact (hpast y hy).trans ht
    · intro x hx
      dsimp only
      rw [hproc]
      rcases List.mem_append.mp hx with hx | hx
      · exact (mem_stamp hx).le
      · exact (hpast x hx).trans ht
    · intro u js hjs
      rcases List.mem_append.mp hjs with hjs | hjs
      · obtain ⟨β, w, d, k, rfl, rfl⟩ := order_stamp hstep hjs
        exact ⟨s, hv.cons, by rw [hq₀]; rfl⟩
      · obtain ⟨m, hm, hc⟩ := h.orders u js hjs
        exact ⟨m, hm.cons, hc⟩

omit [DecidableEq κ] in
/-- **An operation of its ticket** changes what the call is doing only when it drops its future, and it
does so only where the call waits for permits. -/
theorem Proc.Reached.pool {home : κ × Half} {fits : Acquire → Prop} {wide : Acquire → ℕ → Prop}
    {q : Proc κ} {tk : Ticket κ} {ts : List (Ticket κ)} {x : PoolAct} {p p' : HalfPool ι} {ph : Phase}
    (h : q.Reached p₀ τ) (hd : Proc.Disciplined home fits wide q) (ht : q.tickets = tk :: ts)
    (hs : p.step i tk.amt tk.phase x = some (p', ph)) :
    ({ q with mode := q.mode.afterPool x, tickets := { tk with phase := ph } :: ts } : Proc κ).Reached
      p₀ τ := by
  by_cases hx : x = .cancel
  · subst hx
    cases hd with
    | fresh hp => cases ht
    | @live pr ts' c n τ g hg hp hm =>
      obtain rfl : ts' = tk :: ts := ht
      cases g with
      | free => cases hm
      | asking a =>
        obtain ⟨-, ⟨since, k, rfl⟩, -⟩ := hm
        exact ⟨_, h, trivial⟩
      | guarded a =>
        obtain ⟨-, ph', hts, hph, -⟩ := hm
        obtain ⟨rfl, rfl⟩ := List.cons.inj hts
        exact absurd rfl (HalfPool.step_guarding hs hph).2.1
    | unwinding m hf hph hm => exact h
    | unwound => cases ht
    | ended => cases ht
  · rw [Mode.afterPool_of_ne _ hx]
    exact h

end

/-- **Every call has a history, in every run.** -/
theorem follows_run [DecidableEq κ] [DecidableEq ι] {S : Setup κ ι} {s : Sys κ ι}
    {l : List ((ι × Act κ) × Sys κ ι)} (h : Run Sys.Step S.init l s) (i : ι) :
    ∃ τ, Follows ((S.op i).program (S.client i)) i l S.init s τ := by
  have h₀ : Follows ((S.op i).program (S.client i)) i [] S.init S.init [] :=
    ⟨⟨rfl, rfl⟩, rfl, rfl, List.Pairwise.nil, nofun, nofun⟩
  refine h.history (I := fun l s => ∃ τ, Follows ((S.op i).program (S.client i)) i l S.init s τ)
    ⟨[], h₀⟩ ?_
  rintro l s x t hr ⟨τ, hI⟩ hs
  cases hs with
  | @act j a q hq =>
    by_cases hi : i = j
    · subst hi
      exact hI.act hr.visits hq
    · have hp : Function.update s.procs j q i = s.procs i := Function.update_of_ne hi _ _
      refine ⟨τ, hI.silent (fun hj => absurd hj.symm hi) ?_ ?_ ?_⟩
      · dsimp only
        rw [hp]
        exact hI.reached
      · dsimp only
        rw [hp]
      · dsimp only
        rw [hp]
  | @pool j tk ts x p ph htk hx hp =>
    by_cases hi : i = j
    · subst hi
      refine ⟨τ, hI.silent (fun _ => rfl) ?_ ?_ ?_⟩
      · dsimp only
        rw [Function.update_self]
        exact hI.reached.pool (tidy_run hr i) htk hp
      · dsimp only
        rw [Function.update_self]
      · dsimp only
        rw [Function.update_self]
    · refine ⟨τ, hI.silent (fun hj => absurd hj.symm hi) ?_ ?_ ?_⟩
      · dsimp only
        rw [Function.update_of_ne hi]
        exact hI.reached
      · dsimp only
        rw [Function.update_of_ne hi]
      · dsimp only
        rw [Function.update_of_ne hi]

end S3o
