import S3o.System.Drain

/-!
# Every run ends

Calls may start, time out, be answered with errors and be dropped at any point. Each of these steps goes
down as well, so no schedule keeps the client busy for ever, and where nothing is left to do the pools
are as new.

* `Proc.Step.bag_down`, `Sys.Step.bag_down`: every step goes down, the drop of a future too;
* `Proc.counted`, `counted_sys`: `active` adds up to the guards that count in it;
* `ended_of_stuck`: where no step is possible every call has ended;
* **`every_run_ends`**.
-/

namespace S3o

open Async Lts Multiset

variable {κ ι : Type}

/-- **Every step of a call goes down.** -/
theorem Proc.Step.bag_down [DecidableEq κ] {q q' : Proc κ} {a : Act κ} {P : ℕ} (hs : Proc.Step q a q')
    (hP : q'.turn ≤ P) : IsDershowitzMannaLT (q'.bag P) (q.bag P) := by
  by_cases ha : a = .cancel
  · subst ha
    cases hs with
    | @cancel p ts c n τ hsus =>
      have hcard := hsus.card_bag P ticketCost
      refine add_right ?_ _
      show IsDershowitzMannaLT (replicate (p.inFlight + 1) 0) ({0} + p.bag P ticketCost)
      refine replicate_lt ?_
      rw [Multiset.card_add, Multiset.card_singleton]
      omega
  · exact hs.bag_lt ha hP

variable [DecidableEq κ] [DecidableEq ι] {S : Setup κ ι} {s t : Sys κ ι}
  {l : List ((ι × Act κ) × Sys κ ι)}

/-- **Every step of the system goes down**, in the call that takes it. -/
theorem Sys.Step.bag_down {P : ℕ} {i : ι} {a : Act κ} (h : Sys.Step s (i, a) t)
    (hP : (t.procs i).turn ≤ P) : t.procs = Function.update s.procs i (t.procs i) ∧
      IsDershowitzMannaLT ((t.procs i).bag P) ((s.procs i).bag P) := by
  cases h with
  | @act _ _ q hq =>
    dsimp only at hP ⊢
    rw [Function.update_self] at hP ⊢
    exact ⟨rfl, hq.bag_down hP⟩
  | @pool _ tk ts x p ph htk hx hp =>
    dsimp only
    rw [Function.update_self]
    refine ⟨rfl, ?_⟩
    have hrank : IsDershowitzMannaLT ({((ph.rank : ℕ) : Ordinal.{0})} + Ticket.bag ts)
        ({((tk.phase.rank : ℕ) : Ordinal.{0})} + Ticket.bag ts) := by
      refine add_right (trade fun y hy => ?_) _
      rw [Multiset.mem_singleton.mp hy]
      exact Nat.cast_lt.mpr (HalfPool.step_rank hp)
    -- a call that is dropped while it waits has nothing in progress
    have hmode : ∃ K, ((s.procs i).mode.afterPool x).bag P + K = (s.procs i).mode.bag P := by
      by_cases hc : x = .cancel
      · subst hc
        cases hm : (s.procs i).mode with
        | live p => exact ⟨_, rfl⟩
        | unwinding n =>
          rw [hm] at hx
          obtain rfl : n = 0 := by simpa [Mode.allows] using hx
          exact ⟨0, add_zero _⟩
        | fresh p =>
          rw [hm] at hx
          cases hx
        | ended r =>
          rw [hm] at hx
          cases hx
      · rw [Mode.afterPool_of_ne _ hc]
        exact ⟨0, add_zero _⟩
    obtain ⟨K, hK⟩ := hmode
    unfold Proc.bag
    dsimp only
    rw [htk, Ticket.bag_cons, Ticket.bag_cons, ← hK, add_right_comm]
    exact lt_add (add_left _ hrank) _

/-! ## The guards that count in `active` -/

/-- What a call has added to `active` of `h`. -/
def Proc.counted (h : κ × Half) (q : Proc κ) : ℕ := q.total Phase.counted h

theorem Phase.counted_apart (a : Acquire) (ph : Phase) (h : ph.apart = true) : ph.counted a = 0 := by
  cases ph <;> first | rfl | cases h

variable [Fintype ι]

/-- **`active` adds up to the guards that count in it.** -/
theorem counted_sys (h : Run Sys.Step S.init l s) (k : κ × Half) :
    (s.pools k).active = ∑ i, (s.procs i).counted k := by
  refine h.history (I := fun _ s => (s.pools k).active = ∑ i, (s.procs i).counted k) ?_ ?_
  · simp [Setup.init, HalfPool.new, Proc.counted, Proc.total]
  · intro l s x t hr hI hs
    cases hs with
    | @act i a q hq =>
      have hsum := sum_update (fun _ q => Proc.counted k q) s.procs i q
      have hcount : q.counted k = (s.procs i).counted k := hq.total Phase.counted_apart
      dsimp only at hsum ⊢
      omega
    | @pool i tk ts x p ph htk hx hp =>
      obtain rfl := (tidy_run hr i).single htk
      have hle := le_sum (fun _ q => Proc.counted k q) s.procs i
      have hold : (s.procs i).counted k = if tk.sem = k then tk.phase.counted tk.amt else 0 :=
        Proc.total_single htk
      generalize hq : ({ s.procs i with
        mode := (s.procs i).mode.afterPool x
        tickets := [{ tk with phase := ph }] } : Proc κ) = q
      have hts : q.tickets = [{ tk with phase := ph }] := by rw [← hq]
      have hnew : q.counted k = if tk.sem = k then ph.counted tk.amt else 0 := Proc.total_single hts
      have hsum := sum_update (fun _ q => Proc.counted k q) s.procs i q
      dsimp only at hsum hle ⊢
      by_cases hk : tk.sem = k
      · subst hk
        rw [if_pos rfl] at hold hnew
        have hstep := HalfPool.step_active hp (by omega)
        rw [Function.update_self]
        omega
      · rw [if_neg hk] at hold hnew
        rw [Function.update_of_ne (Ne.symm hk)]
        omega

/-! ## Where a run stops -/

omit [Fintype ι] in
theorem can_start (i : ι) (h : (s.procs i).started = false) : ∃ t, Sys.Step s (i, .start) t := by
  generalize hq : s.procs i = q at h
  obtain ⟨mode, ts, c, n, τ⟩ := q
  cases mode with
  | fresh p =>
    refine ⟨_, Sys.Step.act (q := ⟨.live p, ts, c, n, τ⟩) ?_⟩
    rw [hq]
    exact .start c le_rfl
  | _ => cases h

/-- **Where no step is possible every call has ended.** -/
theorem ended_of_stuck (hS : S.Narrow) (hr : Run Sys.Step S.init l s) (hno : ∀ x t, ¬ Sys.Step s x t)
    (i : ι) : (s.procs i).hasEnded = true := by
  have hstarted : (s.procs i).started = true := by
    by_contra hi
    obtain ⟨t, hs⟩ := can_start i (by simpa using hi)
    exact hno _ t hs
  by_contra he
  have hactive : (s.procs i).active = true := by
    unfold Proc.active
    rw [hstarted]
    simpa using he
  obtain ⟨x, t, hs⟩ := progress hS hr ⟨i, hactive⟩
  exact hno x t hs.1

/-- **Every run ends, whatever fails.** Calls start, wait, time out, are answered with any errors and are
dropped at any point, in any order. No such run goes on for ever, when the listings have finitely many
pages. Where it stops every call has ended, and in both halves of every client all permits are available,
nobody waits, and `active` is zero. -/
theorem every_run_ends (S : Setup κ ι) (hS : S.Narrow) :
    (∀ f : ℕ → Sys κ ι, (∀ i, ∃ P, ∀ n, ((f n).procs i).turn ≤ P) →
      ¬ ∀ n, ∃ x, Sys.Step (f n) x (f (n + 1))) ∧
    ∀ l s, Run Sys.Step S.init l s → (∀ x t, ¬ Sys.Step s x t) →
      (∀ i, (s.procs i).hasEnded = true) ∧
      ∀ h, (s.pools h).available = S.capacity h ∧ (s.pools h).active = 0 ∧ (s.pools h).queue = [] := by
  constructor
  · intro f hpages hf
    choose P hP using hpages
    have hbound : ∀ n i, ((f n).procs i).turn ≤ ∑ j, P j :=
      fun n i => (hP i n).trans (Finset.single_le_sum (fun j _ => Nat.zero_le (P j)) (Finset.mem_univ i))
    refine no_descent (Sys.bag (∑ j, P j)) (r := fun s t => (∃ x, Sys.Step s x t) ∧
      ∀ i, (t.procs i).turn ≤ ∑ j, P j) ?_ f fun n => ⟨hf n, hbound (n + 1)⟩
    rintro s t ⟨⟨⟨i, a⟩, hs⟩, ht⟩
    obtain ⟨hupd, hlt⟩ := hs.bag_down (ht i)
    exact Sys.bag_update hupd hlt
  · intro l s hr hno
    have hended := ended_of_stuck hS hr hno
    have hidle : ∀ i, (s.procs i).active = false := by
      intro i
      unfold Proc.active
      rw [hended i]
      simp
    have htickets : ∀ i, (s.procs i).tickets = [] := fun i => (tidy_run hr i).idle (hidle i)
    refine ⟨hended, fun h => ⟨(full_of_idle hr hidle h).2, ?_, (full_of_idle hr hidle h).1⟩⟩
    rw [counted_sys hr h]
    exact Finset.sum_eq_zero fun i _ => Proc.total_nil (htickets i)

omit [Fintype ι] in
theorem stuck_of_ended (h : ∀ i, (s.procs i).hasEnded = true) (x : ι × Act κ) (t : Sys κ ι) :
    ¬ Sys.Step s x t := by
  rintro hs
  obtain ⟨r, hm⟩ := Proc.hasEnded_iff.mp (h x.1)
  cases hs with
  | @act i a q hq =>
    dsimp only at hm
    generalize s.procs i = q₀ at hq hm
    cases hq <;> cases hm
  | pool htk hx hp =>
    dsimp only at hm
    rw [hm] at hx
    cases hx

/-- Of three uploads on two connections the one that waits is dropped, and the others return. -/
def lateScript : List (Fin 3 × Cmd) :=
  burstScript ++ (2, .pool .cancel) :: List.replicate 2 (2, .go) ++ List.replicate 23 (0, .go) ++
    List.replicate 23 (1, .go)

theorem every_run_ends_late : ∃ l s, Run Sys.Step burstSetup.init l s ∧
    (∀ i, (s.procs i).hasEnded = true) ∧
    ∀ h, (s.pools h).available = burstSetup.capacity h ∧ (s.pools h).active = 0 ∧
      (s.pools h).queue = [] := by
  obtain ⟨l, s, hr, hrun⟩ := burstSetup.observe (sampleAnswer []) lateScript
    (fun s => ((s.procs 0).hasEnded, (s.procs 1).hasEnded, (s.procs 2).hasEnded))
    (v := (true, true, true)) rfl
  obtain ⟨h₀, hrun⟩ := Prod.mk.inj hrun
  obtain ⟨h₁, h₂⟩ := Prod.mk.inj hrun
  have hended : ∀ i, (s.procs i).hasEnded = true := by
    intro i
    match i with
    | 0 => exact h₀
    | 1 => exact h₁
    | 2 => exact h₂
  exact ⟨l, s, hr, (every_run_ends burstSetup (small_narrow _)).2 l s hr (stuck_of_ended hended)⟩

end S3o
