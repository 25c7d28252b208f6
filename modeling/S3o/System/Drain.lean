import S3o.Async.Descent
import S3o.System.Progress

/-!
# The pools never deadlock

Calls that are left to themselves come to an end, and give back what they have.

* `Phase.rank`, `Proc.bag`, `Sys.bag_lt`: every steady step goes down;
* `steady_run`: what steady steps keep;
* **`pools_deadlock_free`**: some call can go on as long as one runs, every run of steady steps is
  finite, and where it stops every call has ended and both semaphores are full.
-/

namespace S3o

open Async Lts Multiset

variable {κ ι : Type}

/-- The operations that are left to a ticket. -/
def Phase.rank : Phase → ℕ
  | .idle => 16
  | .entered => 15
  | .loaded _ => 14
  | .reported => 13
  | .waiting => 12
  | .granted => 11
  | .resumed _ => 10
  | .leaving _ _ => 9
  | .left _ => 8
  | .activated _ => 7
  | .holding => 6
  | .dropped _ => 5
  | .releasing => 4
  | .released | .timedOut | .cancelled => 3

theorem HalfPool.step_rank [DecidableEq ι] {p p' : HalfPool ι} {i : ι} {a : Acquire} {ph ph' : Phase}
    {x : PoolAct} (h : p.step i a ph x = some (p', ph')) : ph'.rank < ph.rank := by
  cases HalfPool.step_moves h with
  | expire hph => rcases hph with rfl | rfl <;> simp [Phase.rank]
  | cancel hph => rcases hph with rfl | rfl <;> simp [Phase.rank]
  | _ => simp [Phase.rank]

/-! ## The bag of a call -/

/-- The turn of the loop that a call is in: the pages that a listing has read. -/
def Proc.turn (q : Proc κ) : ℕ :=
  match q.mode with
  | .live p => p.turn
  | _ => 0

/-- What a new ticket costs. -/
noncomputable def ticketCost : Ordinal.{0} := (Phase.rank .idle : ℕ)

noncomputable def Mode.bag (P : ℕ) : Mode κ → Multiset Ordinal.{0}
  | .fresh p => {0} + ({0} + p.bag P ticketCost)
  | .live p => {0} + p.bag P ticketCost
  | .ended _ => 0
  | .unwinding n => replicate (n + 1) 0

noncomputable def Ticket.bag (ts : List (Ticket κ)) : Multiset Ordinal.{0} :=
  (ts.map fun tk => ((tk.phase.rank : ℕ) : Ordinal.{0}) : List Ordinal.{0})

noncomputable def Proc.bag (P : ℕ) (q : Proc κ) : Multiset Ordinal.{0} :=
  q.mode.bag P + Ticket.bag q.tickets

theorem Ticket.bag_cons (tk : Ticket κ) (ts : List (Ticket κ)) :
    Ticket.bag (tk :: ts) = {((tk.phase.rank : ℕ) : Ordinal.{0})} + Ticket.bag ts := by
  unfold Ticket.bag
  rw [List.map_cons, ← Multiset.cons_coe, Multiset.singleton_add]

theorem Ticket.bag_after [DecidableEq κ] {e : Option (Ev (S3 κ))} {ts ts' : List (Ticket κ)}
    (h : Ticket.after e ts = some ts') : ∃ K, Ticket.bag ts' + K = cost ticketCost e + Ticket.bag ts := by
  have hcost : (∀ k a, e ≠ some (.want k a)) → cost ticketCost e = 0 := by
    intro hne
    unfold cost
    split
    · exact absurd rfl (hne _ _)
    · rfl
  rcases Ticket.after_cases h with ⟨k, a, rfl, rfl⟩ | ⟨hne, rfl | ⟨tk, rfl, -⟩⟩
  · exact ⟨0, by rw [add_zero, Ticket.bag_cons]; rfl⟩
  · exact ⟨0, by rw [add_zero, hcost hne, zero_add]⟩
  · exact ⟨_, by rw [Ticket.bag_cons, hcost hne, zero_add, add_comm]⟩

/-- **Every step of a call goes down**, unless its future is dropped. -/
theorem Proc.Step.bag_lt [DecidableEq κ] {q q' : Proc κ} {a : Act κ} {P : ℕ} (hs : Proc.Step q a q')
    (ha : a ≠ .cancel) (hP : q'.turn ≤ P) : IsDershowitzMannaLT (q'.bag P) (q.bag P) := by
  cases hs with
  | start t ht => exact add_right (discard _ _) _
  | cancel hp => exact absurd rfl ha
  | @code p p' e ts ts' c n τ t ht hstep hts =>
    have hlt : IsDershowitzMannaLT (p'.bag P ticketCost + cost ticketCost e) (p.bag P ticketCost) :=
      Prog.bag_lt hstep hP
    obtain ⟨K, hK⟩ := Ticket.bag_after hts
    unfold Proc.bag Mode.bag
    rw [add_assoc, add_assoc]
    refine add_left _ (lt_of_add (K := K) ?_)
    rw [add_assoc, hK, ← add_assoc]
    exact add_right hlt _
  | @dropFut m ts c n τ =>
    refine add_right ?_ _
    show IsDershowitzMannaLT (replicate (m + 1) 0) (replicate (m + 1 + 1) 0)
    rw [replicate_succ 0 (m + 1), ← singleton_add]
    exact discard _ _
  | @pop h a ph ts c n τ hph =>
    unfold Proc.bag
    rw [Ticket.bag_cons]
    exact add_left _ (discard _ _)
  | dead t ht => exact add_right (discard _ _) _
  | ret t ht => exact add_right (discard _ _) _

variable [DecidableEq κ] [DecidableEq ι] {S : Setup κ ι} {s t : Sys κ ι}
  {l : List ((ι × Act κ) × Sys κ ι)}

/-- Every step of the system is one of a call, which goes down unless its future is dropped. -/
theorem Sys.Step.bag_lt {P : ℕ} {i : ι} {a : Act κ} (h : Sys.Step s (i, a) t) (ha : a ≠ .cancel)
    (hc : a ≠ .pool .cancel) (hP : (t.procs i).turn ≤ P) :
    t.procs = Function.update s.procs i (t.procs i) ∧
      IsDershowitzMannaLT ((t.procs i).bag P) ((s.procs i).bag P) := by
  cases h with
  | @act _ _ q hq =>
    dsimp only at hP ⊢
    rw [Function.update_self] at hP ⊢
    exact ⟨rfl, hq.bag_lt ha hP⟩
  | @pool _ tk ts x p ph htk hx hp =>
    dsimp only
    rw [Function.update_self]
    refine ⟨rfl, ?_⟩
    have hx : x ≠ .cancel := by
      rintro rfl
      exact hc rfl
    unfold Proc.bag
    dsimp only
    rw [Mode.afterPool_of_ne _ hx, htk, Ticket.bag_cons, Ticket.bag_cons]
    refine add_left _ (add_right (trade fun y hy => ?_) _)
    rw [Multiset.mem_singleton.mp hy]
    exact Nat.cast_lt.mpr (HalfPool.step_rank hp)

variable [Fintype ι]

/-! ## The bag of the system -/

noncomputable def Sys.bag (P : ℕ) (s : Sys κ ι) : Multiset Ordinal.{0} := ∑ i, (s.procs i).bag P

omit [DecidableEq κ] in
theorem steady_ne_cancel {a : Act κ} (ha : a.steady = true) : a ≠ .cancel ∧ a ≠ .pool .cancel := by
  constructor
  · rintro rfl
    cases ha
  · rintro rfl
    cases ha

omit [DecidableEq κ] in
theorem Sys.bag_update {P : ℕ} {i : ι} (hupd : t.procs = Function.update s.procs i (t.procs i))
    (hlt : IsDershowitzMannaLT ((t.procs i).bag P) ((s.procs i).bag P)) :
    IsDershowitzMannaLT (t.bag P) (s.bag P) := by
  obtain ⟨r, h₁, h₂⟩ := sum_split (fun _ q => Proc.bag P q) s.procs i (t.procs i)
  unfold Sys.bag
  rw [hupd, h₁, h₂]
  exact add_right hlt r

/-- **Every steady step goes down.** -/
theorem Sys.bag_lt {P : ℕ} {x : ι × Act κ} (h : Sys.Steady s x t) (hP : ∀ i, (t.procs i).turn ≤ P) :
    IsDershowitzMannaLT (t.bag P) (s.bag P) := by
  obtain ⟨i, a⟩ := x
  obtain ⟨hs, ha⟩ := h
  obtain ⟨hupd, hlt⟩ := hs.bag_lt (steady_ne_cancel ha).1 (steady_ne_cancel ha).2 (hP i)
  exact Sys.bag_update hupd hlt

/-! ## Runs of steady steps -/

omit [Fintype ι] in
theorem Sys.Steady.started {x : ι × Act κ} (h : Sys.Steady s x t) (i : ι) :
    (t.procs i).started = (s.procs i).started := by
  obtain ⟨hs, ha⟩ := h
  cases hs with
  | @act j a q hq =>
    by_cases hi : i = j
    · subst hi
      show (Function.update s.procs i q i).started = _
      rw [Function.update_self]
      generalize s.procs i = q₀ at hq
      cases hq with
      | start => cases ha
      | _ => rfl
    · show (Function.update s.procs j q i).started = _
      rw [Function.update_of_ne hi]
  | @pool j tk ts x p ph htk hx hp =>
    by_cases hi : i = j
    · subst hi
      have hx : x ≠ .cancel := by
        rintro rfl
        cases ha
      dsimp only
      rw [Function.update_self, Mode.afterPool_of_ne _ hx]
      rfl
    · dsimp only
      rw [Function.update_of_ne hi]

omit [Fintype ι] in
/-- A run that goes on with steady steps is a run, and starts no call. -/
theorem steady_run {l' : List ((ι × Act κ) × Sys κ ι)} (hr : Run Sys.Step S.init l s)
    (h : Run Sys.Steady s l' t) :
    Run Sys.Step S.init (l' ++ l) t ∧ ∀ i, (t.procs i).started = (s.procs i).started := by
  induction h with
  | nil => exact ⟨hr, fun _ => rfl⟩
  | snoc _ hs ih => exact ⟨ih.1.snoc hs.1, fun i => (hs.started i).trans (ih.2 i)⟩

/-- When no call runs, both semaphores of every client are full, and nobody is in their lines. -/
theorem full_of_idle (hr : Run Sys.Step S.init l s) (hi : ∀ i, (s.procs i).active = false)
    (h : κ × Half) : (s.pools h).queue = [] ∧ (s.pools h).available = S.capacity h := by
  have hnil : ∀ (f : Acquire → Phase → ℕ) (i : ι), (s.procs i).total f h = 0 :=
    fun f i => Proc.total_nil ((tidy_run hr i).idle (hi i))
  have hasked : ∀ i, (s.procs i).wanted h = 0 := hnil Phase.asked
  refine (accounts_sys hr h).rest (hnil Phase.held) (fun i hpos => ?_) fun i => ?_
  · rw [hasked i] at hpos
    exact absurd hpos (Nat.lt_irrefl 0)
  · rw [hasked i]
    exact Nat.zero_le _

/-- **The pools never deadlock.** In every reachable state some call can go on as long as one runs. From
there no run of steady steps goes on for ever, when the listings have finitely many pages, and where
such a run stops every call has ended and both semaphores of every client are full. -/
theorem pools_deadlock_free (S : Setup κ ι) (hS : S.Narrow) {s : Sys κ ι}
    {l : List ((ι × Act κ) × Sys κ ι)} (hr : Run Sys.Step S.init l s) :
    ((∃ i, (s.procs i).active = true) → ∃ x t, Sys.Steady s x t) ∧
    (∀ f : ℕ → Sys κ ι, f 0 = s → (∀ i, ∃ P, ∀ n, ((f n).procs i).turn ≤ P) →
      ¬ ∀ n, ∃ x, Sys.Steady (f n) x (f (n + 1))) ∧
    ∀ l' t, Run Sys.Steady s l' t → (∀ x u, ¬ Sys.Steady t x u) →
      (∀ i, (s.procs i).started = true → (t.procs i).hasEnded = true) ∧
      ∀ h, (t.pools h).available = S.capacity h := by
  refine ⟨progress hS hr, ?_, ?_⟩
  · intro f _ hpages hf
    choose P hP using hpages
    have hbound : ∀ n i, ((f n).procs i).turn ≤ ∑ j, P j :=
      fun n i => (hP i n).trans (Finset.single_le_sum (fun j _ => Nat.zero_le (P j)) (Finset.mem_univ i))
    refine no_descent (Sys.bag (∑ j, P j)) (r := fun s t => (∃ x, Sys.Steady s x t) ∧
      ∀ i, (t.procs i).turn ≤ ∑ j, P j) ?_ f fun n => ⟨hf n, hbound (n + 1)⟩
    rintro s t ⟨⟨x, hs⟩, ht⟩
    exact Sys.bag_lt hs ht
  · intro l' t hr' hstop
    obtain ⟨hrun, hstart⟩ := steady_run hr hr'
    have hidle : ∀ i, (t.procs i).active = false := by
      intro i
      by_contra hi
      obtain ⟨x, u, hs⟩ := progress hS hrun ⟨i, by simpa using hi⟩
      exact hstop x u hs
    refine ⟨fun i hi => ?_, fun h => (full_of_idle hrun hidle h).2⟩
    have := hidle i
    unfold Proc.active at this
    rw [hstart i, hi] at this
    simpa using this

/-- Three uploads on one client of two write connections, and a script in which two of them get their
permits and the third waits. -/
def burstSetup : Setup Unit (Fin 3) := smallSetup fun _ => .put "key" ⟨[0], one_le_isizeMax⟩

def burstScript : List (Fin 3 × Cmd) :=
  List.replicate 17 (0, .go) ++ List.replicate 17 (1, .go) ++ List.replicate 9 (2, .go)

theorem pools_deadlock_free_burst : ∃ l s, Run Sys.Step burstSetup.init l s ∧
    (s.pools ((), .write)).available = 0 ∧ (s.procs 2).WaitsFor ((), .write) ∧
    ∃ x t, Sys.Steady s x t := by
  obtain ⟨l, s, hr, hrun⟩ := burstSetup.observe (sampleAnswer []) burstScript
    (fun s => ((s.pools ((), .write)).available, (s.procs 2).active, (s.procs 2).tickets))
    (v := (0, true, [⟨((), .write), .bulk 1, .waiting⟩])) rfl
  obtain ⟨hav, hrun⟩ := Prod.mk.inj hrun
  obtain ⟨hact, htk⟩ := Prod.mk.inj hrun
  refine ⟨l, s, hr, hav, ⟨_, htk ▸ List.mem_singleton_self _, rfl, rfl⟩, ?_⟩
  exact (pools_deadlock_free burstSetup (small_narrow _) hr).1 ⟨2, hact⟩

end S3o
