import S3o.Pool.Conserve
import S3o.System.Permits

/-!
# Guards follow the program

In every run a call has at most one guard, of its own half; it has the permits while futures are in
progress under it, and it waits for permits only while it has none.

* `Matches`, `Proc.Disciplined`: how the ticket of a call follows its program;
* **`disciplined_run`**: every call keeps it, in every run;
* `Proc.Step.total`, **`accounts_sys`**: the permits of each half add up.
-/

namespace S3o

open Async Lts

variable {κ ι : Type}

/-- The phases of an acquisition in progress. -/
def Phase.acquiring : Phase → Bool
  | .idle | .entered | .loaded _ | .reported | .waiting | .granted | .resumed _ | .leaving _ _
  | .left _ | .activated _ | .holding | .timedOut => true
  | _ => false

/-- The phases of a guard, from the acquisition to the end of its `Drop`. -/
def Phase.guarding : Phase → Bool
  | .holding | .dropped _ | .releasing | .released => true
  | _ => false

section

variable [DecidableEq ι] {p p' : HalfPool ι} {i : ι} {a : Acquire} {ph ph' : Phase} {x : PoolAct}

theorem HalfPool.step_acquiring (h : p.step i a ph x = some (p', ph')) (hp : ph.acquiring = true)
    (hd : x ≠ .drop) : if x = .cancel then ph' = .cancelled else ph'.acquiring = true := by
  cases HalfPool.step_moves h with
  | drop => exact absurd rfl hd
  | conclude => cases hp
  | release => cases hp
  | _ => rfl

theorem HalfPool.step_guarding (h : p.step i a ph x = some (p', ph')) (hp : ph.guarding = true) :
    (ph = .holding → x = .drop) ∧ x ≠ .cancel ∧ ph'.guarding = true := by
  cases HalfPool.step_moves h with
  | drop => exact ⟨fun _ => rfl, by simp, rfl⟩
  | conclude => exact ⟨by simp, by simp, rfl⟩
  | release => exact ⟨by simp, by simp, rfl⟩
  | expire hph => rcases hph with rfl | rfl <;> cases hp
  | cancel hph => rcases hph with rfl | rfl <;> cases hp
  | _ => cases hp

end

/-! ## One call -/

section

variable [DecidableEq κ] {home : κ × Half} {fits : Acquire → Prop} {wide : Acquire → ℕ → Prop}

/-- The ticket of a live call, by its stage. -/
def Matches (home : κ × Half) (fits : Acquire → Prop) (g : Stage) (p : Prog (S3 κ) Outcome)
    (ts : List (Ticket κ)) : Prop :=
  match g with
  | .free => ts = []
  | .asking a => fits a ∧ (∃ since k, p = .acquiring home a since k) ∧
      ∃ ph, ts = [⟨home, a, ph⟩] ∧ ph.acquiring = true
  | .guarded a => fits a ∧
      ∃ ph, ts = [⟨home, a, ph⟩] ∧ ph.guarding = true ∧ (ph = .holding ∨ AtRelease p = true)

variable (home fits wide) in
/-- **How the guard of a call follows its program.** -/
inductive Proc.Disciplined : Proc κ → Prop
  | fresh {p c n} : p.Safe (permits home fits wide) (fun g _ => g = .free) .free →
      Disciplined ⟨.fresh p, [], c, n, []⟩
  | live {p ts c n τ} (g : Stage) : g = (permits home fits wide).exec .free τ →
      p.Safe (permits home fits wide) (fun g _ => g = .free) g → Matches home fits g p ts →
      Disciplined ⟨.live p, ts, c, n, τ⟩
  | unwinding {a ph c n τ} (m : ℕ) : fits a → ph.guarding = true ∨ ph = .cancelled →
      (m ≠ 0 → ph = .holding ∧ ∃ w, m ≤ w ∧ wide a w) →
      Disciplined ⟨.unwinding m, [⟨home, a, ph⟩], c, n, τ⟩
  | unwound {c n τ} : Disciplined ⟨.unwinding 0, [], c, n, τ⟩
  | ended {r c n τ} : Disciplined ⟨.ended r, [], c, n, τ⟩

omit [DecidableEq κ] in
theorem Proc.Disciplined.ticket {q : Proc κ} (hd : Proc.Disciplined home fits wide q) :
    ∀ tk ∈ q.tickets, tk.sem = home ∧ fits tk.amt := by
  cases hd with
  | @live p ts c n τ g hg hp hm =>
    cases g with
    | free =>
      obtain rfl : ts = [] := hm
      simp
    | asking a =>
      obtain ⟨hf, -, ph, rfl, -⟩ := hm
      simpa using hf
    | guarded a =>
      obtain ⟨hf, ph, rfl, -⟩ := hm
      simpa using hf
  | unwinding m hf => simpa using hf
  | _ => simp

omit [DecidableEq κ] in
theorem Proc.Disciplined.idle {q : Proc κ} (h : Proc.Disciplined home fits wide q) (hq : q.active = false) :
    q.tickets = [] := by
  cases h with
  | fresh hp => rfl
  | ended => rfl
  | live => cases hq
  | unwinding => cases hq
  | unwound => cases hq

omit [DecidableEq κ] in
theorem Proc.Disciplined.single {q : Proc κ} {tk : Ticket κ} {ts : List (Ticket κ)}
    (h : Proc.Disciplined home fits wide q) (ht : q.tickets = tk :: ts) : ts = [] := by
  cases h with
  | fresh hp => cases ht
  | ended => cases ht
  | unwound => cases ht
  | unwinding => exact (List.cons.inj ht).2.symm
  | live g hg hp hm =>
    cases g with
    | free =>
      obtain rfl := hm
      cases ht
    | asking a =>
      obtain ⟨-, -, ph, rfl, -⟩ := hm
      exact (List.cons.inj ht).2.symm
    | guarded a =>
      obtain ⟨-, ph, rfl, -⟩ := hm
      exact (List.cons.inj ht).2.symm

omit [DecidableEq κ] in
/-- While it waits for permits a program does nothing else, and where a scope ends it releases. -/
theorem step_acquiring_release {t n : ℕ} {p p' : Prog (S3 κ) Outcome} {e : Option (Ev (S3 κ))}
    (hs : Prog.Step t n p e p') :
    (∀ h a since k, p = .acquiring h a since k →
      e = some (.got h a (t - since)) ∨ e = some (.lost h a)) ∧
    (AtRelease p = true → e = some .freed) := by
  constructor
  · rintro h a since k rfl
    cases hs with
    | got => exact Or.inl rfl
    | lost => exact Or.inr rfl
  · intro hr
    cases hs with
    | freed => rfl
    | _ => cases hr

theorem matches_code {g : Stage} {t n : ℕ} {p p' : Prog (S3 κ) Outcome} {e : Option (Ev (S3 κ))}
    {ts ts' : List (Ticket κ)} (hm : Matches home fits g p ts) (hs : Prog.Step t n p e p')
    (hok : ∀ x ∈ e, Stage.ok home fits g x) (ht : Ticket.after e ts = some ts') :
    Matches home fits ((permits home fits wide).after g e) p' ts' := by
  obtain ⟨hacq, hrel⟩ := step_acquiring_release hs
  -- an event without a ticket: the stage and the tickets stay, and the program was not acquiring
  have hlocal : (permits home fits wide).after g e = g → Ticket.after e ts = some ts →
      (∀ h a d, e ≠ some (.got h a d)) → (∀ h a, e ≠ some (.lost h a)) → e ≠ some .freed →
      Matches home fits ((permits home fits wide).after g e) p' ts' := by
    intro hg hts hgot hlost hfreed
    rw [hg]
    obtain rfl := Option.some.inj (hts.symm.trans ht)
    cases g with
    | free => exact hm
    | asking a =>
      obtain ⟨-, ⟨since, k, rfl⟩, -⟩ := hm
      rcases hacq _ _ _ _ rfl with h | h
      · exact absurd h (hgot _ _ _)
      · exact absurd h (hlost _ _)
    | guarded a =>
      obtain ⟨hf, ph, hts, hph, h | h⟩ := hm
      · exact ⟨hf, ph, hts, hph, Or.inl h⟩
      · exact absurd (hrel h) hfreed
  match e with
  | none => exact hlocal rfl rfl nofun nofun nofun
  | some (.emit m) => exact hlocal (by cases g <;> rfl) rfl nofun nofun nofun
  | some (.sent m q) => exact hlocal (by cases g <;> rfl) rfl nofun nofun nofun
  | some (.answered m q r) => exact hlocal (by cases g <;> rfl) rfl nofun nofun nofun
  | some (.want h a) =>
    obtain ⟨rfl, rfl, hf⟩ := hok _ rfl
    obtain rfl : ts = [] := hm
    obtain rfl := Option.some.inj ht
    cases hs with
    | want => exact ⟨hf, ⟨_, _, rfl⟩, .idle, rfl, rfl⟩
    | run h => cases h
    | loop h => cases h
    | join h => cases h
  | some (.got h a d) =>
    obtain ⟨rfl, rfl⟩ := hok _ rfl
    obtain ⟨hf, -, ph, rfl, -⟩ := hm
    cases ph with
    | holding =>
      rw [Ticket.after, if_pos ⟨rfl, rfl⟩] at ht
      obtain rfl := Option.some.inj ht
      exact ⟨hf, .holding, rfl, rfl, Or.inl rfl⟩
    | _ => cases ht
  | some (.lost h a) =>
    obtain ⟨rfl, rfl⟩ := hok _ rfl
    obtain ⟨hf, -, ph, rfl, -⟩ := hm
    cases ph with
    | timedOut =>
      rw [Ticket.after, if_pos ⟨rfl, rfl⟩] at ht
      exact (Option.some.inj ht).symm
    | _ => cases ht
  | some .freed =>
    obtain ⟨a, rfl⟩ := hok _ rfl
    obtain ⟨hf, ph, rfl, -⟩ := hm
    cases ph with
    | released => exact (Option.some.inj ht).symm
    | _ => cases ht

/-- **A step of a call keeps the discipline.** -/
theorem Proc.Disciplined.step {q q' : Proc κ} {x : Act κ} (h : Proc.Disciplined home fits wide q)
    (hs : Proc.Step q x q') : Proc.Disciplined home fits wide q' := by
  cases hs with
  | start t ht =>
    cases h with
    | fresh hp => exact .live .free rfl hp rfl
  | code t ht hstep hts =>
    cases h with
    | live g hg hp hm =>
      obtain ⟨hok, hp'⟩ := hp.step hstep
      refine .live _ ?_ hp' (matches_code hm hstep hok hts)
      rw [Monitor.exec_toList, hg]
  | @cancel p ts c n τ hsus =>
    cases h with
    | live g hg hp hm =>
      have hne : p.inFlight ≠ 0 := by
        cases p with
        | run f k => exact Nat.one_ne_zero
        | loop body i f k => exact Nat.one_ne_zero
        | join w pd r d k => exact fun h0 => hsus.1 (List.length_eq_zero_iff.mp h0)
        | _ => exact hsus.elim
      obtain ⟨w, hle, a, rfl, hw⟩ := hp.width hne
      obtain ⟨hf, ph, rfl, hph, h | h⟩ := hm
      · exact .unwinding _ hf (Or.inl hph) fun _ => ⟨h, w, hle, hw⟩
      · cases p with
        | release k => exact hsus.elim
        | _ => cases h
  | @dropFut m ts c n τ =>
    cases h with
    | unwinding m hf hph hm =>
      refine .unwinding _ hf hph fun _ => ?_
      obtain ⟨h, w, hle, hw⟩ := hm (Nat.succ_ne_zero _)
      exact ⟨h, w, by omega, hw⟩
  | pop hph =>
    cases h with
    | unwinding m hf hph' hm => exact .unwound
  | dead t ht => exact .ended
  | ret t ht => exact .ended

omit [DecidableEq κ] in
/-- **An operation of its ticket keeps the discipline** of a call. -/
theorem Proc.Disciplined.pool [DecidableEq ι] {q : Proc κ} {tk : Ticket κ} {ts : List (Ticket κ)}
    {x : PoolAct} {i : ι} {p p' : HalfPool ι} {ph : Phase} (h : Proc.Disciplined home fits wide q)
    (ht : q.tickets = tk :: ts) (hx : q.mode.allows x = true)
    (hs : p.step i tk.amt tk.phase x = some (p', ph)) :
    Proc.Disciplined home fits wide
      { q with mode := q.mode.afterPool x, tickets := { tk with phase := ph } :: ts } := by
  cases h with
  | fresh hp => cases ht
  | unwound => cases ht
  | ended => cases ht
  | @live pr ts' c n τ g hg hp hm =>
    obtain rfl : ts' = tk :: ts := ht
    have hdrop : x = .drop → AtRelease pr = true := by
      rintro rfl
      simpa [Mode.allows] using hx
    cases g with
    | free => cases hm
    | asking a =>
      obtain ⟨hf, ⟨since, k, rfl⟩, ph', hts, hph⟩ := hm
      obtain ⟨rfl, rfl⟩ := List.cons.inj hts
      have hnd : x ≠ .drop := fun hx => absurd (hdrop hx) (by simp [AtRelease])
      have hstep := HalfPool.step_acquiring hs hph hnd
      unfold Mode.afterPool
      split_ifs at hstep ⊢ with hc
      · exact .unwinding 0 hf (Or.inr hstep) (absurd rfl)
      · exact .live _ hg hp ⟨hf, ⟨since, k, rfl⟩, ph, rfl, hstep⟩
    | guarded a =>
      obtain ⟨hf, ph', hts, hph, hrel⟩ := hm
      obtain ⟨rfl, rfl⟩ := List.cons.inj hts
      obtain ⟨hd, hc, hph'⟩ := HalfPool.step_guarding hs hph
      rw [Mode.afterPool_of_ne _ hc]
      refine .live _ hg hp ⟨hf, ph, rfl, hph', Or.inr ?_⟩
      rcases hrel with h | h
      · exact hdrop (hd h)
      · exact h
  | @unwinding a ph' c n τ m hf hph hm =>
    obtain ⟨rfl, rfl⟩ := List.cons.inj ht
    obtain rfl : m = 0 := by simpa [Mode.allows] using hx
    rcases hph with hph | rfl
    · obtain ⟨-, hc, hph'⟩ := HalfPool.step_guarding hs hph
      rw [Mode.afterPool_of_ne _ hc]
      exact .unwinding 0 hf (Or.inl hph') (absurd rfl)
    · simp [HalfPool.step] at hs

end

/-! ## Every run -/

variable [DecidableEq κ] [DecidableEq ι] {S : Setup κ ι} {s t : Sys κ ι}
  {l : List ((ι × Act κ) × Sys κ ι)}

/-- The half pool a call uses. -/
def Setup.home (S : Setup κ ι) (i : ι) : κ × Half := (S.owner i, (S.op i).half)

/-- **Every call keeps the discipline, in every run.** -/
theorem disciplined_run {fits : κ × Half → Acquire → Prop} {wide : Acquire → ℕ → Prop}
    (hroom : ∀ i, Room (S.client i) (S.op i).half (fits (S.home i)) wide)
    (h : Run Sys.Step S.init l s) (i : ι) :
    Proc.Disciplined (S.home i) (fits (S.home i)) wide (s.procs i) := by
  revert i
  refine h.invariant (I := fun s => ∀ i, Proc.Disciplined (S.home i) (fits (S.home i)) wide (s.procs i))
    ?_ ?_
  · exact fun i => .fresh (op_permits (S.op i) (hroom i))
  intro s x t hI hs i
  cases hs with
  | @act j a q hq =>
    by_cases hi : i = j
    · subst hi
      simpa using (hI i).step hq
    · simpa [Function.update_of_ne hi] using hI i
  | @pool j tk ts x p ph htk hx hp =>
    by_cases hi : i = j
    · subst hi
      simpa using (hI i).pool htk hx hp
    · simpa [Function.update_of_ne hi] using hI i

/-- The discipline without a bound on the amounts. -/
theorem tidy_run (h : Run Sys.Step S.init l s) (i : ι) :
    Proc.Disciplined (S.home i) (fun _ => True) (fun _ _ => True) (s.procs i) :=
  @disciplined_run _ _ _ _ S s l (fun _ _ => True) _
    (fun _ => ⟨trivial, trivial, fun _ _ => trivial, trivial⟩) h i

/-! ## The permits of a half -/

/-- The phases before and after an acquisition and its guard. -/
def Phase.apart : Phase → Bool
  | .idle | .timedOut | .released | .cancelled => true
  | _ => false

theorem Phase.held_apart (a : Acquire) (ph : Phase) (h : ph.apart = true) : ph.held a = 0 := by
  cases ph <;> first | rfl | cases h

theorem Phase.asked_apart (a : Acquire) (ph : Phase) (h : ph.apart = true) : ph.asked a = 0 := by
  cases ph <;> first | rfl | cases h

section

variable {f : Acquire → Phase → ℕ} {q q' : Proc κ} {h : κ × Half}

omit [DecidableEq ι] in
theorem Ticket.after_total (hf : ∀ a ph, ph.apart = true → f a ph = 0) {e : Option (Ev (S3 κ))}
    {ts ts' : List (Ticket κ)} (ht : Ticket.after e ts = some ts') :
    (ts'.map fun tk => if tk.sem = h then f tk.amt tk.phase else 0).sum =
      (ts.map fun tk => if tk.sem = h then f tk.amt tk.phase else 0).sum := by
  rcases Ticket.after_cases ht with ⟨k, a, -, rfl⟩ | ⟨-, rfl | ⟨tk, rfl, hph⟩⟩
  · simp [hf a .idle rfl]
  · rfl
  · have hph : tk.phase.apart = true := by rcases hph with hph | hph <;> rw [hph] <;> rfl
    simp [hf tk.amt tk.phase hph]

/-- The steps of a call that leave the pools alone leave what its tickets add up to alone. -/
theorem Proc.Step.total (hf : ∀ a ph, ph.apart = true → f a ph = 0) {a : Act κ} (hs : Proc.Step q a q') :
    q'.total f h = q.total f h := by
  unfold Proc.total
  cases hs with
  | code t ht hstep hts => exact Ticket.after_total hf hts
  | @pop k a ph ts c n τ hph =>
    have hph : ph.apart = true := by rcases hph with rfl | rfl <;> rfl
    simp [hf a ph hph]
  | _ => rfl

theorem Proc.total_nil (ht : q.tickets = []) : q.total f h = 0 := by
  unfold Proc.total
  rw [ht]
  rfl

theorem Proc.total_single {tk : Ticket κ} (ht : q.tickets = [tk]) :
    q.total f h = if tk.sem = h then f tk.amt tk.phase else 0 := by
  unfold Proc.total
  rw [ht]
  exact Nat.add_zero _

end

/-- **The permits of each half add up.** -/
theorem accounts_sys [Fintype ι] (h : Run Sys.Step S.init l s) (k : κ × Half) :
    (s.pools k).Accounts (S.capacity k) (fun i => (s.procs i).held k) fun i => (s.procs i).wanted k := by
  refine h.history (I := fun _ s => (s.pools k).Accounts (S.capacity k)
    (fun i => (s.procs i).held k) fun i => (s.procs i).wanted k) ?_ ?_
  · refine ⟨Semaphore.fair_new _, ?_⟩
    simp [Setup.init, HalfPool.new, Proc.held, Proc.wanted, Proc.total, owed]
  · intro l s x t hr hI hs
    have hupd : ∀ (g : Proc κ → ℕ) (i : ι) (q : Proc κ), (fun j => g (Function.update s.procs i q j)) =
        Function.update (fun j => g (s.procs j)) i (g q) := by
      intro g i q
      funext j
      exact Function.apply_update (fun _ => g) s.procs i q j
    cases hs with
    | @act i a q hq =>
      dsimp only
      rw [hupd (Proc.held k), hupd (Proc.wanted k)]
      unfold Proc.held Proc.wanted at hI ⊢
      rw [hq.total Phase.held_apart, hq.total Phase.asked_apart, Function.update_eq_self,
        Function.update_eq_self]
      exact hI
    | @pool i tk ts x p ph htk hx hp =>
      obtain rfl := (tidy_run hr i).single htk
      dsimp only
      rw [hupd (Proc.held k), hupd (Proc.wanted k)]
      unfold Proc.held Proc.wanted at hI ⊢
      rw [Proc.total_single rfl, Proc.total_single rfl]
      dsimp only
      by_cases hk : tk.sem = k
      · subst hk
        rw [if_pos rfl, if_pos rfl, Function.update_self]
        exact hI.step hp ((Proc.total_single htk).trans (if_pos rfl))
          ((Proc.total_single htk).trans (if_pos rfl))
      · rw [if_neg hk, if_neg hk, Function.update_of_ne (Ne.symm hk)]
        have hzero : ∀ f : Acquire → Phase → ℕ, Function.update (fun j => (s.procs j).total f k) i 0 =
            fun j => (s.procs j).total f k := by
          intro f
          have hi : (s.procs i).total f k = 0 := (Proc.total_single htk).trans (if_neg hk)
          rw [← hi]
          exact Function.update_eq_self i fun j => (s.procs j).total f k
        rw [hzero, hzero]
        exact hI

end S3o
