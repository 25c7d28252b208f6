import S3o.System.Budget

/-!
# Some call can always go on

A call waits for permits only while it has none, and asks for no more than its half has. So when every
running call waits, nobody has permits and the first of a line has all it asks for.

* `Act.steady`, `Sys.Steady`: steps other than a timeout, a drop or a new call;
* **`Proc.Disciplined.advance`**: what a call can do by itself;
* **`progress`**: some call can go on, as long as one runs.
-/

namespace S3o

open Async Lts Multiset

variable {κ ι : Type}

/-- Not a timeout, not a drop and not a new call. -/
def Act.steady : Act κ → Bool
  | .start | .pool .expire | .pool .cancel | .cancel => false
  | _ => true

/-! ## One call -/

section

variable [DecidableEq κ] {home : κ × Half} {fits : Acquire → Prop} {wide : Acquire → ℕ → Prop}
  {q q' : Proc κ}

/-- A call without a guard can do what its program does. -/
theorem after_free {e : Option (Ev (S3 κ))} (hok : ∀ x ∈ e, Stage.ok home fits .free x) :
    ∃ ts, Ticket.after e ([] : List (Ticket κ)) = some ts := by
  match e with
  | some (.got h a d) => cases (hok _ rfl).1
  | some (.lost h a) => cases (hok _ rfl).1
  | some .freed =>
    obtain ⟨a, ha⟩ := hok _ rfl
    cases ha
  | none => exact ⟨_, rfl⟩
  | some (.emit m) => exact ⟨_, rfl⟩
  | some (.want h a) => exact ⟨_, rfl⟩
  | some (.sent n r) => exact ⟨_, rfl⟩
  | some (.answered n r x) => exact ⟨_, rfl⟩

/-- So can a call with a guard, before the scope of the guard ends. -/
theorem after_guarded {t n : ℕ} {p p' : Prog (S3 κ) Outcome} {e : Option (Ev (S3 κ))} {a : Acquire}
    (hs : Prog.Step t n p e p') (hp : AtRelease p = false)
    (hok : ∀ x ∈ e, Stage.ok home fits (.guarded a) x) (ts : List (Ticket κ)) :
    ∃ ts', Ticket.after e ts = some ts' := by
  match e with
  | some (.got h a d) => cases (hok _ rfl).1
  | some (.lost h a) => cases (hok _ rfl).1
  | some (.want h a) => cases (hok _ rfl).1
  | some .freed =>
    cases hs with
    | freed => cases hp
    | run h => cases h
    | loop h => cases h
    | join h => cases h
  | none => exact ⟨_, rfl⟩
  | some (.emit m) => exact ⟨_, rfl⟩
  | some (.sent n r) => exact ⟨_, rfl⟩
  | some (.answered n r x) => exact ⟨_, rfl⟩

/-- **What a call can do by itself**: a step, or the next operation of its ticket. -/
theorem Proc.Disciplined.advance (h : Proc.Disciplined home fits wide q)
    (hw : ∀ a w, wide a w → 0 < w) (hq : q.active = true) :
    (∃ a q', Proc.Step q a q' ∧ a.steady = true) ∨
    ∃ tk x, q.tickets = [tk] ∧ tk.sem = home ∧ fits tk.amt ∧ q.mode.allows x = true ∧
      tk.phase.act = some x := by
  cases h with
  | fresh hp => cases hq
  | ended => cases hq
  | unwound => exact Or.inl ⟨_, _, .dead _ le_rfl, rfl⟩
  | @unwinding a ph c n τ m hf hph hm =>
    cases m with
    | succ m => exact Or.inl ⟨_, _, .dropFut, rfl⟩
    | zero =>
      rcases hph with hph | rfl
      · cases ph with
        | released => exact Or.inl ⟨_, _, .pop (Or.inl rfl), rfl⟩
        | holding => exact Or.inr ⟨_, .drop, rfl, rfl, hf, rfl, rfl⟩
        | dropped v => exact Or.inr ⟨_, .gauge, rfl, rfl, hf, rfl, rfl⟩
        | releasing => exact Or.inr ⟨_, .release, rfl, rfl, hf, rfl, rfl⟩
        | _ => cases hph
      · exact Or.inl ⟨_, _, .pop (Or.inr rfl), rfl⟩
  | @live p ts c n τ g hg hp hm =>
    have hwidth : ∀ w, (permits home fits wide).width g w → 0 < w := by
      rintro w ⟨a, -, hwa⟩
      exact hw a w hwa
    -- the code goes on, when the event it causes fits the tickets
    have hcode : (∀ r, p ≠ .ret r) →
        (∀ e p', Prog.Step c n p e p' → (∀ x ∈ e, Stage.ok home fits g x) →
          ∃ ts', Ticket.after e ts = some ts') →
        ∃ a q', Proc.Step ⟨.live p, ts, c, n, τ⟩ a q' ∧ a.steady = true := by
      intro hret hts
      obtain ⟨⟨e, p'⟩, hn⟩ := Option.isSome_iff_exists.mp
        (Prog.next_isSome (sampleAnswer []) c n true hp hwidth hret)
      have hs := Prog.next_step hn
      obtain ⟨ts', ht⟩ := hts e p' hs (hp.step hs).1
      exact ⟨_, _, .code c le_rfl hs ht, rfl⟩
    cases g with
    | free =>
      obtain rfl : ts = [] := hm
      by_cases hret : ∃ r, p = .ret r
      · obtain ⟨r, rfl⟩ := hret
        exact Or.inl ⟨_, _, .ret c le_rfl, rfl⟩
      · refine Or.inl (hcode (fun r hr => hret ⟨r, hr⟩) fun e p' _ hok => after_free hok)
    | asking a =>
      obtain ⟨hf, ⟨since, k, rfl⟩, ph, rfl, hph⟩ := hm
      cases ph with
      | holding => exact Or.inl ⟨_, _, .code c le_rfl .got (by rw [Ticket.after, if_pos ⟨rfl, rfl⟩]), rfl⟩
      | timedOut =>
        exact Or.inl ⟨_, _, .code c le_rfl .lost (by rw [Ticket.after, if_pos ⟨rfl, rfl⟩]), rfl⟩
      | left ok =>
        cases ok with
        | true => exact Or.inr ⟨_, _, rfl, rfl, hf, rfl, rfl⟩
        | false => exact Or.inr ⟨_, _, rfl, rfl, hf, rfl, rfl⟩
      | dropped v => cases hph
      | releasing => cases hph
      | released => cases hph
      | cancelled => cases hph
      | _ => exact Or.inr ⟨_, _, rfl, rfl, hf, rfl, rfl⟩
    | guarded a =>
      obtain ⟨hf, ph, rfl, hph, hrel⟩ := hm
      cases hr : AtRelease p with
      | true =>
        have hallow : ∀ x, (Mode.live p).allows x = true := by
          intro x
          simp [Mode.allows, hr]
        cases ph with
        | released =>
          cases p with
          | release k => exact Or.inl ⟨_, _, .code c le_rfl .freed rfl, rfl⟩
          | _ => cases hr
        | holding => exact Or.inr ⟨_, .drop, rfl, rfl, hf, hallow _, rfl⟩
        | dropped v => exact Or.inr ⟨_, .gauge, rfl, rfl, hf, hallow _, rfl⟩
        | releasing => exact Or.inr ⟨_, .release, rfl, rfl, hf, hallow _, rfl⟩
        | _ => cases hph
      | false =>
        refine Or.inl (hcode ?_ fun e p' hs hok => after_guarded hs hr hok _)
        rintro r rfl
        cases hp

end

/-! ## The queues -/

section

variable [DecidableEq ι] {p p' : HalfPool ι} {i : ι} {a : Acquire} {ph ph' : Phase} {x : PoolAct}

/-- Everything but a grant can happen at once. -/
theorem HalfPool.step_act (p : HalfPool ι) (i : ι) (a : Acquire) (h : ph.act = some x)
    (hx : x ≠ .grant) : ∃ r, p.step i a ph x = some r := by
  cases ph with
  | left ok => cases ok <;> cases h <;> exact ⟨_, rfl⟩
  | waiting =>
    cases h
    exact absurd rfl hx
  | _ => cases h <;> exact ⟨_, rfl⟩

end

/-- The call waits for permits of `h`. -/
def Proc.WaitsFor (h : κ × Half) (q : Proc κ) : Prop :=
  ∃ tk ∈ q.tickets, tk.sem = h ∧ tk.phase = .waiting

variable [DecidableEq κ] [DecidableEq ι] {S : Setup κ ι} {s t : Sys κ ι}
  {l : List ((ι × Act κ) × Sys κ ι)}

/-! ## Some call can go on -/

/-- **A step that is neither a timeout, nor a drop, nor a new call.** -/
def Sys.Steady (s : Sys κ ι) (x : ι × Act κ) (t : Sys κ ι) : Prop :=
  Sys.Step s x t ∧ x.2.steady = true

omit [DecidableEq κ] in
theorem act_steady {ph : Phase} {x : PoolAct} (h : ph.act = some x) :
    (Act.pool x : Act κ).steady = true := by
  obtain ⟨he, hc⟩ := Phase.act_calm h
  cases x <;> first | rfl | exact absurd rfl he | exact absurd rfl hc

/-- When no other step is possible, every running call waits for permits that its half can grant. -/
theorem all_wait (hS : S.Narrow) (hr : Run Sys.Step S.init l s) (hno : ∀ x t, ¬ Sys.Steady s x t)
    (i : ι) (hi : (s.procs i).active = true) :
    ∃ a, (s.procs i).tickets = [⟨S.home i, a, .waiting⟩] ∧ S.fits (S.home i) a ∧
      (s.procs i).mode.allows .grant = true := by
  rcases (disciplined_run (room_narrow hS) hr i).advance (fun a w hw => hw.1) hi with
    ⟨a, q', hs, ha⟩ | ⟨tk, x, htk, hsem, hf, hx, hact⟩
  · exact absurd ⟨.act hs, ha⟩ (hno (i, a) _)
  · by_cases hg : x = .grant
    · subst hg
      obtain ⟨sem, a, ph⟩ := tk
      obtain rfl : sem = S.home i := hsem
      have hph : ph = .waiting := by
        cases ph with
        | waiting => rfl
        | left ok => cases ok <;> cases hact
        | _ => cases hact
      subst hph
      exact ⟨a, htk, hf, hx⟩
    · obtain ⟨⟨p, ph⟩, hp⟩ := HalfPool.step_act (s.pools tk.sem) i tk.amt hact hg
      exact absurd ⟨.pool htk hx hp, act_steady hact⟩ (hno (i, .pool x) _)

/-- **Some call can always go on.** -/
theorem progress [Fintype ι] (hS : S.Narrow) (hr : Run Sys.Step S.init l s)
    (hi : ∃ i, (s.procs i).active = true) : ∃ x t, Sys.Steady s x t := by
  by_contra hstuck
  have hno : ∀ x t, ¬ Sys.Steady s x t := fun x t h => hstuck ⟨x, t, h⟩
  obtain ⟨i, hi⟩ := hi
  have hall := all_wait hS hr hno
  have hidle : ∀ j, (s.procs j).active ≠ true → (s.procs j).tickets = [] :=
    fun j hj => (tidy_run hr j).idle (eq_false_of_ne_true hj)
  -- a call that runs lacks permits, or it could go on
  have hlacks : ∀ j, (s.procs j).active = true → (s.pools (S.home j)).lacking j ≠ 0 := by
    intro j hj h₀
    obtain ⟨a, htk, -, hx⟩ := hall j hj
    exact hno (j, .pool .grant) _ ⟨.pool htk hx (if_pos h₀), rfl⟩
  -- so nobody has permits
  have hheld : ∀ j, (s.procs j).held (S.home i) = 0 := by
    intro j
    by_cases hj : (s.procs j).active = true
    · obtain ⟨a, htk, -⟩ := hall j hj
      refine (Proc.total_single htk).trans ?_
      split_ifs <;> rfl
    · exact Proc.total_nil (hidle j hj)
  have hasked : ∀ j, (s.procs j).wanted (S.home i) ≤ S.capacity (S.home i) ∧
      (0 < (s.procs j).wanted (S.home i) → 0 < (s.pools (S.home i)).lacking j) := by
    intro j
    by_cases hj : (s.procs j).active = true
    · obtain ⟨a, htk, hf, -⟩ := hall j hj
      have htotal : (s.procs j).wanted (S.home i) = if S.home j = S.home i then a.permits else 0 :=
        Proc.total_single htk
      rw [htotal]
      split_ifs with hhome
      · rw [← hhome]
        exact ⟨hf.1.trans_le hf.2.2, fun _ => Nat.pos_of_ne_zero (hlacks j hj)⟩
      · exact ⟨Nat.zero_le _, fun h => absurd h (Nat.lt_irrefl 0)⟩
    · have htotal : (s.procs j).wanted (S.home i) = 0 := Proc.total_nil (hidle j hj)
      rw [htotal]
      exact ⟨Nat.zero_le _, fun h => absurd h (Nat.lt_irrefl 0)⟩
  -- and the line is empty
  have hempty := ((accounts_sys hr (S.home i)).rest hheld (fun j => (hasked j).2) fun j => (hasked j).1).1
  refine hlacks i hi ?_
  unfold Semaphore.lacking
  rw [hempty]
  rfl

end S3o
