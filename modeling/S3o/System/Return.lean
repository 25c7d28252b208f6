import S3o.System.Drain

/-!
# Calls that return

A call without loops comes to rest, and it rests only where it waits for permits or has ended. When its
acquisitions are granted and its requests are answered it sees no error.

* `Proc.Granted`: a call whose acquisitions are granted;
* `Act.good`, `Proc.Smooth`: one that is also answered, and what happens to it;
* **`comes_to_rest`**: a call without loops takes finitely many steps;
* **`goes_on`**: a call can go on as long as it does not wait for permits.
-/

namespace S3o

open Async Lts

variable {κ ι : Type}

/-- **Not a drop, not a timeout and not an error.** -/
def Act.good : Act κ → Bool
  | .cancel | .pool .cancel | .pool .expire => false
  | .code (some (.answered _ (Await.http _) (.error _))) => false
  | .code (some (.answered _ (Await.collect _) (.error _))) => false
  | _ => true

/-- The step brings an answer. -/
def Act.answers : Act κ → Bool
  | .code (some (.answered _ _ _)) => true
  | _ => false

/-- An acquisition on its way to a timeout, or dropped. -/
def Phase.thwarted : Phase → Bool
  | .resumed ok | .leaving ok _ | .left ok => !ok
  | .timedOut | .cancelled => true
  | _ => false

/-- **A call that has not been dropped, and whose acquisitions have not timed out.** -/
structure Proc.Granted (q : Proc κ) : Prop where
  kept : q.mode ≠ .ended none ∧ ∀ n, q.mode ≠ .unwinding n
  phase : ∀ tk ∈ q.tickets, tk.phase.thwarted = false

/-- **A call that has been granted and answered all it has asked for.** -/
structure Proc.Smooth (q : Proc κ) : Prop extends q.Granted where
  past : ¬ Failed q.past

/-! ## Smooth calls -/

section

variable {q q' : Proc κ}

theorem HalfPool.step_thwarted [DecidableEq ι] {p p' : HalfPool ι} {i : ι} {a : Acquire}
    {ph ph' : Phase} {x : PoolAct} (h : p.step i a ph x = some (p', ph')) (hx : x ≠ .expire)
    (hc : x ≠ .cancel) (hph : ph.thwarted = false) : ph'.thwarted = false := by
  cases HalfPool.step_moves h with
  | expire => exact absurd rfl hx
  | cancel => exact absurd rfl hc
  | dequeue => exact hph
  | leave => exact hph
  | fail => exact hph
  | _ => rfl

theorem failed_event {e : Option (Ev (S3 κ))} {τ : List (Ev (S3 κ))} (hg : (Act.code e).good = true)
    (hl : ∀ h a, e ≠ some (.lost h a)) (h : Failed {x | x ∈ e.toList ++ τ}) : Failed {x | x ∈ τ} := by
  have hmem : ∀ x, x ∈ e.toList ++ τ → e = some x ∨ x ∈ τ := by
    intro x hx
    rcases List.mem_append.mp hx with hx | hx
    · exact Or.inl (Option.mem_toList.mp hx)
    · exact Or.inr hx
  rcases h with ⟨s, a, hx⟩ | ⟨n, r, er, hx⟩ | ⟨n, b, er, hx⟩
  · rcases hmem _ hx with rfl | hx
    · exact absurd rfl (hl s a)
    · exact Or.inl ⟨s, a, hx⟩
  · rcases hmem _ hx with rfl | hx
    · cases hg
    · exact Or.inr (Or.inl ⟨n, r, er, hx⟩)
  · rcases hmem _ hx with rfl | hx
    · cases hg
    · exact Or.inr (Or.inr ⟨n, b, er, hx⟩)

variable [DecidableEq κ]

theorem after_ne_lost {e : Option (Ev (S3 κ))} {ts ts' : List (Ticket κ)}
    (h : Ticket.after e ts = some ts') (hts : ∀ tk ∈ ts, tk.phase.thwarted = false) (s : κ × Half)
    (a : Acquire) : e ≠ some (.lost s a) := by
  rintro rfl
  match ts with
  | [] => cases h
  | ⟨s', a', ph⟩ :: ts =>
    have := hts _ List.mem_cons_self
    cases ph with
    | timedOut => cases this
    | _ => cases h

/-- **A granted call stays granted**, and loses nothing. -/
theorem Proc.Granted.step (h : q.Granted) {a : Act κ} (hs : Proc.Step q a q') (ha : a ≠ .cancel) :
    q'.Granted ∧ ∀ k x, a.event ≠ some (.lost k x) := by
  obtain ⟨⟨hnone, hun⟩, hph⟩ := h
  cases hs with
  | start t ht => exact ⟨⟨⟨nofun, nofun⟩, hph⟩, nofun⟩
  | @code p p' e ts ts' c n τ t ht hstep hts =>
    refine ⟨⟨⟨nofun, nofun⟩, ?_⟩, after_ne_lost hts hph⟩
    rcases Ticket.after_cases hts with ⟨k, a, -, rfl⟩ | ⟨-, rfl | ⟨tk, rfl, -⟩⟩
    · intro tk htk
      rcases List.mem_cons.mp htk with rfl | htk
      · rfl
      · exact hph tk htk
    · exact hph
    · exact fun tk' htk => hph tk' (List.mem_cons_of_mem _ htk)
  | cancel hp => exact absurd rfl ha
  | dropFut => exact absurd rfl (hun _)
  | pop hp => exact absurd rfl (hun _)
  | dead t ht => exact absurd rfl (hun _)
  | ret t ht => exact ⟨⟨⟨nofun, nofun⟩, hph⟩, nofun⟩

omit [DecidableEq κ] in
/-- An operation of its newest ticket, neither a timeout nor a drop, leaves a call granted. -/
theorem Proc.Granted.pool [DecidableEq ι] (h : q.Granted) {p p' : HalfPool ι} {i : ι} {tk : Ticket κ}
    {ts : List (Ticket κ)} {x : PoolAct} {ph : Phase} (htk : q.tickets = tk :: ts)
    (hp : p.step i tk.amt tk.phase x = some (p', ph)) (hx : x ≠ .expire) (hc : x ≠ .cancel) :
    Proc.Granted { q with mode := q.mode.afterPool x, tickets := { tk with phase := ph } :: ts } := by
  obtain ⟨hkept, hph⟩ := h
  rw [Mode.afterPool_of_ne _ hc]
  rw [htk] at hph
  refine ⟨hkept, fun tk' htk' => ?_⟩
  rcases List.mem_cons.mp htk' with rfl | htk'
  · exact HalfPool.step_thwarted hp hx hc (hph tk List.mem_cons_self)
  · exact hph tk' (List.mem_cons_of_mem _ htk')

theorem Proc.Smooth.step (h : q.Smooth) {a : Act κ} (hs : Proc.Step q a q') (ha : a.good = true) :
    q'.Smooth := by
  have hc : a ≠ .cancel := by
    rintro rfl
    cases ha
  obtain ⟨hgranted, hl⟩ := h.toGranted.step hs hc
  refine ⟨hgranted, fun hf => h.past ?_⟩
  have htrace := hs.trace_eq.1
  unfold Proc.past at hf ⊢
  rw [htrace] at hf
  cases a with
  | code e => exact failed_event ha hl hf
  | _ => exact hf

/-- **A smooth call stays smooth**: its own steps are good, and the others leave it alone. -/
theorem smooth_step [DecidableEq ι] {s t : Sys κ ι} {i j : ι} {a : Act κ}
    (hs : Sys.Step s (j, a) t) (ha : j = i → a.good = true) (h : (s.procs i).Smooth) :
    (t.procs i).Smooth := by
  by_cases hi : i = j
  · subst hi
    have ha := ha rfl
    cases hs with
    | @act _ _ q hq =>
      dsimp only
      rw [Function.update_self]
      exact h.step hq ha
    | @pool _ tk ts x p ph htk hx hp =>
      have hexp : x ≠ .expire := by
        rintro rfl
        cases ha
      have hcan : x ≠ .cancel := by
        rintro rfl
        cases ha
      dsimp only
      rw [Function.update_self]
      exact ⟨h.toGranted.pool htk hp hexp hcan, h.past⟩
  · rw [hs.other hi]
    exact h

end

/-! ## Calls without loops -/

section

variable {self : S3Client κ}

theorem structural_loopFree :
    Structural (fun _ => True) False fun _ (p : Prog (S3 κ) _) => p.LoopFree where
  ret _ := trivial
  bind := Prog.LoopFree.bind
  clock _ := trivial
  log _ := trivial
  record _ := trivial
  acquire h := h
  release h := h
  wait _ _ := trivial
  stream _ _ _ := trivial
  loop _ _ := False.elim

/-- **Only a listing has a loop.** -/
theorem op_loopFree (op : Op) (hop : ∀ pfx recursive, op ≠ .list pfx recursive) :
    (op.program self).LoopFree :=
  op_of_structural structural_loopFree trivial hop

end

/-- The rest of the code of a call has no loop. -/
def Proc.LoopFree (q : Proc κ) : Prop :=
  match q.mode with
  | .fresh p | .live p => p.LoopFree
  | _ => True

theorem Proc.LoopFree.turn {q : Proc κ} (h : q.LoopFree) : q.turn = 0 := by
  unfold Proc.LoopFree at h
  unfold Proc.turn
  split
  · rename_i p hm
    rw [hm] at h
    exact Prog.LoopFree.turn h
  · rfl

section

variable [DecidableEq κ] [DecidableEq ι] {s t : Sys κ ι} {i j : ι} {a : Act κ}

omit [DecidableEq ι] in
theorem Proc.LoopFree.step {q q' : Proc κ} (h : q.LoopFree) (hs : Proc.Step q a q') : q'.LoopFree := by
  cases hs with
  | start t ht => exact h
  | code t ht hstep hts => exact Prog.LoopFree.step h hstep
  | _ => trivial

theorem loopFree_step (hs : Sys.Step s (j, a) t) (h : (s.procs i).LoopFree) : (t.procs i).LoopFree := by
  by_cases hi : i = j
  · subst hi
    cases hs with
    | @act _ _ q hq =>
      dsimp only
      rw [Function.update_self]
      exact h.step hq
    | @pool _ tk ts x p ph htk hx hp =>
      dsimp only
      rw [Function.update_self]
      by_cases hx : x = .cancel
      · subst hx
        trivial
      · rw [Mode.afterPool_of_ne _ hx]
        exact h
  · rw [hs.other hi]
    exact h

omit [DecidableEq κ] in
theorem good_ne_cancel (ha : a.good = true) : a ≠ .cancel ∧ a ≠ .pool .cancel := by
  constructor
  · rintro rfl
    cases ha
  · rintro rfl
    cases ha

theorem step_ne (hs : Sys.Step s (i, a) t) (ha : a.good = true) : t.procs i ≠ s.procs i := by
  intro heq
  obtain ⟨-, hlt⟩ := hs.bag_lt (good_ne_cancel ha).1 (good_ne_cancel ha).2 le_rfl
  rw [heq] at hlt
  exact bag_irrefl hlt

/-- **A call without loops comes to rest.** -/
theorem comes_to_rest {f : ℕ → Sys κ ι} (h₀ : ((f 0).procs i).LoopFree)
    (hf : ∀ n, f (n + 1) = f n ∨ ∃ j a, Sys.Step (f n) (j, a) (f (n + 1)) ∧ (j = i → a.good = true)) :
    ∃ N, ∀ n, N ≤ n → (f n).procs i = (f N).procs i := by
  have hfree : ∀ n, ((f n).procs i).LoopFree := by
    intro n
    induction n with
    | zero => exact h₀
    | succ n ih =>
      rcases hf n with heq | ⟨j, a, hs, -⟩
      · rw [heq]
        exact ih
      · exact loopFree_step hs ih
  refine settles (Proc.bag 0) fun n => ?_
  rcases hf n with heq | ⟨j, a, hs, ha⟩
  · exact Or.inl (congrArg (fun s => s.procs i) heq)
  · by_cases hi : j = i
    · subst hi
      exact Or.inr (hs.bag_lt (good_ne_cancel (ha rfl)).1 (good_ne_cancel (ha rfl)).2
        (hfree (n + 1)).turn.le).2
    · exact Or.inl (hs.other (Ne.symm hi))

end

/-! ## Calls go on -/

variable [DecidableEq κ] [DecidableEq ι] {S : Setup κ ι} {s : Sys κ ι}
  {l : List ((ι × Act κ) × Sys κ ι)} {i : ι}

omit [DecidableEq κ] in
/-- A steady step is good, or brings an answer. -/
theorem good_or_answer {a : Act κ} (h : a.steady = true) :
    (a.good = true ∧ a.answers = false) ∨
      ∃ m x r, a = .code (some (.answered m x r)) := by
  cases a with
  | cancel => cases h
  | pool x =>
    cases x with
    | expire => cases h
    | cancel => cases h
    | _ => exact Or.inl ⟨rfl, rfl⟩
  | code e =>
    cases e with
    | none => exact Or.inl ⟨rfl, rfl⟩
    | some e =>
      cases e with
      | answered m x r => exact Or.inr ⟨m, x, r, rfl⟩
      | _ => exact Or.inl ⟨rfl, rfl⟩
  | _ => exact Or.inl ⟨rfl, rfl⟩

theorem Proc.start_step {q : Proc κ} (h : q.started = false) : ∃ q', Proc.Step q .start q' := by
  obtain ⟨mode, ts, c, n, τ⟩ := q
  cases mode with
  | fresh p => exact ⟨_, .start c le_rfl⟩
  | _ => cases h

/-- A call that goes on with an answer goes on with any other. -/
theorem Proc.Step.other {q q' : Proc κ} {m : ℕ} {x : (S3 κ).Ask} {r : (S3 κ).Ans x}
    (h : Proc.Step q (.code (some (.answered m x r))) q') (r' : (S3 κ).Ans x) :
    ∃ q'', Proc.Step q (.code (some (.answered m x r'))) q'' := by
  cases h with
  | code t ht hstep hts =>
    obtain ⟨p'', hp⟩ := hstep.other r'
    exact ⟨_, .code t ht hp hts⟩

/-- **A call can go on**: with a good step, or with any answer to one of its questions. -/
def Sys.GoesOn (s : Sys κ ι) (i : ι) : Prop :=
  (∃ a t, Sys.Step s (i, a) t ∧ a.good = true ∧ a.answers = false) ∨
    ∃ m x, ∀ r, ∃ t, Sys.Step s (i, .code (some (.answered m x r))) t

theorem goesOn_of_steady {a : Act κ} (h : Sys.Steady s (i, a) t) : s.GoesOn i := by
  obtain ⟨hs, ha⟩ := h
  rcases good_or_answer ha with hgood | ⟨m, x, r, rfl⟩
  · exact Or.inl ⟨a, t, hs, hgood⟩
  · refine Or.inr ⟨m, x, fun r' => ?_⟩
    cases hs with
    | act hq =>
      obtain ⟨q', hq'⟩ := hq.other r'
      exact ⟨_, .act hq'⟩

theorem steady_active {a : Act κ} (h : Sys.Steady s (i, a) t) : (s.procs i).active = true := by
  obtain ⟨hs, ha⟩ := h
  cases hs with
  | act hq =>
    generalize s.procs i = q at hq
    cases hq with
    | start => cases ha
    | _ => rfl
  | pool htk hx hp =>
    unfold Proc.active Proc.started Proc.hasEnded
    generalize (s.procs i).mode = m at hx
    cases m with
    | fresh p => cases hx
    | ended r => cases hx
    | _ => rfl

theorem goesOn_of_fresh (h : (s.procs i).started = false) : s.GoesOn i := by
  obtain ⟨q', hq⟩ := Proc.start_step h
  exact Or.inl ⟨_, _, .act hq, rfl, rfl⟩

/-- **A call goes on** as long as it does not wait for permits. -/
theorem goes_on (hr : Run Sys.Step S.init l s)
    (he : (s.procs i).hasEnded = false) (hw : ¬ (s.procs i).WaitsFor (S.home i)) : s.GoesOn i := by
  cases hs : (s.procs i).started with
  | false => exact goesOn_of_fresh hs
  | true =>
    have hroom : ∀ i, Room (S.client i) (S.op i).half (fun _ => True) fun _ w => 0 < w := by
      intro i
      refine ⟨trivial, trivial, fun _ _ => Nat.one_pos, ?_⟩
      have hv := (S.client i).valid.concurrency
      cases (S.op i).half with
      | read => exact hv.1
      | write => exact hv.2
    have hd := @disciplined_run _ _ _ _ S s l (fun _ _ => True) _ hroom hr i
    have hact : (s.procs i).active = true := by
      unfold Proc.active
      rw [hs, he]
      rfl
    rcases hd.advance (fun _ _ h => h) hact with ⟨a, q', hq, ha⟩ | ⟨tk, x, htk, hsem, -, hx, hph⟩
    · exact goesOn_of_steady ⟨.act hq, ha⟩
    · by_cases hg : x = .grant
      · subst hg
        refine absurd ⟨tk, ?_, hsem, ?_⟩ hw
        · rw [htk]
          exact List.mem_singleton_self tk
        · generalize tk.phase = ph at hph
          cases ph with
          | waiting => rfl
          | left ok => cases ok <;> cases hph
          | _ => cases hph
      · obtain ⟨⟨p, ph⟩, hp⟩ := HalfPool.step_act (s.pools tk.sem) i tk.amt hph hg
        exact goesOn_of_steady ⟨.pool htk hx hp, act_steady hph⟩

end S3o
