import S3o.System.Advance

/-!
# Reads and writes do not interfere

Every call touches one half of its pool only, so the steps of the calls on the other half can be
deleted from a run.

* `Agree`: two systems that look the same to the calls of one half;
* `agree_step`, `agree_other`: those calls can do the same in both, and the others keep the agreement;
* **`isolation`**: deleting the calls of the other half.
-/

namespace S3o

open Async Lts

variable {κ ι : Type} {S : Setup κ ι} {s t s' : Sys κ ι} {l : List ((ι × Act κ) × Sys κ ι)}
  {h : Half}

/-- The calls of half `h` look the same in both systems: their pools and what they are doing. -/
structure Agree (S : Setup κ ι) (h : Half) (s s' : Sys κ ι) : Prop where
  pools : ∀ k, s'.pools (k, h) = s.pools (k, h)
  procs : ∀ i, (S.op i).half = h → s'.procs i = s.procs i

variable [DecidableEq κ] [DecidableEq ι]

theorem sem_run (hr : Run Sys.Step S.init l s) (i : ι) :
    ∀ tk ∈ (s.procs i).tickets, tk.sem = S.home i :=
  fun tk htk => ((tidy_run hr i).ticket tk htk).1

omit [DecidableEq κ] [DecidableEq ι] in
theorem Agree.symm (ha : Agree S h s s') : Agree S h s' s :=
  ⟨fun k => (ha.pools k).symm, fun i hi => (ha.procs i hi).symm⟩

/-- What a call of half `h` does in one system it can do in the other. -/
theorem agree_step {i : ι} {a : Act κ} (hsem : ∀ tk ∈ (s.procs i).tickets, tk.sem = S.home i)
    (ha : Agree S h s s') (hi : (S.op i).half = h) (hs : Sys.Step s (i, a) t) :
    ∃ t', Sys.Step s' (i, a) t' ∧ Agree S h t t' := by
  cases hs with
  | @act _ _ q hq =>
    exact ⟨_, .act ((ha.procs i hi).symm ▸ hq), ha.pools, update_agree ha.procs i q⟩
  | @pool _ tk ts x p ph htk hx hp =>
    have htks : tk.sem = (S.owner i, h) := by
      rw [hsem tk (htk ▸ List.mem_cons_self), Setup.home, hi]
    have hpools : s'.pools tk.sem = s.pools tk.sem := htks ▸ ha.pools _
    have hprocs := ha.procs i hi
    refine ⟨_, .pool (by rw [hprocs]; exact htk) (by rw [hprocs]; exact hx)
      (by rw [hpools]; exact hp), fun k => ?_, ?_⟩
    · refine update_agree (P := fun k : κ × Half => k.2 = h) ?_ _ _ (k, h) rfl
      rintro ⟨k, _⟩ rfl
      exact ha.pools k
    · rw [hprocs]
      exact update_agree ha.procs i _

theorem agree_other {i : ι} {a : Act κ} (hsem : ∀ tk ∈ (s.procs i).tickets, tk.sem = S.home i)
    (ha : Agree S h s s') (hi : (S.op i).half ≠ h) (hs : Sys.Step s (i, a) t) : Agree S h t s' := by
  have hprocs : ∀ (q : Proc κ) (j : ι), (S.op j).half = h →
      s'.procs j = Function.update s.procs i q j := by
    intro q j hj
    have hji : j ≠ i := by
      rintro rfl
      exact hi hj
    rw [Function.update_of_ne hji]
    exact ha.procs j hj
  cases hs with
  | @act _ _ q hq => exact ⟨ha.pools, hprocs q⟩
  | @pool _ tk ts x p ph htk hx hp =>
    refine ⟨fun k => ?_, hprocs _⟩
    have hk : (k, h) ≠ tk.sem := by
      rw [hsem tk (htk ▸ List.mem_cons_self), Setup.home]
      exact fun heq => hi (Prod.mk.inj heq).2.symm
    show s'.pools (k, h) = Function.update s.pools tk.sem p (k, h)
    rw [Function.update_of_ne hk]
    exact ha.pools k

/-- **Reads and writes do not interfere.** Deleting from a run every step of the calls that do not use
half `h` leaves a run. At each of its steps the half pools `h` and the calls that use them are as in
the original, and whatever such a call can do next it can do in both. -/
theorem isolation (S : Setup κ ι) (h : Half) (hr : Run Sys.Step S.init l s) :
    ∃ l' s', Run Sys.Step S.init l' s' ∧
      l'.map Prod.fst = (l.map Prod.fst).filter (fun x => (S.op x.1).half = h) ∧
      List.Forall₂ (fun x y => x.1 = y.1 ∧ Agree S h x.2 y.2)
        (l.filter fun x => (S.op x.1.1).half = h) l' ∧
      Agree S h s s' ∧
      ∀ i a, (S.op i).half = h → ((∃ t, Sys.Step s (i, a) t) ↔ ∃ t, Sys.Step s' (i, a) t) := by
  have h₀ : Agree S h S.init S.init := ⟨fun _ => rfl, fun _ _ => rfl⟩
  obtain ⟨l', s', hr', ha, hl⟩ := hr.erase Sys.Step (Agree S h)
    (fun x => (S.op x.1).half = h) h₀
    (fun l s x t s' hr hs hx ha => agree_step (sem_run hr x.1) ha (by simpa using hx) hs)
    (fun l s x t s' hr hs hx ha => agree_other (sem_run hr x.1) ha (by simpa using hx) hs)
  refine ⟨l', s', hr', labels_eq hl, hl, ha, fun i a hi => ⟨?_, ?_⟩⟩
  · rintro ⟨t, hs⟩
    obtain ⟨t', hs', -⟩ := agree_step (sem_run hr i) ha hi hs
    exact ⟨t', hs'⟩
  · rintro ⟨t, hs⟩
    obtain ⟨t', hs', -⟩ := agree_step (sem_run hr' i) ha.symm hi hs
    exact ⟨t', hs'⟩

/-- An upload and a HEAD on one client, and a script in which the upload gets its permits and the HEAD
its reply. -/
def mixedSetup : Setup Unit (Fin 2) := smallSetup fun i =>
  if i = 0 then .put "key" ⟨[0], one_le_isizeMax⟩ else .head "key"

def mixedScript : List (Fin 2 × Cmd) := List.replicate 16 (0, .go) ++ List.replicate 27 (1, .go)

theorem isolation_mixed : ∃ l s l' s', Run Sys.Step mixedSetup.init l s ∧
    Run Sys.Step mixedSetup.init l' s' ∧
    l'.map Prod.fst = (l.map Prod.fst).filter (fun x => (mixedSetup.op x.1).half = .read) ∧
    (s.pools ((), .write)).available = 1 ∧ (s'.procs 1).hasEnded = true := by
  obtain ⟨l, s, hr, hend⟩ := mixedSetup.observe (sampleAnswer []) mixedScript
    (fun s => ((s.pools ((), .write)).available, (s.procs 1).hasEnded)) (v := (1, true)) rfl
  obtain ⟨hav, hhead⟩ := Prod.mk.inj hend
  obtain ⟨l', s', hr', hl, -, ha, -⟩ := isolation mixedSetup .read hr
  refine ⟨l, s, l', s', hr, hr', hl, hav, ?_⟩
  rw [ha.procs 1 rfl]
  exact hhead

end S3o
