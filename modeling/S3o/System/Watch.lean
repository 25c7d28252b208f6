import S3o.System.Discipline

/-!
# A monitor on one call

What is proved of the program of a call under a monitor holds of the call in every run, wherever its
steps are interleaved with those of the others, and whether it returns or its future is dropped.

* `Proc.Watched`: what the monitor knows of a call, by what the call is doing;
* `Proc.Watched.result`: what it knows of one that has returned;
* `Proc.AtRest`, `Proc.Watched.pause`: a call that is not in the middle of a poll;
* **`watched_run`**: every run keeps it.
-/

namespace S3o

open Async Lts

variable {κ ι : Type}

/-- **What a monitor knows of a call**: every event was allowed, the rest of its code is safe, it was
dropped where the monitor allows a pause, and it returned what `ψ` says. -/
inductive Proc.Watched (M : Monitor (S3 κ)) (ψ : M.G → Outcome → Prop) (g₀ : M.G) : Proc κ → Prop
  | fresh {p ts c n} : p.Safe M ψ g₀ → Watched M ψ g₀ ⟨.fresh p, ts, c, n, []⟩
  | live {p ts c n τ} : M.Accepts g₀ τ → p.Safe M ψ (M.exec g₀ τ) →
      Watched M ψ g₀ ⟨.live p, ts, c, n, τ⟩
  | unwinding {m ts c n τ} : M.Accepts g₀ τ → M.pause (M.exec g₀ τ) →
      Watched M ψ g₀ ⟨.unwinding m, ts, c, n, τ⟩
  | dropped {ts c n τ} : M.Accepts g₀ τ → M.pause (M.exec g₀ τ) →
      Watched M ψ g₀ ⟨.ended none, ts, c, n, τ⟩
  | returned {r ts c n τ} : M.Accepts g₀ τ → ψ (M.exec g₀ τ) r →
      Watched M ψ g₀ ⟨.ended (some r), ts, c, n, τ⟩

section

variable {M : Monitor (S3 κ)} {ψ : M.G → Outcome → Prop} {g₀ : M.G} {q q' : Proc κ}

theorem Proc.Watched.accepts (h : q.Watched M ψ g₀) : M.Accepts g₀ q.trace := by
  cases h with
  | fresh _ => trivial
  | live ha _ | unwinding ha _ | dropped ha _ | returned ha _ => exact ha

theorem Proc.Watched.result (h : q.Watched M ψ g₀) {r : Outcome} (hm : q.mode = .ended (some r)) :
    ψ (M.exec g₀ q.trace) r := by
  cases h with
  | fresh _ | live _ _ | unwinding _ _ | dropped _ _ => cases hm
  | returned _ hp =>
    cases hm
    exact hp

theorem Proc.Watched.pauses (h : q.Watched M ψ g₀) (hm : q.mode = .ended none) :
    M.pause (M.exec g₀ q.trace) := by
  cases h with
  | fresh _ | live _ _ | unwinding _ _ | returned _ _ => cases hm
  | dropped _ hp => exact hp

theorem Proc.Watched.step [DecidableEq κ] {x : Act κ} (h : q.Watched M ψ g₀) (hs : Proc.Step q x q') :
    q'.Watched M ψ g₀ := by
  cases hs with
  | start t ht =>
    cases h with
    | fresh hp => exact .live trivial hp
  | @code p p' e ts ts' c n τ t ht hstep hts =>
    cases h with
    | live ha hp =>
      obtain ⟨hok, hp'⟩ := hp.step hstep
      refine .live ?_ ?_
      · cases e with
        | none => exact ha
        | some e => exact ⟨ha, hok e rfl⟩
      · rw [Monitor.exec_toList]
        exact hp'
  | cancel hsus =>
    cases h with
    | live ha hp => exact .unwinding ha (hp.pause hsus)
  | dropFut =>
    cases h with
    | unwinding ha hp => exact .unwinding ha hp
  | pop hph =>
    cases h with
    | unwinding ha hp => exact .unwinding ha hp
  | dead t ht =>
    cases h with
    | unwinding ha hp => exact .dropped ha hp
  | ret t ht =>
    cases h with
    | live ha hp => exact .returned ha hp

/-- Operations of its ticket change what a call is doing only when they drop its future, and they do
so only where it waits for permits. -/
theorem Proc.Watched.pool [DecidableEq ι] {home : κ × Half} {fits : Acquire → Prop}
    {wide : Acquire → ℕ → Prop} {tk : Ticket κ} {ts : List (Ticket κ)} {x : PoolAct} {i : ι}
    {p p' : HalfPool ι} {ph : Phase} (h : q.Watched M ψ g₀)
    (hd : Proc.Disciplined home fits wide q) (ht : q.tickets = tk :: ts)
    (hs : p.step i tk.amt tk.phase x = some (p', ph)) :
    ({ q with mode := q.mode.afterPool x, tickets := { tk with phase := ph } :: ts } : Proc κ).Watched
      M ψ g₀ := by
  by_cases hx : x = .cancel
  · subst hx
    cases h with
    | fresh hp =>
      cases hd
      cases ht
    | @live pr ts' c n τ ha hp =>
      obtain rfl : ts' = tk :: ts := ht
      cases hd with
      | live g hg hp' hm =>
        cases g with
        | free => cases hm
        | asking a =>
          obtain ⟨-, ⟨since, k, rfl⟩, -⟩ := hm
          exact .unwinding ha hp.1
        | guarded a =>
          obtain ⟨-, ph', hts, hph, -⟩ := hm
          obtain ⟨rfl, rfl⟩ := List.cons.inj hts
          exact absurd rfl (HalfPool.step_guarding hs hph).2.1
    | unwinding ha hp => exact .unwinding ha hp
    | dropped ha hp =>
      cases hd
      cases ht
    | returned ha hp =>
      cases hd
      cases ht
  · rw [Mode.afterPool_of_ne _ hx]
    cases h with
    | fresh hp => exact .fresh hp
    | live ha hp => exact .live ha hp
    | unwinding ha hp => exact .unwinding ha hp
    | dropped ha hp => exact .dropped ha hp
    | returned ha hp => exact .returned ha hp

/-- Not in the middle of a poll: not started, ended, being dropped, or suspended. -/
def Proc.AtRest (q : Proc κ) : Prop :=
  match q.mode with
  | .live p => p.Suspended ∨ ∃ tk ∈ q.tickets, tk.phase.suspended = true
  | _ => True

theorem Proc.Watched.pause {home : κ × Half} {fits : Acquire → Prop} {wide : Acquire → ℕ → Prop}
    (h : q.Watched M ψ g₀) (hd : Proc.Disciplined home fits wide q) (hr : q.AtRest)
    (ha : q.active = true) : M.pause (M.exec g₀ q.trace) := by
  cases h with
  | fresh hp => cases ha
  | dropped h hp => exact hp
  | unwinding h hp => exact hp
  | returned h hp => cases ha
  | live h hp =>
    rcases hr with hs | ⟨tk, htk, hph⟩
    · exact hp.pause hs
    · cases hd with
      | live g hg hp' hm =>
        cases g with
        | free =>
          obtain rfl := hm
          cases htk
        | asking a =>
          obtain ⟨-, ⟨since, k, rfl⟩, -⟩ := hm
          exact hp.1
        | guarded a =>
          obtain ⟨-, ph, rfl, hph', -⟩ := hm
          obtain rfl := List.mem_singleton.mp htk
          cases ph <;> simp [Phase.suspended, Phase.guarding] at hph hph'

end

variable [DecidableEq κ] [DecidableEq ι] {S : Setup κ ι} {s : Sys κ ι}
  {l : List ((ι × Act κ) × Sys κ ι)}

/-- **What a monitor proves of a program holds of the call in every run.** -/
theorem watched_run {M : Monitor (S3 κ)} {ψ : M.G → Outcome → Prop} {g₀ : M.G} {i : ι}
    (hp : ((S.op i).program (S.client i)).Safe M ψ g₀) (h : Run Sys.Step S.init l s) :
    (s.procs i).Watched M ψ g₀ := by
  refine h.history (I := fun _ s => (s.procs i).Watched M ψ g₀) (.fresh hp) ?_
  intro l s x t hr hI hs
  cases hs with
  | @act j a q hq =>
    by_cases hi : i = j
    · subst hi
      simpa using hI.step hq
    · simpa [Function.update_of_ne hi] using hI
  | @pool j tk ts x p ph htk hx hp =>
    by_cases hi : i = j
    · subst hi
      simpa using hI.pool (tidy_run hr i) htk hp
    · simpa [Function.update_of_ne hi] using hI

end S3o
