import S3o.Async.History
import S3o.Async.Monitor

/-!
# What a monitor knows of a history

The two ways to reason about a program meet: a safe program writes a history that its monitor accepts,
so what the monitor knows can be used where histories are specified.

* `Prog.Safe.run`: the history of a run of a safe program, and the rest of its code;
* **`Prog.Safe.spec`**: from a monitor to a specification of histories.
-/

namespace Async

open Lts

variable {S : Sig} {α : Type} {M : Monitor S} {ψ : M.G → α → Prop} {g : M.G} {p q : Prog S α}
  {τ : History S}

@[simp] theorem History.events_append (τ τ' : History S) :
    History.events (τ ++ τ') = τ.events ++ τ'.events :=
  List.filterMap_append

theorem Prog.events_note (t : ℕ) (p : Prog S α) (e : Option (Ev S)) :
    History.events (stamp t (p.note e)) = e.toList := by
  cases e with
  | some e => rfl
  | none =>
    cases p with
    | join w pd r d k => cases pd <;> cases r <;> rfl
    | _ => rfl

/-- **A run of a safe program**: its events were allowed, and the rest of the program is safe. -/
theorem Prog.Safe.run (hs : p.Safe M ψ g) (hr : p.Runs τ q) :
    M.Accepts g τ.events ∧ q.Safe M ψ (M.exec g τ.events) := by
  induction hr with
  | nil => exact ⟨trivial, hs⟩
  | snoc _ hstep ih =>
    obtain ⟨ha, hq⟩ := ih
    obtain ⟨t, n, e, hstep, rfl⟩ := hstep
    obtain ⟨hok, hq'⟩ := hq.step hstep
    rw [History.events_append, Prog.events_note, Monitor.exec_toList]
    refine ⟨?_, hq'⟩
    cases e with
    | none => exact ha
    | some e => exact ⟨ha, hok e rfl⟩

theorem Prog.Safe.paused (hs : p.Safe M ψ g) (hp : p.Paused) : M.pause g := by
  cases p with
  | acquiring h a s k => exact hs.1
  | _ => exact hs.pause hp

/-- **From a monitor to histories.** A safe program keeps every watch that holds after what the monitor
accepts, and its result and what it has written are as the monitor says. -/
theorem Prog.Safe.spec {W : Watch S} (hs : p.Safe M ψ g)
    (hW : ∀ new, M.Accepts g new.events → W.always (new ++ τ) ∧
      (M.pause (M.exec g new.events) → W.paused (new ++ τ)) ∧ ∀ i, W.turn i (new ++ τ)) :
    p.Spec W (fun a τ' => ∃ new, τ' = new ++ τ ∧ M.Accepts g new.events ∧ ψ (M.exec g new.events) a) τ := by
  intro new q hr
  obtain ⟨ha, hq⟩ := hs.run hr
  obtain ⟨h₁, h₂, h₃⟩ := hW new ha
  refine ⟨h₁, fun hp => h₂ (hq.paused hp), fun i _ => h₃ i, ?_⟩
  rintro a rfl
  exact ⟨new, rfl, ha, hq⟩

end Async
