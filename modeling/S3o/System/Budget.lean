import Mathlib.Data.Fintype.Basic
import S3o.System.Advance

/-!
# The connection budget

* `Setup.Narrow`: every concurrency fits `as u32`, so a bulk guard has as many permits as futures may
  run under it;
* `room_narrow`: what the amounts the clients ask for satisfy then;
* **`connection_budget`**: the outstanding requests of a half are at most its permits in use.
-/

namespace S3o

open Async Lts

variable {κ ι : Type}

/-- Every concurrency is below `2 ^ 32`. -/
def Setup.Narrow (S : Setup κ ι) : Prop :=
  ∀ k, (S.config k).readConcurrency.toNat < 2 ^ 32 ∧ (S.config k).writeConcurrency.toNat < 2 ^ 32

/-- An amount that the semaphore can ever grant, and grants in full. -/
def Setup.fits (S : Setup κ ι) (h : κ × Half) (a : Acquire) : Prop :=
  a.permits = a.count ∧ 0 < a.count ∧ a.count ≤ S.capacity h

/-- At least one future and at most as many as there are permits. -/
def wide (a : Acquire) (w : ℕ) : Prop := 0 < w ∧ w ≤ a.count

theorem Setup.concurrency_lt (S : Setup κ ι) (hS : S.Narrow) (i : ι) (h : Half) :
    0 < (S.client i).concurrency h ∧ (S.client i).concurrency h < 2 ^ 32 ∧
      (S.client i).concurrency h + 1 ≤ S.capacity (S.owner i, h) := by
  have hv := S.valid (S.owner i)
  obtain ⟨hr, hw⟩ := hS (S.owner i)
  cases h with
  | read => exact ⟨hv.concurrency.1, hr, hv.readConnections (by omega)⟩
  | write => exact ⟨hv.concurrency.2, hw, hv.writeConnections (by omega)⟩

/-- **The amounts the clients ask for fit.** -/
theorem room_narrow {S : Setup κ ι} (hS : S.Narrow) (i : ι) :
    Room (S.client i) (S.op i).half (S.fits (S.home i)) wide := by
  obtain ⟨hpos, hlt, hcap⟩ := S.concurrency_lt hS i (S.op i).half
  have hone : S.fits (S.home i) .one := by
    refine ⟨rfl, Nat.one_pos, ?_⟩
    show 1 ≤ S.capacity (S.owner i, (S.op i).half)
    omega
  refine ⟨hone, ⟨Nat.mod_eq_of_lt hlt, hpos, ?_⟩, fun a ha => ⟨Nat.one_pos, ha.2.1⟩, hpos, le_rfl⟩
  show (S.client i).concurrency (S.op i).half ≤ S.capacity (S.owner i, (S.op i).half)
  omega

theorem Proc.Disciplined.outstanding_le [DecidableEq κ] {home : κ × Half} {fits : Acquire → Prop} {q : Proc κ}
    (hf : ∀ a, fits a → a.permits = a.count) (h : Proc.Disciplined home fits wide q) :
    q.outstanding ≤ q.held home := by
  cases h with
  | fresh hp => exact Nat.zero_le _
  | unwound => exact Nat.zero_le _
  | ended => exact Nat.zero_le _
  | @live p ts c n τ g hg hp hm =>
    show p.inFlight ≤ _
    by_cases h0 : p.inFlight = 0
    · omega
    · obtain ⟨w, hle, a, rfl, hw⟩ := hp.width h0
      obtain ⟨ha, ph, rfl, hph, hrel⟩ := hm
      have hhold : ph = .holding := by
        rcases hrel with h | h
        · exact h
        · cases p with
          | release k => exact absurd rfl h0
          | _ => cases h
      have := hf a ha
      have := hw.2
      simp only [Proc.held, Proc.total, List.map_cons, List.map_nil, List.sum_cons, List.sum_nil, if_true,
        hhold, Phase.held, Phase.holds]
      omega
  | @unwinding a ph c n τ m ha hph hm =>
    show m ≤ _
    by_cases h0 : m = 0
    · omega
    · obtain ⟨rfl, w, hle, hw⟩ := hm h0
      have := hf a ha
      have := hw.2
      simp only [Proc.held, Proc.total, List.map_cons, List.map_nil, List.sum_cons, List.sum_nil, if_true,
        Phase.held, Phase.holds]
      omega

variable [DecidableEq κ] [DecidableEq ι] [Fintype ι]

/-- The outstanding requests of the calls that use half `h`. -/
def Sys.outstanding (S : Setup κ ι) (s : Sys κ ι) (h : κ × Half) : ℕ :=
  ∑ i, if S.home i = h then (s.procs i).outstanding else 0

/-- The permits of a half that are checked out. -/
def Sys.checkedOut (S : Setup κ ι) (s : Sys κ ι) (h : κ × Half) : ℕ :=
  S.capacity h - (s.pools h).available

/-- **The connection budget.** In every run the outstanding requests of `get`, `head` and `list` are
at most the permits checked out of the read semaphore and those at most `read_connections`, and the
same holds for `put` and `delete`, the write semaphore and `write_connections`. -/
theorem connection_budget (S : Setup κ ι) (hS : S.Narrow) {s : Sys κ ι}
    {l : List ((ι × Act κ) × Sys κ ι)} (h : Run Sys.Step S.init l s) (k : κ) :
    (s.outstanding S (k, .read) ≤ s.checkedOut S (k, .read) ∧
      (s.pools (k, .read)).available + s.checkedOut S (k, .read) =
        (S.config k).readConnections.toNat) ∧
    (s.outstanding S (k, .write) ≤ s.checkedOut S (k, .write) ∧
      (s.pools (k, .write)).available + s.checkedOut S (k, .write) =
        (S.config k).writeConnections.toNat) := by
  have hhalf : ∀ h : κ × Half, s.outstanding S h ≤ s.checkedOut S h ∧
      (s.pools h).available + s.checkedOut S h = S.capacity h := by
    intro k
    have hcons := (accounts_sys h k).capacity
    have hle : s.outstanding S k ≤ ∑ i, (s.procs i).held k := by
      refine Finset.sum_le_sum fun i _ => ?_
      split_ifs with hk
      · subst hk
        exact (disciplined_run (room_narrow hS) h i).outstanding_le fun a ha => ha.1
      · exact Nat.zero_le _
    unfold Sys.checkedOut
    omega
  exact ⟨hhalf (k, .read), hhalf (k, .write)⟩

omit [DecidableEq ι] [Fintype ι] in
theorem small_narrow (op : ι → Op) : (smallSetup op).Narrow := by
  have h : smallConfig.readConcurrency.toNat < 2 ^ 32 ∧ smallConfig.writeConcurrency.toNat < 2 ^ 32 := by
    decide
  exact fun _ => h

/-- One call of `head_object`, and the script that takes it to its request. -/
def headSetup : Setup Unit (Fin 1) := smallSetup fun _ => .head "key"

def headScript : List (Fin 1 × Cmd) := List.replicate 17 (0, .go)

theorem connection_budget_head :
    ∃ l s, Run Sys.Step headSetup.init l s ∧ s.outstanding headSetup ((), .read) = 1 ∧
      1 ≤ s.checkedOut headSetup ((), .read) := by
  obtain ⟨l, s, hr, hone⟩ := headSetup.observe (sampleAnswer []) headScript
    (fun s => s.outstanding headSetup ((), .read)) (v := 1) rfl
  have hle := (connection_budget headSetup (small_narrow _) hr ()).1.1
  rw [hone] at hle
  exact ⟨l, s, hr, hone, hle⟩

end S3o
