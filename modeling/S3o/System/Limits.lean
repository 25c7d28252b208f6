import S3o.Build
import S3o.System.Cleanup
import S3o.System.History

/-!
# The limits of a client

What `build` makes of a configuration, and what the calls of its client take from the semaphores.
`acquire_bulk` narrows its argument to `u32` for the semaphore and not for `active`, and the stream
under its guard has the width that was not narrowed.

* `op_streams`: every stream of a call has the concurrency of its half;
* `Proc.Metes`: an acquisition in bulk, what it adds to `active` and the stream agree;
* **`limits_enforced_iff`**: when the limits of an accepted configuration are those enforced.
-/

namespace S3o

open Async Lts

variable {κ ι : Type}

/-! ## The streams of the operations -/

section

variable {self : S3Client κ}

theorem structural_streams (P : ℕ → Prop) :
    Structural P True fun _ (p : Prog (S3 κ) _) => p.Streams P where
  ret _ := trivial
  bind := Prog.Streams.bind
  clock _ := trivial
  log _ := trivial
  record _ := trivial
  acquire h := h
  release h := h
  wait _ _ := trivial
  stream _ hw := ⟨hw, fun _ => trivial⟩
  loop _ _ _ _ := trivial

/-- **Every stream of a call has the concurrency of its half.** -/
theorem op_streams (op : Op) : (op.program self).Streams (· = self.concurrency op.half) :=
  op_of_structural (structural_streams _) rfl fun _ _ _ => trivial

end

/-! ## What a call takes -/

/-- The call has a guard, or an acquisition in progress, of `acquire_bulk`. -/
def Proc.Bulk (q : Proc κ) : Prop := ∃ tk ∈ q.tickets, ∃ n, tk.amt = .bulk n

/-- **The limits of a call of concurrency `c`**: `acquire_bulk` takes `c` permits and adds `c` to
`active`, and the stream under it may run `c` futures at once. -/
structure Proc.Metes (c : ℕ) (q : Proc κ) : Prop where
  taken : ∀ tk ∈ q.tickets, ∀ n, tk.amt = .bulk n → tk.amt.permits = c
  counted : ∀ tk ∈ q.tickets, ∀ n, tk.amt = .bulk n → tk.amt.count = c
  streams : ∀ p w, q.mode = .live p → p.streamWidth = some w → w = c

/-- The concurrency of a half. -/
def Setup.concurrency (S : Setup κ ι) (h : κ × Half) : ℕ :=
  match h.2 with
  | .read => (S.config h.1).readConcurrency.toNat
  | .write => (S.config h.1).writeConcurrency.toNat

theorem Setup.client_concurrency (S : Setup κ ι) (i : ι) :
    (S.client i).concurrency (S.op i).half = S.concurrency (S.home i) := by
  unfold S3Client.concurrency Setup.concurrency Setup.home
  cases (S.op i).half <;> rfl

variable [DecidableEq κ] [DecidableEq ι] {S : Setup κ ι} {s : Sys κ ι}
  {l : List ((ι × Act κ) × Sys κ ι)}

/-- **An acquisition in bulk asks for the concurrency of its half.** -/
theorem bulk_run (hr : Run Sys.Step S.init l s) (i : ι) :
    ∀ tk ∈ (s.procs i).tickets, ∀ n, tk.amt = .bulk n → n = S.concurrency (S.home i) := by
  have hroom : ∀ i, Room (S.client i) (S.op i).half
      (fun a => ∀ n, a = .bulk n → n = S.concurrency (S.home i)) fun _ _ => True := by
    refine fun i => ⟨nofun, ?_, fun _ _ => trivial, trivial⟩
    rintro n h
    rw [← S.client_concurrency i]
    exact (Acquire.bulk.inj h).symm
  have hd := @disciplined_run _ _ _ _ S s l (fun h a => ∀ n, a = .bulk n → n = S.concurrency h) _ hroom hr i
  exact fun tk htk => (hd.ticket tk htk).2

/-- **A stream has the concurrency of its half.** -/
theorem streams_run (hr : Run Sys.Step S.init l s) (i : ι) {p : Prog (S3 κ) Outcome} {w : ℕ}
    (hp : (s.procs i).mode = .live p) (hw : p.streamWidth = some w) : w = S.concurrency (S.home i) := by
  obtain ⟨τ, hτ⟩ := follows_run hr i
  have hreached := hτ.reached
  unfold Proc.Reached at hreached
  rw [hp] at hreached
  rw [← S.client_concurrency i]
  exact ((op_streams (S.op i)).run hreached).width hw

/-- **A call keeps its limits exactly when it does not acquire in bulk for `2 ^ 32` permits or more.** -/
theorem metes_iff (hr : Run Sys.Step S.init l s) (i : ι) :
    (s.procs i).Metes (S.concurrency (S.home i)) ↔
      ((s.procs i).Bulk → S.concurrency (S.home i) < 2 ^ 32) := by
  have hbulk := bulk_run hr i
  constructor
  · rintro h ⟨tk, htk, n, hn⟩
    obtain rfl := hbulk tk htk n hn
    have htaken := h.taken tk htk _ hn
    rw [hn] at htaken
    rw [← htaken]
    exact Nat.mod_lt _ (by decide)
  · intro h
    have hamt : ∀ tk ∈ (s.procs i).tickets, ∀ n, tk.amt = .bulk n →
        tk.amt = .bulk (S.concurrency (S.home i)) ∧ S.concurrency (S.home i) < 2 ^ 32 := by
      intro tk htk n hn
      exact ⟨hbulk tk htk n hn ▸ hn, h ⟨tk, htk, n, hn⟩⟩
    refine ⟨fun tk htk n hn => ?_, fun tk htk n hn => ?_, fun p w hp hw => streams_run hr i hp hw⟩
    · obtain ⟨ha, hlt⟩ := hamt tk htk n hn
      rw [ha]
      exact Nat.mod_eq_of_lt hlt
    · rw [(hamt tk htk n hn).1]
      rfl

/-- **The limits of an accepted configuration are those enforced**, by `build` and by every call of its
clients in every run, exactly when its numbers of connections are within `MAX_PERMITS`, its retries are
below the largest `u32`, and no such call acquires in bulk for `2 ^ 32` permits or more. -/
theorem limits_enforced_iff {checks : Bool} {b : S3ConfigBuilder} {c : S3Config}
    (hc : (b.validate checks).run = some (.ok c)) (S : Setup κ ι) {s : Sys κ ι}
    {l : List ((ι × Act κ) × Sys κ ι)} (hr : Run Sys.Step S.init l s) :
    ((∃ client : Built ι, (b.build checks).run = some (.ok client) ∧ client.Faithful c) ∧
      ∀ i, S.config (S.owner i) = c → (s.procs i).Metes (S.concurrency (S.home i))) ↔
    c.Fits ∧ ∀ i, S.config (S.owner i) = c → (s.procs i).Bulk → S.concurrency (S.home i) < 2 ^ 32 := by
  rw [S3ConfigBuilder.builds_iff hc]
  exact and_congr Iff.rfl (forall_congr' fun i => forall_congr' fun _ => metes_iff hr i)

theorem limits_enforced_put : ∃ l s, Run Sys.Step putSetup.init l s ∧ (s.procs 0).Bulk ∧
    (∃ client : Built (Fin 1), (smallBuilder.build true).run = some (.ok client) ∧
      client.Faithful smallConfig) ∧
    (s.procs 0).Metes (putSetup.concurrency (putSetup.home 0)) := by
  obtain ⟨l, s, hr, htickets⟩ := putSetup.observe (sampleAnswer []) (List.replicate 24 (0, .go))
    (fun s => (s.procs 0).tickets) (v := [⟨((), .write), .bulk 1, .holding⟩]) rfl
  have hfits : smallConfig.Fits := ⟨by decide, by decide, by decide⟩
  have hsmall : (smallBuilder.validate true).run = some (.ok smallConfig) := rfl
  have hlt : smallConfig.writeConcurrency.toNat < 2 ^ 32 := by decide
  obtain ⟨hbuilt, hmetes⟩ := (limits_enforced_iff hsmall putSetup hr).mpr ⟨hfits, fun _ _ _ => hlt⟩
  refine ⟨l, s, hr, ⟨⟨((), .write), .bulk 1, .holding⟩, ?_, 1, rfl⟩, hbuilt, hmetes 0 rfl⟩
  rw [htickets]
  exact List.mem_cons_self

/-- The largest number of connections, for reads. -/
def oversized : S3ConfigBuilder := { smallBuilder with readConnections := some 18446744073709551615 }

/-- A write concurrency that is no `u32`. -/
def wideBuilder : S3ConfigBuilder :=
  { smallBuilder with writeConcurrency := some 4294967296, writeConnections := some 4294967297 }

/-- An upload on a client of it. -/
def wideSetup : Setup Unit (Fin 1) where
  config _ := wideBuilder.resolved
  valid _ := ⟨true, wideBuilder, rfl⟩
  chrono := some
  owner _ := ()
  op _ := .put "key" ⟨[0], one_le_isizeMax⟩

/-- **Accepted limits that are not enforced**: a client that cannot be built, retries that leave no
attempt, and an upload that takes no permit and counts `2 ^ 32`. -/
theorem limits_not_enforced :
    ((oversized.validate true).run = some (.ok oversized.resolved) ∧
      (oversized.build true : Checked (Built (Fin 1))).run = none) ∧
    (maxAttempts false 4294967295).run = some (.ok 0) ∧
    ∃ l s, Run Sys.Step wideSetup.init l s ∧
      (s.procs 0).tickets.map (fun tk => (tk.amt, tk.amt.permits, tk.amt.count)) =
        [(.bulk 4294967296, 0, 4294967296)] ∧
      ¬ (s.procs 0).Metes (wideSetup.concurrency (wideSetup.home 0)) := by
  refine ⟨⟨rfl, rfl⟩, rfl, ?_⟩
  obtain ⟨l, s, hr, htickets⟩ := wideSetup.observe (sampleAnswer []) (List.replicate 15 (0, .go))
    (fun s => (s.procs 0).tickets) (v := [⟨((), .write), .bulk 4294967296, .holding⟩]) rfl
  refine ⟨l, s, hr, ?_, fun h => ?_⟩
  · rw [htickets]
    rfl
  · have := h.taken _ (by rw [htickets]; exact List.mem_cons_self) _ rfl
    exact absurd this (by decide)

end S3o
