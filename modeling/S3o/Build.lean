import S3o.Pool.Model
import S3o.Validation

/-!
# Building a client

`build` and `from_config`. The retries are narrowed to `u32` and one is added for the first attempt,
and each half of the pool is a semaphore of the configured size.

* `newHalfPool`, `maxAttempts`, `fromConfig`, `S3ConfigBuilder.build`;
* `S3Config.Fits`: the sizes for which nothing is narrowed and no semaphore is refused;
* **`S3ConfigBuilder.builds_iff`**: a configuration is built as it says exactly when it fits.
-/

namespace S3o

variable {ι : Type}

/-- `Semaphore::MAX_PERMITS`, which is `usize::MAX >> 3`. -/
def maxPermits : ℕ := (2 ^ 64 - 1) >>> 3

/-- `HalfPool::new`. `Semaphore::new` panics above `MAX_PERMITS`. -/
def newHalfPool (capacity : UInt64) : Checked (HalfPool ι) :=
  if maxPermits < capacity.toNat then Checked.panic else pure (.new capacity.toNat)

/-- `config.max_retries as u32 + 1`. -/
def maxAttempts (checks : Bool) (retries : UInt64) : Checked UInt32 :=
  let n := retries.toUInt32
  if checks ∧ 2 ^ 32 ≤ n.toNat + 1 then Checked.panic else pure (n + 1)

/-- What `from_config` sets up: the attempts of the SDK for each request and the halves of the pool. The
other settings of the SDK are taken over as they are. -/
structure Built (ι : Type) where
  config : S3Config
  maxAttempts : UInt32
  read : HalfPool ι
  write : HalfPool ι

/-- `from_config`. -/
def fromConfig (checks : Bool) (config : S3Config) : Checked (Built ι) := do
  let maxAttempts ← maxAttempts checks config.maxRetries
  let read ← newHalfPool config.readConnections
  let write ← newHalfPool config.writeConnections
  return { config, maxAttempts, read, write }

/-- `build`. -/
def S3ConfigBuilder.build (checks : Bool) (self : S3ConfigBuilder) : Checked (Built ι) := do
  let c ← self.validate checks
  fromConfig checks c

/-! ## What is built -/

/-- **The sizes that are built as they are.** -/
structure S3Config.Fits (c : S3Config) : Prop where
  readConnections : c.readConnections.toNat ≤ maxPermits
  writeConnections : c.writeConnections.toNat ≤ maxPermits
  maxRetries : c.maxRetries.toNat < 2 ^ 32 - 1

/-- The client has the attempts and the permits that the configuration says. -/
structure Built.Faithful (client : Built ι) (c : S3Config) : Prop where
  config : client.config = c
  attempts : client.maxAttempts.toNat = c.maxRetries.toNat + 1
  read : client.read = .new c.readConnections.toNat
  write : client.write = .new c.writeConnections.toNat

theorem Checked.run_bind_iff {α β : Type} {x : Checked α} {f : α → Checked β} {b : β} :
    (x >>= f).run = some (.ok b) ↔ ∃ a, x.run = some (.ok a) ∧ (f a).run = some (.ok b) := by
  refine ⟨Checked.run_bind, ?_⟩
  rintro ⟨a, ha, hb⟩
  rw [ExceptT.run_bind, ha]
  exact hb

theorem newHalfPool_ok {n : UInt64} {p : HalfPool ι} :
    (newHalfPool n).run = some (.ok p) ↔ n.toNat ≤ maxPermits ∧ p = .new n.toNat := by
  unfold newHalfPool
  by_cases hn : maxPermits < n.toNat
  · rw [if_pos hn]
    simp only [Checked.panic, ExceptT.run_mk, reduceCtorEq, false_iff, not_and]
    omega
  · rw [if_neg hn]
    simp [not_lt.mp hn, eq_comm]

theorem maxAttempts_ok {checks : Bool} {retries : UInt64} {n : UInt32} :
    (maxAttempts checks retries).run = some (.ok n) ↔
      ¬ (checks = true ∧ 2 ^ 32 ≤ retries.toNat % 2 ^ 32 + 1) ∧ n = retries.toUInt32 + 1 := by
  unfold maxAttempts
  dsimp only
  rw [UInt64.toNat_toUInt32]
  split_ifs with hn
  · simp only [Checked.panic, ExceptT.run_mk, reduceCtorEq, false_iff, not_and]
    exact fun h => absurd hn (not_and.mpr h)
  · simp only [hn, not_false_eq_true, true_and]
    simp [eq_comm]

/-- **The attempts are those of the configuration** exactly when the retries are below the largest
`u32`. -/
theorem maxAttempts_iff (checks : Bool) (retries : UInt64) :
    (∃ n, (maxAttempts checks retries).run = some (.ok n) ∧ n.toNat = retries.toNat + 1) ↔
      retries.toNat < 2 ^ 32 - 1 := by
  simp only [maxAttempts_ok]
  have hadd : (retries.toUInt32 + 1).toNat = (retries.toNat % 2 ^ 32 + 1) % 2 ^ 32 := by
    rw [UInt32.toNat_add, UInt64.toNat_toUInt32]
    rfl
  constructor
  · rintro ⟨n, ⟨-, rfl⟩, hn⟩
    omega
  · intro h
    exact ⟨_, ⟨by omega, rfl⟩, by omega⟩

/-- What `from_config` builds, and when it does. -/
theorem fromConfig_ok {checks : Bool} {c : S3Config} {client : Built ι} :
    (fromConfig checks c).run = some (.ok client) ↔
      (maxAttempts checks c.maxRetries).run = some (.ok client.maxAttempts) ∧
      c.readConnections.toNat ≤ maxPermits ∧ c.writeConnections.toNat ≤ maxPermits ∧
      client.config = c ∧ client.read = .new c.readConnections.toNat ∧
      client.write = .new c.writeConnections.toNat := by
  unfold fromConfig
  constructor
  · intro h
    obtain ⟨n, hn, h⟩ := Checked.run_bind h
    obtain ⟨p, hp, h⟩ := Checked.run_bind h
    obtain ⟨q, hq, h⟩ := Checked.run_bind h
    obtain ⟨hread, rfl⟩ := newHalfPool_ok.mp hp
    obtain ⟨hwrite, rfl⟩ := newHalfPool_ok.mp hq
    obtain rfl := Except.ok.inj (Option.some.inj h)
    exact ⟨hn, hread, hwrite, rfl, rfl, rfl⟩
  · rintro ⟨hn, hread, hwrite, rfl, hp, hq⟩
    refine Checked.run_bind_iff.mpr ⟨_, hn, ?_⟩
    refine Checked.run_bind_iff.mpr ⟨_, newHalfPool_ok.mpr ⟨hread, rfl⟩, ?_⟩
    refine Checked.run_bind_iff.mpr ⟨_, newHalfPool_ok.mpr ⟨hwrite, rfl⟩, ?_⟩
    rw [← hp, ← hq]
    rfl

/-- **An accepted configuration is built as it says exactly when it fits.** -/
theorem S3ConfigBuilder.builds_iff {checks : Bool} {b : S3ConfigBuilder} {c : S3Config}
    (hc : (b.validate checks).run = some (.ok c)) :
    (∃ client : Built ι, (b.build checks).run = some (.ok client) ∧ client.Faithful c) ↔ c.Fits := by
  have hattempts := maxAttempts_iff checks c.maxRetries
  constructor
  · rintro ⟨client, hclient, hf⟩
    obtain ⟨c', hc', hclient⟩ := Checked.run_bind hclient
    obtain rfl : c' = c := Except.ok.inj (Option.some.inj (hc'.symm.trans hc))
    obtain ⟨hn, hread, hwrite, -⟩ := fromConfig_ok.mp hclient
    exact ⟨hread, hwrite, hattempts.mp ⟨_, hn, hf.attempts⟩⟩
  · intro h
    obtain ⟨n, hn, hval⟩ := hattempts.mpr h.maxRetries
    refine ⟨⟨c, n, .new c.readConnections.toNat, .new c.writeConnections.toNat⟩, ?_, rfl, hval, rfl, rfl⟩
    exact Checked.run_bind_iff.mpr
      ⟨c, hc, fromConfig_ok.mpr ⟨hn, h.readConnections, h.writeConnections, rfl, rfl, rfl⟩⟩

end S3o
