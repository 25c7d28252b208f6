import Mathlib.Data.Fin.VecNotation
import Mathlib.Data.Fintype.Basic
import S3o.Lts.Family
import S3o.Pool.Model

/-!
# Conservation of permits and of `active`

The semaphore is taken before `active` is incremented and given back after `active` is decremented,
so the guards counted in `active` are among the holders of permits in every intermediate state. A request
that waits may have been assigned a part of its permits already: these are neither available nor held.

* `HalfPool.Accounts`: the permits available, held and waited for, against the capacity;
* `Conserved`: and `active` against the counted guards;
* `Without`: a run and the same run without the steps of one call;
* **`pool_conservation`**: the five facts about every run.
-/

namespace S3o

open Async Lts

variable {ι : Type} [Fintype ι] [DecidableEq ι] {req : ι → Acquire} {C : ℕ} {s t : PoolSys ι}
  {l : List ((ι × PoolAct) × PoolSys ι)}

/-! ## The permits of a half -/

/-- **The permits add up**: those available, those that the calls have and those that they wait for are
the capacity and what the line lacks. -/
structure HalfPool.Accounts (p : HalfPool ι) (C : ℕ) (held asked : ι → ℕ) : Prop where
  fair : p.sem.Fair asked
  permits : p.available + ∑ i, held i + ∑ i, asked i = C + owed p.queue

section

variable {p p' : HalfPool ι} {held asked : ι → ℕ} {i : ι} {a : Acquire} {ph ph' : Phase} {x : PoolAct}

theorem HalfPool.Accounts.step (h : p.Accounts C held asked) (hs : p.step i a ph x = some (p', ph'))
    (hh : held i = ph.held a) (ha : asked i = ph.asked a) :
    p'.Accounts C (Function.update held i (ph'.held a)) (Function.update asked i (ph'.asked a)) := by
  refine ⟨HalfPool.step_fair hs h.fair ha, ?_⟩
  have hheld : ∑ j, Function.update held i (ph'.held a) j + held i = ∑ j, held j + ph'.held a :=
    sum_update (fun _ n => n) held i _
  have hasked : ∑ j, Function.update asked i (ph'.asked a) j + asked i = ∑ j, asked j + ph'.asked a :=
    sum_update (fun _ n => n) asked i _
  have hmoved := HalfPool.step_available hs h.fair ha
  have := h.permits
  omega

theorem HalfPool.Accounts.capacity (h : p.Accounts C held asked) :
    p.available + ∑ i, held i + ∑ i, (asked i - p.lacking i) = C := by
  have hassigned : ∑ i, (asked i - p.lacking i) + owed p.queue = ∑ i, asked i := h.fair.assigned
  have := h.permits
  omega

/-- **Nobody has permits**, all that wait lack some, and each asks for no more than there are: then nobody
waits and all permits are available. -/
theorem HalfPool.Accounts.rest (h : p.Accounts C held asked) (hheld : ∀ i, held i = 0)
    (hwait : ∀ i, 0 < asked i → 0 < p.lacking i) (hle : ∀ i, asked i ≤ C) :
    p.queue = [] ∧ p.available = C := by
  have hpermits := h.permits
  rw [Finset.sum_eq_zero fun i _ => hheld i, add_zero] at hpermits
  exact h.fair.drained hpermits hwait hle

end

/-! ## Calls on one pool -/

variable (req C) in
/-- **The permits add up to the capacity and `active` to the counted guards.** -/
structure Conserved (s : PoolSys ι) : Prop where
  accounts : s.pool.Accounts C (fun i => (s.phase i).held (req i)) fun i => (s.phase i).asked (req i)
  active : s.pool.active = ∑ i, (s.phase i).counted (req i)

/-- The permits that a call has been assigned while it waits for the rest. -/
def PoolSys.assigned (req : ι → Acquire) (s : PoolSys ι) (i : ι) : ℕ :=
  (s.phase i).asked (req i) - s.pool.lacking i

omit [DecidableEq ι] in
theorem conserved_init : Conserved req C (PoolSys.init C) := by
  refine ⟨⟨Semaphore.fair_new C, ?_⟩, ?_⟩
  · simp [PoolSys.init, HalfPool.new, Phase.held, Phase.holds, Phase.asked, owed]
  · simp [PoolSys.init, HalfPool.new, Phase.counted, Phase.counts]

omit [DecidableEq ι] in
theorem Conserved.counted_le (h : Conserved req C s) (i : ι) :
    (s.phase i).counted (req i) ≤ s.pool.active := by
  rw [h.active]
  exact le_sum (fun i ph => ph.counted (req i)) s.phase i

theorem Conserved.step {x : ι × PoolAct} (h : Conserved req C s) (hs : PoolSys.Step req s x t) :
    Conserved req C t := by
  obtain ⟨p', ph', hp, rfl⟩ := PoolSys.step_cases hs
  have hupd : ∀ g : Acquire → Phase → ℕ, (fun i => g (req i) (Function.update s.phase x.1 ph' i)) =
      Function.update (fun i => g (req i) (s.phase i)) x.1 (g (req x.1) ph') := by
    intro g
    funext i
    exact Function.apply_update (fun i => g (req i)) s.phase x.1 ph' i
  refine ⟨?_, ?_⟩
  · dsimp only
    rw [hupd Phase.held, hupd Phase.asked]
    exact h.accounts.step hp rfl rfl
  · have hact := HalfPool.step_active hp (h.counted_le x.1)
    have hsum := sum_update (fun i ph => Phase.counted (req i) ph) s.phase x.1 ph'
    have := h.active
    show p'.active = ∑ i, Phase.counted (req i) (Function.update s.phase x.1 ph' i)
    omega

theorem conserved_run (h : Run (PoolSys.Step req) (PoolSys.init C) l s) : Conserved req C s :=
  h.invariant conserved_init fun _ _ _ hI hs => hI.step hs

theorem Conserved.active_le (h : Conserved req C s) (hreq : ∀ i, (req i).count < 2 ^ 32) :
    s.pool.active ≤ C := by
  have hle : ∑ i, (s.phase i).counted (req i) ≤ ∑ i, (s.phase i).held (req i) :=
    Finset.sum_le_sum fun i _ => Phase.counted_le_held (hreq i) _
  have := h.accounts.capacity
  rw [h.active]
  omega

/-- Nobody holds a permit: no guard is live and no grant is pending. -/
theorem Conserved.rest (h : Conserved req C s) (hrest : ∀ i, (s.phase i).holds = false)
    (hwait : ∀ i, s.phase i = .waiting → 0 < s.pool.lacking i ∧ (req i).permits ≤ C) :
    s.pool.active = 0 ∧ s.pool.available = C := by
  have hcounted : ∀ i, (s.phase i).counted (req i) = 0 := by
    intro i
    have := hrest i
    unfold Phase.counted
    split_ifs with hc
    · cases hp : s.phase i <;> simp [hp, Phase.counts, Phase.holds] at hc this
    · rfl
  have hac := h.active
  rw [Finset.sum_eq_zero fun i _ => hcounted i] at hac
  refine ⟨hac, (h.accounts.rest (fun i => ?_) (fun i hi => ?_) fun i => ?_).2⟩
  · unfold Phase.held
    rw [hrest i]
    rfl
  · have hi : 0 < if s.phase i = .waiting then (req i).permits else 0 := hi
    split_ifs at hi with hp
    · exact (hwait i hp).1
    · exact absurd hi (Nat.lt_irrefl 0)
  · show (if s.phase i = .waiting then (req i).permits else 0) ≤ C
    split_ifs with hp
    · exact (hwait i hp).2
    · exact Nat.zero_le C

/-- As long as nobody waits, the permits available and held add up. -/
theorem Conserved.none_waiting (h : Conserved req C s) (hnone : ∀ i, s.phase i ≠ .waiting) :
    s.pool.available + ∑ i, (s.phase i).held (req i) = C := by
  have hcapacity := h.accounts.capacity
  have hassigned : ∀ i, (s.phase i).asked (req i) - s.pool.lacking i = 0 := by
    intro i
    unfold Phase.asked
    rw [if_neg (hnone i)]
    exact Nat.zero_sub _
  rw [Finset.sum_eq_zero fun i _ => hassigned i] at hcapacity
  exact hcapacity

omit [DecidableEq ι] in
/-- Only the first of the line has a part of what it asks for. -/
theorem Conserved.tail_full (h : Conserved req C s) :
    ∀ x ∈ s.pool.queue.tail, x.2 = (req x.1).permits := by
  intro x hx
  have hfull : x.2 = (s.phase x.1).asked (req x.1) := h.accounts.fair.tail x hx
  have hpos := h.accounts.fair.pos x (List.mem_of_mem_tail hx)
  unfold Phase.asked at hfull
  split_ifs at hfull
  · exact hfull
  · omega

/-! ## What a `Drop` has read -/

/-- The value a `Drop` has read is at least what it subtracts. -/
def DropOk (req : ι → Acquire) (s : PoolSys ι) : Prop :=
  ∀ i prev, s.phase i = .dropped prev → (req i).count ≤ prev

omit [Fintype ι] in
theorem HalfPool.step_dropped {p p' : HalfPool ι} {i : ι} {a : Acquire} {ph : Phase} {x : PoolAct}
    {prev : ℕ} (h : p.step i a ph x = some (p', .dropped prev)) : ph = .holding ∧ prev = p.active := by
  cases HalfPool.step_moves h with
  | drop => exact ⟨rfl, rfl⟩

theorem dropOk_step {x : ι × PoolAct} (hc : Conserved req C s) (h : DropOk req s)
    (hs : PoolSys.Step req s x t) : DropOk req t := by
  obtain ⟨p', ph', hp, rfl⟩ := PoolSys.step_cases hs
  intro i prev hi
  by_cases hx : i = x.1
  · subst hx
    rw [show ph' = .dropped prev by simpa using hi] at hp
    obtain ⟨hh, rfl⟩ := HalfPool.step_dropped hp
    have := hc.counted_le x.1
    rwa [hh] at this
  · exact h i prev (by simpa [Function.update_of_ne hx] using hi)

theorem dropOk_run (h : Run (PoolSys.Step req) (PoolSys.init C) l s) : DropOk req s := by
  refine (h.history (I := fun _ s => DropOk req s) (fun i prev hi => ?_) ?_)
  · simp [PoolSys.init] at hi
  · exact fun l s x t hr hI hs => dropOk_step (conserved_run hr) hI hs

/-! ## The run without one call -/

/-- A phase without the values the call has read. -/
def Phase.kind : Phase → Phase
  | .loaded _ => .loaded 0
  | .leaving ok _ => .leaving ok 0
  | .activated _ => .activated 0
  | .dropped _ => .dropped 0
  | ph => ph

theorem Phase.counts_kind (ph : Phase) : ph.kind.counts = ph.counts := by cases ph <;> rfl

/-- The phases in which the semaphore is used have read nothing. -/
theorem Phase.eq_of_kind {ph qh : Phase} (h : qh.kind = ph.kind)
    (hp : ph = .reported ∨ ph = .waiting ∨ ph = .granted ∨ ph = .releasing) : qh = ph := by
  rcases hp with rfl | rfl | rfl | rfl <;> cases qh <;> first | rfl | cases h

/-- The semaphore when a call of `a` gives back what it has of it, and waits no longer. -/
def Phase.returned (ph : Phase) (k : ι) (a : Acquire) (σ : Semaphore ι) : Semaphore ι :=
  if ph.claims then σ.forget k a.permits else σ

/-- `s'` is `s` as it would be had call `k` never been made. -/
structure Without (req : ι → Acquire) (C : ℕ) (k : ι) (s s' : PoolSys ι) : Prop where
  conserved : Conserved req C s'
  sem : s'.pool.sem = (s.phase k).returned k (req k) s.pool.sem
  phase : ∀ i, i ≠ k → (s'.phase i).kind = (s.phase i).kind
  idle : s'.phase k = .idle

section

variable {p p' q : HalfPool ι} {i k : ι} {a b : Acquire} {ph ph' qh kh : Phase} {x : PoolAct}
  {asked : ι → ℕ}

omit [Fintype ι] in
theorem lacking_le_permits (hf : p.sem.Fair asked) (hk : asked k = kh.asked b) :
    p.lacking k ≤ b.permits := by
  have hle : kh.asked b ≤ b.permits := by
    unfold Phase.asked
    split_ifs
    · exact le_rfl
    · exact Nat.zero_le _
  exact (hk ▸ hf.lacking_le k).trans hle

omit [Fintype ι] in
/-- **A half pool without what another call has** can follow. -/
theorem HalfPool.step_follow (h : p.step i a ph x = some (p', ph')) (hi : i ≠ k) (hf : p.sem.Fair asked)
    (hik : asked i = ph.asked a) (hkk : asked k = kh.asked b) (hkind : qh.kind = ph.kind)
    (hq : q.sem = kh.returned k b p.sem) :
    ∃ q' qh', q.step i a qh x = some (q', qh') ∧ qh'.kind = ph'.kind ∧
      q'.sem = kh.returned k b p'.sem := by
  have hle := lacking_le_permits hf hkk
  have hile := lacking_le_permits hf hik
  -- giving up commutes with every operation on the semaphore
  have hacquire : q.sem.acquire i a.permits = kh.returned k b (p.sem.acquire i a.permits) := by
    rw [hq]
    unfold Phase.returned
    split_ifs
    · exact (Semaphore.forget_acquire hf hi _ _).symm
    · rfl
  have hadd : q.sem.addPermits a.permits = kh.returned k b (p.sem.addPermits a.permits) := by
    rw [hq]
    unfold Phase.returned
    split_ifs
    · exact (Semaphore.forget_addPermits hf.nodup hle _).symm
    · rfl
  have hforget : q.sem.forget i a.permits = kh.returned k b (p.sem.forget i a.permits) := by
    rw [hq]
    unfold Phase.returned
    split_ifs
    · exact (Semaphore.forget_forget hf.nodup hi hile hle).symm
    · rfl
  have hlack : p.lacking i = 0 → q.lacking i = 0 := by
    intro h₀
    rw [hq]
    unfold Phase.returned
    split_ifs
    · exact Semaphore.lacking_forget hf h₀ k _
    · exact h₀
  cases HalfPool.step_moves h with
  | join =>
    obtain rfl := Phase.eq_of_kind hkind (by simp)
    exact ⟨_, _, rfl, rfl, hacquire⟩
  | grant hg =>
    obtain rfl := Phase.eq_of_kind hkind (by simp)
    exact ⟨_, _, if_pos (hlack hg), rfl, hq⟩
  | release =>
    obtain rfl := Phase.eq_of_kind hkind (by simp)
    exact ⟨_, _, rfl, rfl, hadd⟩
  | expire hph =>
    obtain rfl := Phase.eq_of_kind hkind (by tauto)
    rcases hph with rfl | rfl <;> exact ⟨_, _, rfl, rfl, hforget⟩
  | cancel hph =>
    obtain rfl := Phase.eq_of_kind hkind (by tauto)
    rcases hph with rfl | rfl <;> exact ⟨_, _, rfl, rfl, hforget⟩
  | _ => cases qh <;> simp_all [HalfPool.step, Phase.kind]

omit [Fintype ι] in
/-- **The steps of the call itself** change what it has, and nothing else. -/
theorem HalfPool.step_returned (h : p.step k a ph x = some (p', ph')) (hf : p.sem.Fair asked)
    (hk : asked k = ph.asked a) : ph'.returned k a p'.sem = ph.returned k a p.sem := by
  cases HalfPool.step_moves h with
  | join => exact Semaphore.acquire_forget hf (not_mem_of_asked hf hk) _
  | expire hph => rcases hph with rfl | rfl <;> rfl
  | cancel hph => rcases hph with rfl | rfl <;> rfl
  | release => exact (Semaphore.forget_of_not_mem (not_mem_of_asked hf hk) _).symm
  | dequeue ok => cases ok <;> rfl
  | leave ok => cases ok <;> rfl
  | _ => rfl

end

/-- **A call that has nothing and waits for nothing** could as well not have been made. -/
theorem Without.same {k : ι} {s' : PoolSys ι} (h : Conserved req C s) (hw : Without req C k s s')
    (hclaims : (s.phase k).claims = false) (hc : (s.phase k).counts = false) :
    s'.pool.active = s.pool.active ∧ s'.pool.available = s.pool.available ∧
      s'.pool.queue = s.pool.queue := by
  have hcounted : ∑ i, (s'.phase i).counted (req i) = ∑ i, (s.phase i).counted (req i) := by
    refine Finset.sum_congr rfl fun i _ => ?_
    by_cases hi : i = k
    · subst hi
      unfold Phase.counted
      rw [hw.idle, hc]
      rfl
    · unfold Phase.counted
      rw [← Phase.counts_kind, hw.phase i hi, Phase.counts_kind]
  have hsem : s'.pool.sem = s.pool.sem := by
    rw [hw.sem]
    unfold Phase.returned
    rw [hclaims]
    rfl
  rw [hw.conserved.active, h.active]
  exact ⟨hcounted, congrArg Semaphore.available hsem, congrArg Semaphore.queue hsem⟩

theorem Without.step_other {k : ι} {x : ι × PoolAct} {s' : PoolSys ι} (h : Conserved req C s)
    (hw : Without req C k s s') (hx : x.1 ≠ k) (hs : PoolSys.Step req s x t) :
    ∃ t', PoolSys.Step req s' x t' ∧ Without req C k t t' := by
  obtain ⟨p', ph', hp, rfl⟩ := PoolSys.step_cases hs
  obtain ⟨q', qh', hq, hkind, hsem⟩ := HalfPool.step_follow hp hx h.accounts.fair rfl rfl
    (hw.phase _ hx) hw.sem
  have hs' : PoolSys.Step req s' x ⟨q', Function.update s'.phase x.1 qh'⟩ := by
    unfold PoolSys.Step PoolSys.step
    rw [hq]
    rfl
  refine ⟨_, hs', hw.conserved.step hs', ?_, fun i hi => ?_, ?_⟩
  · simpa [Function.update_of_ne hx.symm] using hsem
  · by_cases hix : i = x.1
    · subst hix
      simpa using hkind
    · simpa [Function.update_of_ne hix] using hw.phase i hi
  · simpa [Function.update_of_ne hx.symm] using hw.idle

theorem Without.step_self {x : ι × PoolAct} {s' : PoolSys ι} (h : Conserved req C s)
    (hw : Without req C x.1 s s') (hs : PoolSys.Step req s x t) : Without req C x.1 t s' := by
  obtain ⟨p', ph', hp, rfl⟩ := PoolSys.step_cases hs
  refine ⟨hw.conserved, ?_, fun i hi => ?_, hw.idle⟩
  · dsimp only
    rw [hw.sem, Function.update_self, HalfPool.step_returned hp h.accounts.fair rfl]
  · simpa [Function.update_of_ne hi] using hw.phase i hi

/-- **Deleting the steps of one call** from a run leaves a run. -/
theorem without_run (k : ι) (h : Run (PoolSys.Step req) (PoolSys.init C) l s) :
    ∃ l' s', Run (PoolSys.Step req) (PoolSys.init C) l' s' ∧ Without req C k s s' ∧
      l'.map Prod.fst = (l.map Prod.fst).filter (·.1 ≠ k) := by
  have h₀ : Without req C k (PoolSys.init C) (PoolSys.init C) :=
    ⟨conserved_init, rfl, fun _ _ => rfl, rfl⟩
  obtain ⟨l', s', hr, hw, hl⟩ := h.erase (PoolSys.Step req) (Without req C k) (fun x => x.1 ≠ k) h₀
    (fun l s x t s' hr hs hx hw => hw.step_other (conserved_run hr) (by simpa using hx) hs)
    (fun l s x t s' hr hs hx hw => by
      obtain rfl : x.1 = k := by simpa using hx
      exact hw.step_self (conserved_run hr) hs)
  exact ⟨l', s', hr, hw, labels_eq hl⟩

/-! ## The result -/

omit [Fintype ι] in
theorem HalfPool.step_drop {p p' : HalfPool ι} {i : ι} {a : Acquire} {ph ph' : Phase}
    (h : p.step i a ph .drop = some (p', ph')) : ph = .holding := by
  cases HalfPool.step_moves h
  rfl

/-- **Pool conservation.** In every run of a half pool:
the permits available, held, and assigned to requests that wait add up to the capacity, where only the
first of the line has a part of what it asks for, so that those available and held do as long as nobody
waits; `active` is the sum of the guards counted in it and within the capacity; a `Drop` never reads less
than it subtracts; a call that times out or is dropped while it waits leaves `active` and the semaphore as
the same run without it; and both are as new when nobody holds a permit, none is granted, and no request
that waits asks for more than there are. -/
theorem pool_conservation (C : ℕ) (req : ι → Acquire) (hreq : ∀ i, (req i).count < 2 ^ 32)
    (h : Run (PoolSys.Step req) (PoolSys.init C) l s) :
    (s.pool.available + ∑ i, (s.phase i).held (req i) + ∑ i, s.assigned req i = C ∧
      (∀ x ∈ s.pool.queue.tail, x.2 = (req x.1).permits) ∧
      ((∀ i, s.phase i ≠ .waiting) → s.pool.available + ∑ i, (s.phase i).held (req i) = C)) ∧
    (s.pool.active = ∑ i, (s.phase i).counted (req i) ∧ s.pool.active ≤ C) ∧
    ((∀ i t, PoolSys.Step req s (i, .drop) t → (req i).count ≤ s.pool.active) ∧
      ∀ i prev, s.phase i = .dropped prev → (req i).count ≤ prev) ∧
    (∀ k, s.phase k = .timedOut ∨ s.phase k = .cancelled →
      ∃ l' s', Run (PoolSys.Step req) (PoolSys.init C) l' s' ∧
        l'.map Prod.fst = (l.map Prod.fst).filter (·.1 ≠ k) ∧
        (∀ i, i ≠ k → (s'.phase i).kind = (s.phase i).kind) ∧
        s'.pool.active = s.pool.active ∧ s'.pool.available = s.pool.available ∧
        s'.pool.queue = s.pool.queue) ∧
    ((∀ i, (s.phase i).holds = false) →
      (∀ i, s.phase i = .waiting → 0 < s.pool.lacking i ∧ (req i).permits ≤ C) →
        s.pool.active = 0 ∧ s.pool.available = C) := by
  have hc := conserved_run h
  refine ⟨⟨hc.accounts.capacity, hc.tail_full, hc.none_waiting⟩, ⟨hc.active, hc.active_le hreq⟩,
    ⟨fun i t hs => ?_, dropOk_run h⟩, fun k hk => ?_, hc.rest⟩
  · obtain ⟨p', ph', hp, -⟩ := PoolSys.step_cases hs
    have := hc.counted_le i
    rwa [HalfPool.step_drop hp] at this
  · obtain ⟨l', s', hr, hw, hl⟩ := without_run k h
    refine ⟨l', s', hr, hl, hw.phase, hw.same hc ?_ ?_⟩
    · rcases hk with hk | hk <;> rw [hk] <;> rfl
    · rcases hk with hk | hk <;> rw [hk] <;> rfl

/-- The operations of a call that is granted, holds its permits and releases them. -/
def useActs : List PoolAct :=
  [.enqueue, .load, .gauge, .join, .grant, .resume, .dequeue, .gauge, .activate, .gauge, .drop,
    .gauge, .release]

/-- Two permits are all held by call `0`; call `1` times out and call `2` is dropped while it waits. -/
def crowdedActs : List (Fin 3 × PoolAct) :=
  (useActs.take 10).map (0, ·) ++
    [.enqueue, .load, .gauge, .join, .expire, .dequeue, .gauge, .fail].map (1, ·) ++
    [.enqueue, .load, .gauge, .join, .cancel].map (2, ·) ++ (useActs.drop 10).map (0, ·)

def crowdedReq : Fin 3 → Acquire := ![.bulk 2, .one, .bulk 2]

theorem pool_conservation_crowded :
    ∃ l s, Run (PoolSys.Step crowdedReq) (PoolSys.init 2) l s ∧
      l.map Prod.fst = crowdedActs.reverse ∧ s.pool.active = 0 ∧ s.pool.available = 2 := by
  have hend : (exec (PoolSys.step crowdedReq) (PoolSys.init 2) crowdedActs).any fun s =>
      decide ((∀ i, (s.phase i).holds = false) ∧ ∀ i, s.phase i ≠ .waiting) := by decide
  obtain ⟨s, hs, hd⟩ := (Option.any_eq_true _ _).mp hend
  obtain ⟨l, hr, hl⟩ := exec_run hs .nil
  obtain ⟨hrest, hnone⟩ := of_decide_eq_true hd
  exact ⟨l, s, hr, by simpa using hl, (pool_conservation 2 crowdedReq (by decide) hr).2.2.2.2 hrest
    fun i hi => absurd hi (hnone i)⟩

/-- Call `0` holds one of two permits, and call `1` asks for two. -/
def sharedActs : List (Fin 2 × PoolAct) :=
  (useActs.take 10).map (0, ·) ++ (useActs.take 4).map (1, ·)

/-- **Permits that are neither available nor held.** The second permit is assigned to the call that waits
for both; and a call that asks for more than there are is assigned them all. -/
theorem available_short :
    (∃ l s, Run (PoolSys.Step ![.one, .bulk 2]) (PoolSys.init 2) l s ∧
      s.pool.available = 0 ∧ ∑ i, (s.phase i).held (![.one, .bulk 2] i) = 1) ∧
    ∃ l s, Run (PoolSys.Step fun _ : Fin 1 => .bulk 3) (PoolSys.init 2) l s ∧
      (∀ i, (s.phase i).holds = false) ∧ (∀ i, s.phase i = .waiting → 0 < s.pool.lacking i) ∧
      s.pool.available = 0 := by
  constructor
  · have hend : (exec (PoolSys.step ![.one, .bulk 2]) (PoolSys.init 2) sharedActs).any fun s =>
        decide (s.pool.available = 0 ∧ ∑ i, (s.phase i).held (![.one, .bulk 2] i) = 1) := by decide
    obtain ⟨s, hs, hd⟩ := (Option.any_eq_true _ _).mp hend
    obtain ⟨l, hr, -⟩ := exec_run hs .nil
    exact ⟨l, s, hr, of_decide_eq_true hd⟩
  · have hend : (exec (PoolSys.step fun _ : Fin 1 => .bulk 3) (PoolSys.init 2)
        ((useActs.take 4).map (0, ·))).any fun s => decide ((∀ i, (s.phase i).holds = false) ∧
          (∀ i, s.phase i = .waiting → 0 < s.pool.lacking i) ∧ s.pool.available = 0) := by decide
    obtain ⟨s, hs, hd⟩ := (Option.any_eq_true _ _).mp hend
    obtain ⟨l, hr, -⟩ := exec_run hs .nil
    exact ⟨l, s, hr, of_decide_eq_true hd⟩

end S3o
