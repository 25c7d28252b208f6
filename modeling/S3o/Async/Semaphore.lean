import Mathlib.Data.List.Nodup
import S3o.Lts.Family

/-!
# A fair semaphore that hands out permits piecemeal

A request that finds too few permits takes those there are and waits in line for the rest. Permits that
are given back go to the line, in its order, and the first of the line may have a part of what it asks
for. A request that gives up leaves the line and gives its part back.

* `assign`, `assign_cases`, `assign_owed`: permits given to a line, what is left of it, what it still lacks;
* `assign_add`, `assign_append`, **`assign_without`**: how giving permits composes;
* `Semaphore.acquire`, `addPermits`, `forget`: the operations, and what each moves (`*_balance`);
* `Semaphore.Fair`: the line is in order and only its first has a part of what it asks for;
* `Fair.assigned`: what those in line have already;
* **`Fair.drained`**: when only those in line have permits and each asks for no more than there are, the
  line is empty;
* **`forget_acquire`, `forget_addPermits`, `forget_forget`**: giving up commutes with the rest.
-/

namespace Async

open Lts

variable {ι : Type*} {q q' : List (ι × ℕ)} {i j k : ι} {a b c m n : ℕ} {asked asked' : ι → ℕ}

/-! ## A line of waiters -/

/-- What a line still lacks. -/
def owed (q : List (ι × ℕ)) : ℕ := (q.map Prod.snd).sum

/-- **Permits given to a line**, each waiter with what it lacks: the line after it, and what is left. -/
def assign : List (ι × ℕ) → ℕ → List (ι × ℕ) × ℕ
  | [], k => ([], k)
  | (i, n) :: q, k => if n ≤ k then assign q (k - n) else ((i, n - k) :: q, 0)

theorem assign_of_le (h : n ≤ a) : assign ((i, n) :: q) a = assign q (a - n) := if_pos h

theorem assign_of_lt (h : a < n) : assign ((i, n) :: q) a = ((i, n - a) :: q, 0) :=
  if_neg (Nat.not_le.mpr h)

/-- **The line after permits were given to it** is empty, or starts with a waiter that lacks no more than
it did and nothing is left. -/
theorem assign_cases (q : List (ι × ℕ)) (a : ℕ) : (assign q a).1 = [] ∨
    ∃ i n d r, (i, n) :: r <:+ q ∧ 0 < d ∧ d ≤ n ∧ assign q a = ((i, d) :: r, 0) := by
  induction q generalizing a with
  | nil => exact Or.inl rfl
  | cons x q ih =>
    obtain ⟨i, n⟩ := x
    by_cases h : n ≤ a
    · rw [assign_of_le h]
      refine (ih (a - n)).imp_right ?_
      rintro ⟨j, m, d, r, hr, h⟩
      exact ⟨j, m, d, r, hr.trans (List.suffix_cons _ _), h⟩
    · refine Or.inr ⟨i, n, n - a, q, List.suffix_refl _, by omega, by omega, ?_⟩
      exact assign_of_lt (Nat.lt_of_not_le h)

/-- What is given is taken off what the line lacks, or is left. -/
theorem assign_owed (q : List (ι × ℕ)) (a : ℕ) : owed (assign q a).1 + a = owed q + (assign q a).2 := by
  induction q generalizing a with
  | nil => rfl
  | cons x q ih =>
    obtain ⟨i, n⟩ := x
    by_cases h : n ≤ a
    · have hrest := ih (a - n)
      rw [assign_of_le h]
      show _ = n + owed q + _
      omega
    · rw [assign_of_lt (Nat.lt_of_not_le h)]
      show n - a + owed q + a = n + owed q + 0
      omega

theorem assign_zero (h : ∀ x ∈ q, 0 < x.2) : assign q 0 = (q, 0) := by
  cases q with
  | nil => rfl
  | cons x q => exact assign_of_lt (h x List.mem_cons_self)

/-- Permits may be given one lot after the other. -/
theorem assign_add (q : List (ι × ℕ)) (a b : ℕ) :
    assign q (a + b) = assign (assign q a).1 ((assign q a).2 + b) := by
  induction q generalizing a with
  | nil => rfl
  | cons x q ih =>
    obtain ⟨i, n⟩ := x
    by_cases h : n ≤ a
    · rw [assign_of_le h, assign_of_le (by omega), ← ih, Nat.sub_add_comm h]
    · rw [assign_of_lt (Nat.lt_of_not_le h), zero_add]
      by_cases hab : n ≤ a + b
      · rw [assign_of_le hab, assign_of_le (by omega)]
        congr 1
        omega
      · rw [assign_of_lt (Nat.lt_of_not_le hab), assign_of_lt (by omega)]
        congr 3
        omega

/-- What a line leaves goes to those behind it. -/
theorem assign_append (h : ∀ x ∈ q', 0 < x.2) (a : ℕ) : assign (q ++ q') a =
    ((assign q a).1 ++ (assign q' (assign q a).2).1, (assign q' (assign q a).2).2) := by
  induction q generalizing a with
  | nil => rfl
  | cons x q ih =>
    obtain ⟨i, n⟩ := x
    rw [List.cons_append]
    by_cases hn : n ≤ a
    · rw [assign_of_le hn, assign_of_le hn, ih]
    · rw [assign_of_lt (Nat.lt_of_not_le hn), assign_of_lt (Nat.lt_of_not_le hn), assign_zero h]
      rfl

/-- A line in order: nobody is in it twice, and only the first has a part of what it `asked` for. -/
structure Line (asked : ι → ℕ) (q : List (ι × ℕ)) : Prop where
  nodup : (q.map Prod.fst).Nodup
  pos : ∀ x ∈ q, 0 < x.2
  le : ∀ x ∈ q, x.2 ≤ asked x.1
  tail : ∀ x ∈ q.tail, x.2 = asked x.1

theorem line_nil : Line asked ([] : List (ι × ℕ)) := ⟨List.nodup_nil, by simp, by simp, by simp⟩

theorem Line.congr (h : Line asked q) (hq : ∀ x ∈ q, asked' x.1 = asked x.1) : Line asked' q :=
  ⟨h.nodup, h.pos, fun x hx => (hq x hx).symm ▸ h.le x hx,
    fun x hx => (hq x (List.mem_of_mem_tail hx)).symm ▸ h.tail x hx⟩

theorem Line.suffix (h : Line asked q) (hr : (i, n) :: q' <:+ q) (hm : 0 < m) (hmn : m ≤ n) :
    Line asked ((i, m) :: q') := by
  have hrest : ∀ x ∈ q', x ∈ q.tail := by
    intro x hx
    obtain ⟨r, rfl⟩ := hr
    cases r with
    | nil => exact hx
    | cons y r => exact List.mem_append_right r (List.mem_cons_of_mem _ hx)
  have hhead : (i, n) ∈ q := hr.subset List.mem_cons_self
  refine ⟨(hr.map Prod.fst).sublist.nodup h.nodup, ?_, ?_, fun x hx => h.tail x (hrest x hx)⟩
  · intro x hx
    rcases List.mem_cons.mp hx with rfl | hx
    · exact hm
    · exact h.pos x (List.mem_of_mem_tail (hrest x hx))
  · intro x hx
    rcases List.mem_cons.mp hx with rfl | hx
    · exact hmn.trans (h.le _ hhead)
    · exact h.le x (List.mem_of_mem_tail (hrest x hx))

/-- Permits given to a line leave it in order. -/
theorem Line.assign (h : Line asked q) (a : ℕ) : Line asked (assign q a).1 := by
  rcases assign_cases q a with h₀ | ⟨i, n, d, r, hr, hd, hn, h₁⟩
  · rw [h₀]
    exact line_nil
  · rw [h₁]
    exact h.suffix hr hd hn

theorem Line.join (h : Line asked q) (hi : i ∉ q.map Prod.fst) (hm : 0 < m) (hle : m ≤ asked i)
    (hfull : q ≠ [] → m = asked i) : Line asked (q ++ [(i, m)]) := by
  refine ⟨?_, ?_, ?_, ?_⟩
  · rw [List.map_append, List.map_singleton, List.nodup_append]
    refine ⟨h.nodup, List.nodup_singleton i, fun x hx y hy hxy => ?_⟩
    obtain rfl := List.mem_singleton.mp hy
    exact hi (hxy ▸ hx)
  · intro x hx
    rcases List.mem_append.mp hx with hx | hx
    · exact h.pos x hx
    · rw [List.mem_singleton.mp hx]
      exact hm
  · intro x hx
    rcases List.mem_append.mp hx with hx | hx
    · exact h.le x hx
    · rw [List.mem_singleton.mp hx]
      exact hle
  · intro x hx
    cases q with
    | nil => cases hx
    | cons y q =>
      rcases List.mem_append.mp hx with hx | hx
      · exact h.tail x hx
      · rw [List.mem_singleton.mp hx]
        exact hfull (List.cons_ne_nil _ _)

theorem Line.sublist (h : Line asked q) (hr : q'.Sublist q) : Line asked q' := by
  refine ⟨(hr.map Prod.fst).nodup h.nodup, fun x hx => h.pos x (hr.subset hx),
    fun x hx => h.le x (hr.subset hx), fun x hx => h.tail x ?_⟩
  exact hr.tail.subset hx

section

variable [DecidableEq ι]

/-- What a waiter lacks; nothing when it is not in the line. -/
def lacking (i : ι) : List (ι × ℕ) → ℕ
  | [] => 0
  | (j, n) :: q => if j = i then n else lacking i q

/-- The line without a waiter. -/
def without (i : ι) (q : List (ι × ℕ)) : List (ι × ℕ) := q.filter fun x => decide (x.1 ≠ i)

theorem lacking_append (h : i ∉ q.map Prod.fst) (q' : List (ι × ℕ)) :
    lacking i (q ++ q') = lacking i q' := by
  induction q with
  | nil => rfl
  | cons x q ih =>
    rw [List.map_cons, List.mem_cons, not_or] at h
    exact (if_neg (Ne.symm h.1)).trans (ih h.2)

theorem lacking_of_not_mem (h : i ∉ q.map Prod.fst) : lacking i q = 0 := by
  have happ := lacking_append h []
  rwa [List.append_nil] at happ

theorem without_of_not_mem (h : i ∉ q.map Prod.fst) : without i q = q := by
  refine List.filter_eq_self.mpr fun x hx => decide_eq_true ?_
  rintro rfl
  exact h (List.mem_map_of_mem hx)

theorem not_mem_without (i : ι) (q : List (ι × ℕ)) : i ∉ (without i q).map Prod.fst := by
  intro h
  obtain ⟨x, hx, rfl⟩ := List.mem_map.mp h
  exact of_decide_eq_true (List.mem_filter.mp hx).2 rfl

theorem without_cons_self (h : i ∉ q.map Prod.fst) : without i ((i, n) :: q) = q := by
  unfold without
  rw [List.filter_cons_of_neg (by simp)]
  exact without_of_not_mem h

theorem without_cons_of_ne (h : j ≠ i) : without i ((j, n) :: q) = (j, n) :: without i q :=
  List.filter_cons_of_pos (decide_eq_true h)

theorem without_comm (i j : ι) (q : List (ι × ℕ)) : without i (without j q) = without j (without i q) := by
  unfold without
  rw [List.filter_filter, List.filter_filter]
  exact List.filter_congr fun x _ => Bool.and_comm _ _

theorem lacking_cons_of_ne (h : j ≠ i) : lacking i ((j, n) :: q) = lacking i q := if_neg h

theorem lacking_without_of_ne (h : j ≠ i) (q : List (ι × ℕ)) : lacking i (without j q) = lacking i q := by
  induction q with
  | nil => rfl
  | cons x q ih =>
    obtain ⟨k, n⟩ := x
    by_cases hk : k = j
    · subst hk
      unfold without at ih ⊢
      rw [List.filter_cons_of_neg (by simp), ih, lacking_cons_of_ne h]
    · rw [without_cons_of_ne hk]
      show (if k = i then n else _) = if k = i then n else _
      rw [ih]

/-- A waiter that leaves takes with it what it lacks. -/
theorem owed_without (h : (q.map Prod.fst).Nodup) (i : ι) : owed (without i q) + lacking i q = owed q := by
  induction q with
  | nil => rfl
  | cons x q ih =>
    obtain ⟨j, n⟩ := x
    obtain ⟨hj, hq⟩ := List.nodup_cons.mp h
    by_cases hji : j = i
    · subst hji
      rw [without_cons_self hj]
      show owed q + (if j = j then n else _) = n + owed q
      rw [if_pos rfl, add_comm]
    · rw [without_cons_of_ne hji, lacking_cons_of_ne hji]
      show n + owed (without i q) + lacking i q = n + owed q
      rw [add_assoc, ih hq]

/-- **What the line lacks is what its waiters lack.** -/
theorem owed_eq_sum [Fintype ι] (h : (q.map Prod.fst).Nodup) : owed q = ∑ i, lacking i q := by
  induction q with
  | nil => simp [owed, lacking]
  | cons x q ih =>
    obtain ⟨j, n⟩ := x
    obtain ⟨hj, hq⟩ := List.nodup_cons.mp h
    have hone : ∀ i, lacking i ((j, n) :: q) = lacking i q + if i = j then n else 0 := by
      intro i
      by_cases hij : j = i
      · subst hij
        rw [lacking_of_not_mem hj, if_pos rfl, zero_add]
        exact if_pos rfl
      · rw [lacking_cons_of_ne hij, if_neg (Ne.symm hij), add_zero]
    rw [Finset.sum_congr rfl fun i _ => hone i, Finset.sum_add_distrib, ← ih hq,
      Finset.sum_ite_eq' Finset.univ j fun _ => n, if_pos (Finset.mem_univ j)]
    exact add_comm _ _

theorem lacking_append_of_ne (h : j ≠ i) (q : List (ι × ℕ)) (n : ℕ) :
    lacking i (q ++ [(j, n)]) = lacking i q := by
  induction q with
  | nil => exact if_neg h
  | cons x q ih =>
    show (if x.1 = i then x.2 else _) = if x.1 = i then x.2 else _
    rw [← ih]
    rfl

theorem without_append (i : ι) (q q' : List (ι × ℕ)) : without i (q ++ q') = without i q ++ without i q' :=
  List.filter_append _ _

theorem mem_lacking (h : i ∈ q.map Prod.fst) : (i, lacking i q) ∈ q := by
  induction q with
  | nil => cases h
  | cons x q ih =>
    obtain ⟨j, n⟩ := x
    by_cases hji : j = i
    · subst hji
      rw [show lacking j ((j, n) :: q) = n from if_pos rfl]
      exact List.mem_cons_self
    · rw [lacking_cons_of_ne hji]
      rcases List.mem_cons.mp h with h | h
      · exact absurd h.symm hji
      · exact List.mem_cons_of_mem _ (ih h)

theorem Line.lacking_le (h : Line asked q) (i : ι) : lacking i q ≤ asked i := by
  by_cases hi : i ∈ q.map Prod.fst
  · exact h.le _ (mem_lacking hi)
  · rw [lacking_of_not_mem hi]
    exact Nat.zero_le _

/-- Who lacks nothing is not in the line. -/
theorem Line.lacking_eq_zero (h : Line asked q) : lacking i q = 0 ↔ i ∉ q.map Prod.fst :=
  ⟨fun h₀ hi => absurd h₀ (h.pos _ (mem_lacking hi)).ne', lacking_of_not_mem⟩

/-- **A waiter that gives up after permits were given to the line** could as well have given up before:
what it had been given goes to those behind it. -/
theorem assign_without (hq : (q.map Prod.fst).Nodup) (hk : lacking k q ≤ n) (c : ℕ) :
    assign (without k q) (c + (n - lacking k q)) =
      assign (without k (assign q c).1) ((assign q c).2 + (n - lacking k (assign q c).1)) := by
  induction q generalizing c with
  | nil => rfl
  | cons x q ih =>
    obtain ⟨i, d⟩ := x
    obtain ⟨hi, hnodup⟩ := List.nodup_cons.mp hq
    by_cases hik : i = k
    · subst hik
      have hd : lacking i ((i, d) :: q) = d := if_pos rfl
      rw [hd] at hk ⊢
      rw [without_cons_self hi]
      by_cases hc : d ≤ c
      · have hgone : i ∉ (assign q (c - d)).1.map Prod.fst := by
          rcases assign_cases q (c - d) with h | ⟨j, m, e, r, hr, -, -, h⟩
          · rw [h]
            exact List.not_mem_nil
          · rw [h]
            exact fun hmem => hi ((hr.map Prod.fst).subset hmem)
        rw [assign_of_le hc, without_of_not_mem hgone, lacking_of_not_mem hgone, ← assign_add]
        congr 1
        omega
      · have hleft : lacking i ((i, d - c) :: q) = d - c := if_pos rfl
        rw [assign_of_lt (Nat.lt_of_not_le hc), without_cons_self hi, hleft]
        congr 1
        omega
    · rw [lacking_cons_of_ne hik] at hk ⊢
      rw [without_cons_of_ne hik]
      by_cases hc : d ≤ c
      · rw [assign_of_le hc, assign_of_le (by omega), ← ih hnodup hk]
        congr 1
        omega
      · rw [assign_of_lt (Nat.lt_of_not_le hc), without_cons_of_ne hik, lacking_cons_of_ne hik,
          zero_add]
        have hadd := assign_add ((i, d) :: without k q) c (n - lacking k q)
        rw [assign_of_lt (Nat.lt_of_not_le hc), zero_add] at hadd
        exact hadd

end

/-! ## The semaphore -/

/-- The permits nobody has, and the line. -/
structure Semaphore (ι : Type*) where
  available : ℕ
  queue : List (ι × ℕ)
  deriving DecidableEq

namespace Semaphore

/-- A request takes what there is and waits for the rest. -/
def acquire (σ : Semaphore ι) (i : ι) (n : ℕ) : Semaphore ι :=
  if n ≤ σ.available then { σ with available := σ.available - n }
  else ⟨0, σ.queue ++ [(i, n - σ.available)]⟩

theorem acquire_of_le {σ : Semaphore ι} (h : n ≤ σ.available) :
    σ.acquire i n = { σ with available := σ.available - n } := if_pos h

theorem acquire_of_lt {σ : Semaphore ι} (h : σ.available < n) :
    σ.acquire i n = ⟨0, σ.queue ++ [(i, n - σ.available)]⟩ := if_neg (Nat.not_le.mpr h)

/-- Permits are given back: to the line, and what it leaves is available. -/
def addPermits (σ : Semaphore ι) (k : ℕ) : Semaphore ι :=
  ⟨σ.available + (assign σ.queue k).2, (assign σ.queue k).1⟩

/-- The line is in order, and there is none as long as permits are available. -/
structure Fair (σ : Semaphore ι) (asked : ι → ℕ) : Prop extends Line asked σ.queue where
  idle : σ.queue ≠ [] → σ.available = 0

variable {σ : Semaphore ι}

theorem fair_new (C : ℕ) : Fair ⟨C, []⟩ asked := ⟨line_nil, absurd rfl⟩

theorem Fair.congr (h : σ.Fair asked) (hq : ∀ x ∈ σ.queue, asked' x.1 = asked x.1) : σ.Fair asked' :=
  ⟨h.toLine.congr hq, h.idle⟩

theorem Fair.addPermits (h : σ.Fair asked) (a : ℕ) : (σ.addPermits a).Fair asked := by
  refine ⟨h.toLine.assign a, fun hne => ?_⟩
  obtain ⟨i, n, d, r, hr, -, -, h₁⟩ := (assign_cases σ.queue a).resolve_left hne
  have hq : σ.queue ≠ [] := by
    intro h₀
    rw [h₀] at hr
    exact List.cons_ne_nil _ _ (List.suffix_nil.mp hr)
  have hleft : (assign σ.queue a).2 = 0 := by rw [h₁]
  show σ.available + (assign σ.queue a).2 = 0
  rw [h.idle hq, hleft]

/-- What a request takes off the permits it adds to what the line lacks, up to its own. -/
theorem acquire_balance (σ : Semaphore ι) (i : ι) (n : ℕ) :
    (σ.acquire i n).available + n + owed σ.queue = σ.available + owed (σ.acquire i n).queue := by
  unfold acquire
  split_ifs with h
  · show σ.available - n + n + _ = _
    rw [Nat.sub_add_cancel h]
  · have howed : owed (σ.queue ++ [(i, n - σ.available)]) = owed σ.queue + (n - σ.available) := by
      unfold owed
      rw [List.map_append, List.sum_append]
      rfl
    show 0 + n + owed σ.queue = σ.available + owed (σ.queue ++ [(i, n - σ.available)])
    omega

theorem addPermits_balance (σ : Semaphore ι) (a : ℕ) :
    (σ.addPermits a).available + owed σ.queue = σ.available + owed (σ.addPermits a).queue + a := by
  have := assign_owed σ.queue a
  show σ.available + (assign σ.queue a).2 + _ = _ + owed (assign σ.queue a).1 + a
  omega

theorem addPermits_zero (h : σ.Fair asked) : σ.addPermits 0 = σ := by
  unfold addPermits
  rw [assign_zero h.pos]
  rfl

theorem addPermits_add (σ : Semaphore ι) (a b : ℕ) :
    σ.addPermits (a + b) = (σ.addPermits a).addPermits b := by
  obtain ⟨r, q⟩ := σ
  have hleft : assign q (a + b) = assign (assign q a).1 ((assign q a).2 + b) := assign_add q a b
  unfold addPermits
  rcases assign_cases q a with h | ⟨i, n, d, r', -, -, -, h⟩
  · rw [h] at hleft
    rw [hleft]
    dsimp only
    rw [h]
    exact congrArg (Semaphore.mk · []) (add_assoc r _ _).symm
  · rw [h, zero_add] at hleft
    rw [hleft]
    dsimp only
    rw [h, add_zero]

variable [DecidableEq ι]

/-- What a request that waits still lacks. -/
def lacking (σ : Semaphore ι) (i : ι) : ℕ := Async.lacking i σ.queue

/-- A request for `n` permits gives up: it leaves the line, and what it has been given goes back. -/
def forget (σ : Semaphore ι) (i : ι) (n : ℕ) : Semaphore ι :=
  { σ with queue := without i σ.queue }.addPermits (n - σ.lacking i)

theorem Fair.acquire (h : σ.Fair asked) (hi : i ∉ σ.queue.map Prod.fst) (n : ℕ) :
    (σ.acquire i n).Fair (Function.update asked i n) := by
  have hsame : ∀ x ∈ σ.queue, Function.update asked i n x.1 = asked x.1 := by
    intro x hx
    refine Function.update_of_ne ?_ _ _
    rintro rfl
    exact hi (List.mem_map_of_mem hx)
  unfold Semaphore.acquire
  split_ifs with hn
  · refine ⟨h.toLine.congr hsame, fun hne => ?_⟩
    rw [h.idle hne]
    exact Nat.zero_sub n
  · refine ⟨(h.toLine.congr hsame).join hi (by omega) ?_ fun hne => ?_, fun _ => rfl⟩
    · rw [Function.update_self]
      omega
    · rw [Function.update_self, h.idle hne]
      rfl

theorem Fair.forget (h : σ.Fair asked) (i : ι) (n m : ℕ) :
    (σ.forget i n).Fair (Function.update asked i m) := by
  have hsub : (without i σ.queue).Sublist σ.queue := List.filter_sublist
  have hfair : Fair { σ with queue := without i σ.queue } asked :=
    ⟨h.toLine.sublist hsub, fun hne => h.idle fun h₀ => hne (by rw [h₀]; rfl)⟩
  refine (hfair.congr fun x hx => Function.update_of_ne ?_ _ _).addPermits _
  rintro rfl
  exact not_mem_without x.1 σ.queue (List.mem_map_of_mem hx)

theorem forget_balance (h : σ.Fair asked) (hi : σ.lacking i ≤ n) :
    (σ.forget i n).available + owed σ.queue = σ.available + owed (σ.forget i n).queue + n := by
  have hadd := addPermits_balance { σ with queue := without i σ.queue } (n - σ.lacking i)
  have hleft : owed (without i σ.queue) + σ.lacking i = owed σ.queue := owed_without h.nodup i
  unfold forget
  dsimp only at hadd
  omega

theorem lacking_forget (h : σ.Fair asked) (hi : σ.lacking i = 0) (k : ι) (n : ℕ) :
    (σ.forget k n).lacking i = 0 := by
  refine lacking_of_not_mem fun hmem => h.lacking_eq_zero.mp hi ?_
  have hsub : (without k σ.queue).map Prod.fst ⊆ σ.queue.map Prod.fst :=
    (List.filter_sublist.map Prod.fst).subset
  rcases assign_cases (without k σ.queue) (n - σ.lacking k) with h₀ | ⟨j, m, d, r, hr, -, -, h₁⟩
  · have hnil : (σ.forget k n).queue = [] := h₀
    rw [hnil] at hmem
    cases hmem
  · have hcons : (σ.forget k n).queue = (j, d) :: r := congrArg Prod.fst h₁
    rw [hcons] at hmem
    exact hsub ((hr.map Prod.fst).subset hmem)

theorem forget_of_not_mem (h : i ∉ σ.queue.map Prod.fst) (n : ℕ) : σ.forget i n = σ.addPermits n := by
  unfold forget lacking
  rw [without_of_not_mem h, lacking_of_not_mem h]
  rfl

/-! ## Giving up -/

/-- **A request that gives up at once** leaves the semaphore as it was. -/
theorem acquire_forget (h : σ.Fair asked) (hi : i ∉ σ.queue.map Prod.fst) (n : ℕ) :
    (σ.acquire i n).forget i n = σ := by
  by_cases hn : n ≤ σ.available
  · rw [acquire_of_le hn]
    by_cases hq : σ.queue = []
    · obtain ⟨r, q⟩ := σ
      obtain rfl : q = [] := hq
      exact congrArg (Semaphore.mk · []) (Nat.sub_add_cancel hn)
    · obtain rfl : n = 0 := Nat.le_zero.mp (h.idle hq ▸ hn)
      exact (forget_of_not_mem hi 0).trans (addPermits_zero h)
  · rw [acquire_of_lt (Nat.lt_of_not_le hn)]
    unfold forget lacking
    dsimp only
    rw [lacking_append hi, without_append, without_of_not_mem hi,
      without_cons_self (List.not_mem_nil : i ∉ ([] : List (ι × ℕ)).map Prod.fst), List.append_nil,
      show Async.lacking i [(i, n - σ.available)] = n - σ.available from if_pos rfl,
      Nat.sub_sub_self (Nat.le_of_not_le hn)]
    by_cases hq : σ.queue = []
    · obtain ⟨r, q⟩ := σ
      obtain rfl : q = [] := hq
      exact congrArg (Semaphore.mk · []) (Nat.zero_add r)
    · have hav := h.idle hq
      rw [← hav]
      exact (congrArg σ.addPermits hav).trans (addPermits_zero h)

/-- A request that gives up before another is made, or after it: the other has the same. -/
theorem forget_acquire (h : σ.Fair asked) (hik : i ≠ k) (m n : ℕ) :
    (σ.acquire i m).forget k n = (σ.forget k n).acquire i m := by
  by_cases hm : m ≤ σ.available
  · by_cases hq : σ.queue = []
    · obtain ⟨r, q⟩ := σ
      obtain rfl : q = [] := hq
      rw [acquire_of_le hm, acquire_of_le (Nat.le_add_right_of_le hm)]
      exact congrArg (Semaphore.mk · []) (Nat.sub_add_comm hm).symm
    · obtain rfl : m = 0 := Nat.le_zero.mp (h.idle hq ▸ hm)
      rw [acquire_of_le (Nat.zero_le _), acquire_of_le (Nat.zero_le _)]
      rfl
  · have hpos : ∀ x ∈ [(i, m - σ.available)], 0 < x.2 := by
      intro x hx
      rw [List.mem_singleton.mp hx]
      exact Nat.sub_pos_of_lt (Nat.lt_of_not_le hm)
    have hlast : without k [(i, m - σ.available)] = [(i, m - σ.available)] := without_cons_of_ne hik
    rw [acquire_of_lt (Nat.lt_of_not_le hm)]
    unfold forget lacking addPermits
    dsimp only
    rw [lacking_append_of_ne hik, without_append, hlast, assign_append hpos]
    dsimp only
    generalize assign (without k σ.queue) (n - Async.lacking k σ.queue) = rest
    obtain ⟨q, r⟩ := rest
    dsimp only
    by_cases hr : m - σ.available ≤ r
    · rw [assign_of_le hr, acquire_of_le (by dsimp only; omega)]
      show (⟨0 + (r - (m - σ.available)), q ++ []⟩ : Semaphore ι) = ⟨σ.available + r - m, q⟩
      rw [List.append_nil]
      congr 1
      omega
    · rw [assign_of_lt (Nat.lt_of_not_le hr), acquire_of_lt (by dsimp only; omega)]
      dsimp only
      rw [Nat.sub_add_eq]

/-- **A request that gives up after permits were given back** could as well have given up before. -/
theorem forget_addPermits (hq : (σ.queue.map Prod.fst).Nodup) (hk : σ.lacking k ≤ n) (a : ℕ) :
    (σ.addPermits a).forget k n = (σ.forget k n).addPermits a := by
  have hgive := assign_without hq hk a
  have hright : (σ.forget k n).addPermits a =
      addPermits ⟨σ.available, without k σ.queue⟩ (a + (n - σ.lacking k)) := by
    rw [add_comm a]
    exact (addPermits_add _ _ a).symm
  rw [hright]
  unfold forget addPermits lacking
  dsimp only
  rw [hgive]
  rcases assign_cases σ.queue a with h | ⟨i, m, d, r, -, -, -, h⟩
  · rw [h]
    exact congrArg (Semaphore.mk · []) (add_assoc _ _ _)
  · rw [h, zero_add]
    rfl

theorem forget_forget (hq : (σ.queue.map Prod.fst).Nodup) (hik : i ≠ k) (hi : σ.lacking i ≤ m)
    (hk : σ.lacking k ≤ n) : (σ.forget i m).forget k n = (σ.forget k n).forget i m := by
  have hboth : ∀ {i k : ι} {m n : ℕ}, i ≠ k → σ.lacking k ≤ n → (σ.forget i m).forget k n =
      addPermits ⟨σ.available, without k (without i σ.queue)⟩ ((n - σ.lacking k) + (m - σ.lacking i)) := by
    intro i k m n hik hk
    have hlack : Async.lacking k (without i σ.queue) = σ.lacking k := lacking_without_of_ne hik _
    have hnodup : ((without i σ.queue).map Prod.fst).Nodup :=
      (List.filter_sublist.map Prod.fst).nodup hq
    have hcomm := forget_addPermits (σ := ⟨σ.available, without i σ.queue⟩) hnodup (hlack.trans_le hk)
      (m - σ.lacking i)
    rw [addPermits_add]
    refine hcomm.trans ?_
    unfold forget lacking
    dsimp only
    rw [lacking_without_of_ne hik]
  rw [hboth hik hk, hboth (Ne.symm hik) hi, without_comm, add_comm]

/-! ## Who has the permits -/

/-- What those who wait have been assigned, and what they lack, is what they ask for. -/
theorem Fair.assigned [Fintype ι] (h : σ.Fair asked) :
    ∑ i, (asked i - σ.lacking i) + owed σ.queue = ∑ i, asked i := by
  rw [owed_eq_sum h.nodup, ← Finset.sum_add_distrib]
  exact Finset.sum_congr rfl fun i _ => Nat.sub_add_cancel (h.toLine.lacking_le i)

/-- **When only those who wait have permits**, and each asks for no more than there are, nobody waits and
all permits are available. -/
theorem Fair.drained [Fintype ι] {C : ℕ} (h : σ.Fair asked)
    (hC : σ.available + ∑ i, asked i = C + owed σ.queue) (hwait : ∀ i, 0 < asked i → 0 < σ.lacking i)
    (hle : ∀ i, asked i ≤ C) : σ.queue = [] ∧ σ.available = C := by
  rcases hq : σ.queue with _ | ⟨⟨j, d⟩, q⟩
  · have hnone : ∀ i, asked i = 0 := by
      intro i
      by_contra hi
      have hlack := hwait i (Nat.pos_of_ne_zero hi)
      unfold lacking at hlack
      rw [hq] at hlack
      exact absurd hlack (Nat.lt_irrefl 0)
    rw [hq, Finset.sum_eq_zero fun i _ => hnone i] at hC
    exact ⟨rfl, hC⟩
  · -- all but the first lack all they ask for, so the first has all permits
    have hne : σ.queue ≠ [] := by
      rw [hq]
      exact List.cons_ne_nil _ _
    have hothers : ∀ i, σ.lacking i = Function.update asked j d i := by
      intro i
      by_cases hij : i = j
      · subst hij
        rw [Function.update_self]
        unfold lacking
        rw [hq]
        exact if_pos rfl
      · rw [Function.update_of_ne hij]
        by_cases hi : i ∈ σ.queue.map Prod.fst
        · have hmem : (i, σ.lacking i) ∈ σ.queue := mem_lacking hi
          have htail : (i, σ.lacking i) ∈ σ.queue.tail := by
            rw [hq] at hmem ⊢
            exact (List.mem_cons.mp hmem).resolve_left fun heq => hij (Prod.mk.inj heq).1
          exact h.tail _ htail
        · have hlack : σ.lacking i = 0 := lacking_of_not_mem hi
          have := hwait i
          omega
    have hsum : ∑ i, Function.update asked j d i + asked j = ∑ i, asked i + d :=
      sum_update (fun _ n => n) asked j d
    have hlt := h.pos (j, d) (hq ▸ List.mem_cons_self)
    have hj := hle j
    have howed : owed σ.queue = ∑ i, Function.update asked j d i :=
      (owed_eq_sum h.nodup).trans (Finset.sum_congr rfl fun i _ => hothers i)
    rw [h.idle hne] at hC
    dsimp only at hlt
    omega

end Semaphore

end Async
