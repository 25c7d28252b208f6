import Mathlib.Algebra.Group.Nat.Defs

/-!
# Natural numbers as `f64`

The cast of an integer to binary64 rounds to 53 significant bits, to the nearest such number and to the
even one of two. In the range of a `u64` there is neither an overflow nor a subnormal.

* `Binary64.round`: the cast;
* `Binary64.Exact`: the numbers of 53 significant bits;
* **`Binary64.round_eq_iff`**: the cast keeps these, and no other.
-/

namespace Binary64

/-- The unit in the last place at the size of `n`. -/
def ulp (n : ℕ) : ℕ := 2 ^ (n.log2 - 52)

/-- **`n as f64`**: the multiple of the unit next to `n`, the even one of two. -/
def round (n : ℕ) : ℕ :=
  let u := ulp n
  let q := n / u
  if u < 2 * (n % u) ∨ (u = 2 * (n % u) ∧ q % 2 = 1) then (q + 1) * u else q * u

/-- `n` has at most 53 significant bits. -/
def Exact (n : ℕ) : Prop := ∃ m e, m < 2 ^ 53 ∧ n = m * 2 ^ e

variable {n : ℕ}

theorem ulp_pos (n : ℕ) : 0 < ulp n := Nat.two_pow_pos _

theorem ulp_dvd_round (n : ℕ) : ulp n ∣ round n := by
  unfold round
  dsimp only
  split <;> exact Nat.dvd_mul_left _ _

theorem round_of_dvd (h : ulp n ∣ n) : round n = n := by
  have hpos := ulp_pos n
  unfold round
  dsimp only
  rw [Nat.mod_eq_zero_of_dvd h, if_neg (by omega), Nat.div_mul_cancel h]

theorem exact_iff : Exact n ↔ ulp n ∣ n := by
  constructor
  · rintro ⟨m, e, hm, rfl⟩
    rcases Nat.eq_zero_or_pos m with rfl | hpos
    · exact (Nat.zero_mul (2 ^ e)).symm ▸ Nat.dvd_zero _
    · have hlt : (m * 2 ^ e).log2 < 53 + e := by
        rw [Nat.log2_lt (Nat.ne_of_gt (Nat.mul_pos hpos (Nat.two_pow_pos e))), Nat.pow_add]
        exact Nat.mul_lt_mul_of_pos_right hm (Nat.two_pow_pos e)
      exact Nat.dvd_mul_left_of_dvd (Nat.pow_dvd_pow 2 (by omega)) m
  · intro h
    refine ⟨n / ulp n, n.log2 - 52, ?_, (Nat.div_mul_cancel h).symm⟩
    unfold ulp
    rw [Nat.div_lt_iff_lt_mul (Nat.two_pow_pos _), ← Nat.pow_add]
    exact Nat.lt_of_lt_of_le Nat.lt_log2_self (Nat.pow_le_pow_right (by decide) (by omega))

/-- **The cast keeps the numbers of 53 bits, and no other.** -/
theorem round_eq_iff : round n = n ↔ Exact n := by
  rw [exact_iff]
  constructor
  · intro h
    have hdvd := ulp_dvd_round n
    rwa [h] at hdvd
  · exact round_of_dvd

theorem exact_of_lt (h : n < 2 ^ 53) : Exact n := ⟨n, 0, h, (Nat.mul_one n).symm⟩

/-- The first number that the cast changes. -/
example : round (2 ^ 53 + 1) = 2 ^ 53 := by decide

end Binary64
