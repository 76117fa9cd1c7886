import Mathlib.Algebra.Order.Field.Basic
import Mathlib.Algebra.Order.Group.MinMax
import Mathlib.Algebra.Order.Ring.Abs
import Mathlib.Algebra.Order.Ring.Cast
import Mathlib.Data.Nat.Cast.Order.Field
import Mathlib.Tactic.FieldSimp
import Mathlib.Tactic.Linarith
import Mathlib.Tactic.Ring

/-! # Rounding errors

Integer division rounds towards zero. Each rounding is off by less than one unit, in any ordered field,
and two of them in a row by less than two.
-/

namespace Rounding

variable {K : Type*} [Field K] [LinearOrder K] [IsStrictOrderedRing K]

/-- Rounding towards zero is off by less than one. -/
theorem abs_tdiv_sub_lt_one (a : ℤ) {d : ℤ} (positive : 0 < d) : |((a.tdiv d : ℤ) : K) - a / d| < 1 := by
  have positive' : (0 : K) < d := by exact_mod_cast positive
  have split : (a : K) = (a.tdiv d : ℤ) * d + (a.tmod d : ℤ) := by
    exact_mod_cast (show a = a.tdiv d * d + a.tmod d by rw [Int.tdiv_mul_self]; omega)
  have rest : ((a.tdiv d : ℤ) : K) - a / d = -((a.tmod d : ℤ) : K) / d := by
    rw [split]
    field_simp
    ring
  have small : |a.tmod d| < d := by
    have size := Int.natAbs_tmod a d
    have bound := Nat.mod_lt a.natAbs (show 0 < d.natAbs by omega)
    rw [abs_lt]
    omega
  rw [rest, abs_div, abs_neg, abs_of_pos positive', div_lt_one positive']
  exact_mod_cast small

/-- Rounding a fraction down loses less than one. -/
theorem sub_natDiv_mem (n : ℕ) {e : ℕ} (positive : 0 < e) :
    0 ≤ (n : K) / e - (n / e : ℕ) ∧ (n : K) / e - (n / e : ℕ) < 1 := by
  have positive' : (0 : K) < e := by exact_mod_cast positive
  have above : (n : K) < ((n / e : ℕ) + 1) * e := by
    exact_mod_cast (show n < (n / e + 1) * e by
      rw [Nat.mul_comm]
      exact Nat.lt_mul_div_succ n positive)
  constructor
  · exact sub_nonneg.mpr Nat.cast_div_le
  · rw [sub_lt_iff_lt_add, div_lt_iff₀ positive', add_comm]
    exact above

/-- A quantity scaled up by `d`, divided, multiplied by less than `d` and scaled down again is off by less
than two. -/
theorem abs_scaled_sub_lt_two (n : ℕ) {d e : ℕ} {δ : ℤ} (divisor : 0 < e) (within_scale : |δ| < d) :
    |(((δ * (n * d / e : ℕ)).tdiv d : ℤ) : K) - n * δ / e| < 2 := by
  have scale : 0 < (d : ℤ) := lt_of_le_of_lt (abs_nonneg δ) within_scale
  have scale' : (0 : K) < d := by exact_mod_cast scale
  have divisor' : (0 : K) < e := by exact_mod_cast divisor
  have second : |(((δ * (n * d / e : ℕ)).tdiv d : ℤ) : K) - (δ * (n * d / e : ℕ) : ℤ) / (d : ℤ)| < 1 :=
    abs_tdiv_sub_lt_one _ scale
  have factor : |(δ : K) / d| < 1 := by
    rw [abs_div, abs_of_pos scale', div_lt_one scale']
    exact_mod_cast within_scale
  have lost := sub_natDiv_mem (K := K) (n * d) divisor
  generalize n * d / e = q at second lost ⊢
  have first : |((δ * q : ℤ) : K) / (d : ℤ) - n * δ / e| < 1 := by
    have split : ((δ * q : ℤ) : K) / (d : ℤ) - n * δ / e = -((δ : K) / d * (((n * d : ℕ) : K) / e - q)) := by
      push_cast
      field_simp
      ring
    rw [split, abs_neg, abs_mul, abs_of_nonneg lost.1]
    exact mul_lt_one_of_nonneg_of_lt_one_left (abs_nonneg _) factor lost.2.le
  calc
    _ = |((((δ * q).tdiv d : ℤ) : K) - (δ * q : ℤ) / (d : ℤ)) + (((δ * q : ℤ) : K) / (d : ℤ) - n * δ / e)| := by
      rw [sub_add_sub_cancel]
    _ ≤ _ := abs_add_le _ _
    _ < 1 + 1 := add_lt_add second first
    _ = 2 := one_add_one_eq_two

/-- Holding two values within the same bounds does not drive them apart. -/
theorem abs_clamp_sub_clamp_le (low high x y : K) :
    |max low (min x high) - max low (min y high)| ≤ |x - y| := by
  rw [max_comm low, max_comm low]
  refine (abs_max_sub_max_le_abs _ _ _).trans ((abs_min_sub_min_le_max _ _ _ _).trans ?_)
  simp

end Rounding
