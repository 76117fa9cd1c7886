import Mathlib.Tactic.NormNum
import Polyleverage.Math.Fixed
import Polyleverage.Math.Rounding

/-! # The PnL as computed

The size of a position has 128 bits without a sign, the product has 128 bits with one. Below half of the
unsigned range the PnL is the exact one whenever it is computed at all, it grows with the mark, and it is
within two atoms of the notional times the return.
-/

namespace Polyleverage

open Machine

variable {entryFp markFp sizeFp : ℕ} {v : ℤ}

/-- The long side's PnL over the integers. -/
def exactPnl (entryFp markFp sizeFp : ℕ) : ℤ := (((markFp : ℤ) - entryFp) * sizeFp).tdiv PRICE_ONE

theorem toSigned_of_lt {w a : ℕ} (small : a < 2 ^ (w - 1)) : toSigned w a = a := if_pos small

theorem toSigned_of_le {w a : ℕ} (large : 2 ^ (w - 1) ≤ a) : toSigned w a = (a : ℤ) - 2 ^ w :=
  if_neg (Nat.not_lt.mpr large)

theorem pnlLongAtoms_ok : pnlLongAtoms entryFp markFp sizeFp = .ok v ↔
    FitsSigned 128 (((markFp : ℤ) - entryFp) * toSigned 128 sizeFp) ∧
      (((markFp : ℤ) - entryFp) * toSigned 128 sizeFp).tdiv PRICE_ONE = v := by
  rw [pnlLongAtoms, orOverflow_ok, checkedMulSigned]
  split
  next fits => simp [fits]
  next large => simp [large]

/-- Where it is not computed, the product did not fit. -/
theorem pnlLongAtoms_error : pnlLongAtoms entryFp markFp sizeFp = .error PolyleverageError.arithmeticOverflow ↔
    ¬ FitsSigned 128 (((markFp : ℤ) - entryFp) * toSigned 128 sizeFp) := by
  rw [pnlLongAtoms, checkedMulSigned]
  split
  next fits => simp [fits, orOverflow]
  next large => simp [large, orOverflow]

/-- The computed PnL of a size in the lower half is exact. -/
theorem eq_exactPnl (small : sizeFp < 2 ^ 127) (computed : pnlLongAtoms entryFp markFp sizeFp = .ok v) :
    v = exactPnl entryFp markFp sizeFp := by
  rw [pnlLongAtoms_ok, toSigned_of_lt small] at computed
  exact computed.2.symm

theorem exactPnl_self : exactPnl entryFp entryFp sizeFp = 0 := by
  rw [exactPnl, sub_self, zero_mul, Int.zero_tdiv]

/-- The PnL grows with the mark. -/
theorem exactPnl_mono {markFp' : ℕ} (le : markFp ≤ markFp') :
    exactPnl entryFp markFp sizeFp ≤ exactPnl entryFp markFp' sizeFp := by
  apply Int.tdiv_le_tdiv (by decide)
  apply Int.mul_le_mul_of_nonneg_right _ (Int.natCast_nonneg sizeFp)
  omega

theorem exactPnl_nonneg (le : entryFp ≤ markFp) : 0 ≤ exactPnl entryFp markFp sizeFp := by
  rw [← @exactPnl_self entryFp sizeFp]
  exact exactPnl_mono le

theorem exactPnl_nonpos (le : markFp ≤ entryFp) : exactPnl entryFp markFp sizeFp ≤ 0 := by
  rw [← @exactPnl_self entryFp sizeFp]
  exact exactPnl_mono le

/-- A size in the upper half is read as a negative one, and every mark but the entry shows it. -/
theorem tdiv_wrapped_ne {δ : ℤ} (moved : δ ≠ 0) :
    (δ * ((sizeFp : ℤ) - 2 ^ 128)).tdiv PRICE_ONE ≠ (δ * sizeFp).tdiv PRICE_ONE := by
  intro same
  have first := Int.tdiv_mul_self (δ * ((sizeFp : ℤ) - 2 ^ 128)) PRICE_ONE
  have second := Int.tdiv_mul_self (δ * sizeFp) PRICE_ONE
  have small := Int.natAbs_tmod (δ * ((sizeFp : ℤ) - 2 ^ 128)) PRICE_ONE
  have small' := Int.natAbs_tmod (δ * sizeFp) PRICE_ONE
  have bound := Nat.mod_lt (δ * ((sizeFp : ℤ) - 2 ^ 128)).natAbs (show 0 < (PRICE_ONE : ℤ).natAbs by decide)
  have bound' := Nat.mod_lt (δ * (sizeFp : ℤ)).natAbs (show 0 < (PRICE_ONE : ℤ).natAbs by decide)
  -- The products differ by a multiple of the whole range, the remainders by less than two units.
  have apart : δ * ((sizeFp : ℤ) - 2 ^ 128) = δ * sizeFp - δ * 2 ^ 128 := by rw [mul_sub]
  rw [same, second, apart] at first
  rw [apart] at small bound
  have unit : (PRICE_ONE : ℤ).natAbs = 1000000000000000000 := rfl
  omega

/-- What is computed is exact, and never has the wrong sign, if and only if the size is in the lower half, or the
mark is the entry, or the product with the size read as a negative number is rejected as well. -/
theorem pnlLongAtoms_exact_iff (bounded : sizeFp < 2 ^ 128) :
    (∀ v, pnlLongAtoms entryFp markFp sizeFp = .ok v → v = exactPnl entryFp markFp sizeFp ∧
      (entryFp ≤ markFp → 0 ≤ v) ∧ (markFp ≤ entryFp → v ≤ 0)) ↔
      sizeFp < 2 ^ 127 ∨ markFp = entryFp ∨ ¬ FitsSigned 128 (((markFp : ℤ) - entryFp) * ((sizeFp : ℤ) - 2 ^ 128)) := by
  constructor
  · intro exact
    by_contra fails
    rw [not_or, not_or, not_not, Nat.not_lt] at fails
    obtain ⟨large, moved, fits⟩ := fails
    have computed : pnlLongAtoms entryFp markFp sizeFp =
        .ok ((((markFp : ℤ) - entryFp) * ((sizeFp : ℤ) - 2 ^ 128)).tdiv PRICE_ONE) := by
      rw [pnlLongAtoms_ok, toSigned_of_le large]
      exact ⟨fits, rfl⟩
    exact tdiv_wrapped_ne (by omega) (exact _ computed).1
  · intro condition v computed
    have same : v = exactPnl entryFp markFp sizeFp := by
      rcases Nat.lt_or_ge sizeFp (2 ^ 127) with small | large
      · exact eq_exactPnl small computed
      · rw [pnlLongAtoms_ok, toSigned_of_le large] at computed
        rcases condition with small | rfl | rejected
        · omega
        · rw [exactPnl_self, ← computed.2, sub_self, zero_mul, Int.zero_tdiv]
        · exact absurd computed.1 rejected
    subst same
    exact ⟨rfl, exactPnl_nonneg, exactPnl_nonpos⟩

/-- The product fits at every mark if and only if it does so at the lowest and at the highest one. -/
theorem pnlLongAtoms_defined_iff :
    (∀ markFp < PRICE_ONE, pnlLongAtoms entryFp markFp sizeFp ≠ .error PolyleverageError.arithmeticOverflow) ↔
      FitsSigned 128 (-(entryFp : ℤ) * toSigned 128 sizeFp) ∧
      FitsSigned 128 (((PRICE_ONE : ℤ) - 1 - entryFp) * toSigned 128 sizeFp) := by
  simp only [ne_eq, pnlLongAtoms_error, not_not]
  constructor
  · intro fits
    have lowest := fits 0 (by decide)
    have highest := fits (PRICE_ONE - 1) (by decide)
    rw [Nat.cast_zero, zero_sub] at lowest
    rw [Nat.cast_sub (by decide), Nat.cast_one] at highest
    exact ⟨lowest, highest⟩
  · rintro ⟨lowest, highest⟩ markFp mark_lt
    unfold FitsSigned at lowest highest ⊢
    -- In between, the product lies between the two.
    have low : -(entryFp : ℤ) ≤ (markFp : ℤ) - entryFp := by omega
    have high : (markFp : ℤ) - entryFp ≤ (PRICE_ONE : ℤ) - 1 - entryFp := by omega
    rcases Int.le_total 0 (toSigned 128 sizeFp) with positive | negative
    · have above := Int.mul_le_mul_of_nonneg_right low positive
      have below := Int.mul_le_mul_of_nonneg_right high positive
      omega
    · have above := Int.mul_le_mul_of_nonpos_right low negative
      have below := Int.mul_le_mul_of_nonpos_right high negative
      omega

/-! ### The notional times the return -/

theorem positionSizeFp_ok {notional size : ℕ} : positionSizeFp notional entryFp = .ok size ↔
    entryFp ≠ 0 ∧ notional * PRICE_ONE < 2 ^ 128 ∧ notional * PRICE_ONE / entryFp = size := by
  unfold positionSizeFp
  split
  next zero => simp [zero]
  next positive =>
    simp [positive, checkedMul]

/-- A size that is computed has 128 bits. -/
theorem positionSizeFp_lt {notional size : ℕ} (sized : positionSizeFp notional entryFp = .ok size) : size < 2 ^ 128 := by
  obtain ⟨-, small, rfl⟩ := positionSizeFp_ok.mp sized
  exact lt_of_le_of_lt (Nat.div_le_self _ _) small

/-- The PnL is within two atoms of the notional times the return. -/
theorem abs_pnl_sub_lt_two {notional : ℕ} (sized : positionSizeFp notional entryFp = .ok sizeFp)
    (small : sizeFp < 2 ^ 127) (entry_lt : entryFp < PRICE_ONE) (mark_lt : markFp < PRICE_ONE)
    (computed : pnlLongAtoms entryFp markFp sizeFp = .ok v) :
    |(v : ℚ) - notional * ((markFp : ℚ) - entryFp) / entryFp| < 2 := by
  obtain ⟨entry, -, rfl⟩ := positionSizeFp_ok.mp sized
  have within_one : |(markFp : ℤ) - entryFp| < PRICE_ONE := by
    rw [abs_lt]
    omega
  have near := Rounding.abs_scaled_sub_lt_two (K := ℚ) notional (Nat.pos_of_ne_zero entry) within_one
  rw [eq_exactPnl small computed]
  push_cast at near
  exact near

/-! ### Equities -/

/-- A larger PnL is no smaller an equity. -/
theorem boundedEquity_mono {c : ℕ} (small : 2 * c < 2 ^ 64) {pnl pnl' : ℤ} (le : pnl ≤ pnl') :
    boundedEquity c pnl ≤ boundedEquity c pnl' := by
  have first := boundedEquity_eq small pnl
  have second := boundedEquity_eq small pnl'
  omega

/-- Two PnLs that are close give equities that are close. -/
theorem abs_boundedEquity_sub_le {c : ℕ} (small : 2 * c < 2 ^ 64) (pnl : ℤ) (x : ℚ) :
    |(boundedEquity c pnl : ℚ) - max 0 (min (c + x) (2 * c))| ≤ |(pnl : ℚ) - x| := by
  have eq : (boundedEquity c pnl : ℚ) = max 0 (min ((c : ℚ) + (pnl : ℚ)) (2 * (c : ℚ))) := by
    exact_mod_cast congrArg (fun e : ℤ => (e : ℚ)) (boundedEquity_eq small pnl)
  have close := Rounding.abs_clamp_sub_clamp_le 0 (2 * c : ℚ) (c + pnl) (c + x)
  rw [← eq, add_sub_add_left_eq_sub] at close
  exact close

end Polyleverage
