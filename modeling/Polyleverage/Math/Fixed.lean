import Polyleverage.Error
import Polyleverage.Math.Machine

/-! # Fixed-point prices

A price is an integer number of units of `10⁻¹⁸`, strictly between zero and one. Notional, size and
PnL are computed in 128 bits.
-/

namespace Polyleverage

open Machine

/-- One unit of price. -/
def PRICE_ONE : ℕ := 1000000000000000000

/-- Basis points in one. -/
def BPS_DENOM : ℕ := 10000

def validatePrice (priceFp : ℕ) : Except ProgramError Unit :=
  if priceFp = 0 ∨ PRICE_ONE ≤ priceFp then .error PolyleverageError.invalidPriceRange else .ok ()

/-- A limit price is strictly between zero and one and a multiple of the tick. -/
def validatePriceTicked (priceFp tickFp : ℕ) : Except ProgramError Unit := do
  validatePrice priceFp
  if tickFp = 0 ∨ priceFp % tickFp ≠ 0 then .error PolyleverageError.priceNotTickAligned else .ok ()

/-- The entry price of two crossing orders, halfway between their limits, rounded down. -/
def priceMidpoint (a b : ℕ) : ℕ := a / 2 + b / 2 + ((a &&& 1) &&& (b &&& 1))

def orOverflow {α : Type} (value : Option α) : Except ProgramError α :=
  match value with
  | some a => .ok a
  | none => .error PolyleverageError.arithmeticOverflow

@[simp] theorem orOverflow_ok {α : Type} {value : Option α} {a : α} : orOverflow value = .ok a ↔ value = some a := by
  cases value <;> simp [orOverflow]

/-- Collateral times leverage, in quote atoms. -/
def notionalAtoms (collateralBucket leverageBps : ℕ) : Except ProgramError ℕ :=
  orOverflow ((checkedMul 128 collateralBucket leverageBps).map (· / BPS_DENOM))

def positionSizeFp (notional entryPriceFp : ℕ) : Except ProgramError ℕ :=
  if entryPriceFp = 0 then .error PolyleverageError.divisionByZero
  else orOverflow ((checkedMul 128 notional PRICE_ONE).map (· / entryPriceFp))

/-- The long side's PnL: `(mark - entry) * size`, rounded towards zero. -/
def pnlLongAtoms (entryFp markFp sizeFp : ℕ) : Except ProgramError ℤ :=
  orOverflow ((checkedMulSigned 128 ((markFp : ℤ) - entryFp) (toSigned 128 sizeFp)).map
    (Int.tdiv · PRICE_ONE))

/-- The long side's equity, held between zero and twice the collateral. -/
def boundedEquity (collateralAtoms : ℕ) (pnl : ℤ) : ℕ :=
  let eq := saturatingAddSigned 128 collateralAtoms pnl
  let bound := saturatingMulSigned 128 collateralAtoms 2
  truncate 64 (max 0 (min eq bound)).toNat

theorem validatePriceTicked_ok {priceFp tickFp : ℕ} :
    validatePriceTicked priceFp tickFp = .ok () ↔
      0 < priceFp ∧ priceFp < PRICE_ONE ∧ tickFp ≠ 0 ∧ priceFp % tickFp = 0 := by
  unfold validatePriceTicked validatePrice
  by_cases range : priceFp = 0 ∨ PRICE_ONE ≤ priceFp
  · simp only [range, if_true, bind, Except.bind]
    constructor
    · intro h
      cases h
    · omega
  · by_cases tick : tickFp = 0 ∨ priceFp % tickFp ≠ 0
    · simp only [range, tick, if_true, if_false, bind, Except.bind]
      constructor
      · intro h
        cases h
      · omega
    · simp only [range, tick, if_false, bind, Except.bind, true_iff]
      omega

/-- The last bits of two odd prices make up for what halving drops. -/
theorem priceMidpoint_eq (a b : ℕ) : priceMidpoint a b = (a + b) / 2 := by
  have odd : (a &&& 1) &&& (b &&& 1) = a % 2 * (b % 2) := by
    rw [Nat.and_one_is_mod, Nat.and_one_is_mod]
    rcases Nat.mod_two_eq_zero_or_one a with h | h <;>
      rcases Nat.mod_two_eq_zero_or_one b with l | l <;> simp [h, l]
  rw [priceMidpoint, odd]
  rcases Nat.mod_two_eq_zero_or_one a with h | h <;>
    rcases Nat.mod_two_eq_zero_or_one b with l | l <;> rw [h, l] <;> omega

/-- The entry lies between the two limits. -/
theorem priceMidpoint_between {low high : ℕ} (cross : low ≤ high) :
    low ≤ priceMidpoint high low ∧ priceMidpoint high low ≤ high := by
  rw [priceMidpoint_eq]
  omega

/-- Where twice the collateral fits into 64 bits, no cast and no saturation is felt. -/
theorem boundedEquity_eq {c : ℕ} (small : 2 * c < 2 ^ 64) (pnl : ℤ) :
    (boundedEquity c pnl : ℤ) = max 0 (min (c + pnl) (2 * c)) := by
  have bound : saturatingMulSigned 128 c 2 = 2 * c := by
    unfold saturatingMulSigned clampSigned
    omega
  have held : max 0 (min (saturatingAddSigned 128 c pnl) (2 * c)) = max 0 (min (c + pnl) (2 * c)) := by
    unfold saturatingAddSigned clampSigned
    omega
  simp only [boundedEquity, bound, held]
  rw [truncate_of_lt (by omega)]
  omega

/-- No cast and no saturation adds to it. -/
theorem boundedEquity_le (c : ℕ) (pnl : ℤ) : boundedEquity c pnl ≤ 2 * c := by
  have bound : saturatingMulSigned 128 c 2 ≤ 2 * c := by
    unfold saturatingMulSigned clampSigned
    omega
  simp only [boundedEquity]
  refine Nat.le_trans (Nat.mod_le _ _) ?_
  omega

end Polyleverage
