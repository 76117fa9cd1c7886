import Mathlib.Algebra.Order.Ring.Int

/-! # Machine integers

Unsigned values are natural numbers with explicit bounds; signed values are integers. A checked
operation has no result outside its range, a saturating one stops at the end of it, and a cast keeps
the low bits.
-/

namespace Machine

/-- The largest unsigned value of `w` bits. -/
def maxValue (w : ℕ) : ℕ := 2 ^ w - 1

def checkedAdd (w a b : ℕ) : Option ℕ := if a + b < 2 ^ w then some (a + b) else none

def checkedSub (a b : ℕ) : Option ℕ := if b ≤ a then some (a - b) else none

def checkedMul (w a b : ℕ) : Option ℕ := if a * b < 2 ^ w then some (a * b) else none

def saturatingAdd (w a b : ℕ) : ℕ := min (a + b) (maxValue w)

/-- Subtraction of natural numbers already stops at zero. -/
def saturatingSub (a b : ℕ) : ℕ := a - b

def saturatingMul (w a b : ℕ) : ℕ := min (a * b) (maxValue w)

/-- Cast to `w` unsigned bits. -/
def truncate (w a : ℕ) : ℕ := a % 2 ^ w

/-- Read `w` unsigned bits as a signed value. -/
def toSigned (w a : ℕ) : ℤ := if a < 2 ^ (w - 1) then (a : ℤ) else (a : ℤ) - 2 ^ w

/-- Whether an integer fits into `w` signed bits. -/
def FitsSigned (w : ℕ) (v : ℤ) : Prop := -2 ^ (w - 1) ≤ v ∧ v < 2 ^ (w - 1)

instance (w : ℕ) (v : ℤ) : Decidable (FitsSigned w v) :=
  inferInstanceAs (Decidable (_ ∧ _))

def checkedMulSigned (w : ℕ) (a b : ℤ) : Option ℤ := if FitsSigned w (a * b) then some (a * b) else none

/-- Stop at the ends of the signed range of `w` bits. -/
def clampSigned (w : ℕ) (v : ℤ) : ℤ := max (-2 ^ (w - 1)) (min v (2 ^ (w - 1) - 1))

def saturatingAddSigned (w : ℕ) (a b : ℤ) : ℤ := clampSigned w (a + b)

def saturatingSubSigned (w : ℕ) (a b : ℤ) : ℤ := clampSigned w (a - b)

def saturatingMulSigned (w : ℕ) (a b : ℤ) : ℤ := clampSigned w (a * b)

variable {w a b c : ℕ}

theorem checkedAdd_eq_some : checkedAdd w a b = some c ↔ a + b < 2 ^ w ∧ a + b = c := by
  unfold checkedAdd
  split
  next small => simp [small]
  next large => simp only [reduceCtorEq, false_iff, not_and_or]; exact .inl large

theorem checkedSub_eq_some : checkedSub a b = some c ↔ b ≤ a ∧ a - b = c := by
  unfold checkedSub
  split
  next enough => simp [enough]
  next short => simp only [reduceCtorEq, false_iff, not_and_or]; exact .inl short

theorem checkedMul_eq_some : checkedMul w a b = some c ↔ a * b < 2 ^ w ∧ a * b = c := by
  unfold checkedMul
  split
  next small => simp [small]
  next large => simp only [reduceCtorEq, false_iff, not_and_or]; exact .inl large

theorem truncate_of_lt (small : a < 2 ^ w) : truncate w a = a := Nat.mod_eq_of_lt small

theorem saturatingMul_of_lt (small : a * b < 2 ^ w) : saturatingMul w a b = a * b :=
  Nat.min_eq_left (Nat.le_sub_one_of_lt small)

end Machine
