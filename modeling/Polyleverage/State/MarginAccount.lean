import Polyleverage.Address
import Polyleverage.Error
import Polyleverage.Exec.Basic
import Polyleverage.Math.Machine

/-! # Margin accounts

A trader's collateral of one mint: free, reserved by open intents, and locked in positions. Every
movement is a debit or a credit of one of the three balances, or a debit followed by a credit.
-/

namespace Polyleverage

open Machine

structure MarginAccount where
  bump : ℕ
  owner : Pubkey
  collateralMint : Pubkey
  freeCollateral : ℕ
  reservedCollateral : ℕ
  lockedCollateral : ℕ
  /-- For display. -/
  realizedPnl : ℤ
  deriving DecidableEq, Repr

abbrev MarginM := Exec ProgramError MarginAccount

/-- The three balances of a margin account. -/
inductive Bucket where
  | free
  | reserved
  | locked
  deriving DecidableEq, Repr

/-- What a debit of more than the balance fails with. -/
def Bucket.insufficient : Bucket → PolyleverageError
  | .free => .insufficientFreeCollateral
  | .reserved => .insufficientReservedCollateral
  | .locked => .insufficientLockedCollateral

namespace MarginAccount

def init (owner collateralMint : Pubkey) (bump : ℕ) : MarginAccount where
  bump
  owner
  collateralMint
  freeCollateral := 0
  reservedCollateral := 0
  lockedCollateral := 0
  realizedPnl := 0

def balance (m : MarginAccount) : Bucket → ℕ
  | .free => m.freeCollateral
  | .reserved => m.reservedCollateral
  | .locked => m.lockedCollateral

def setBalance (m : MarginAccount) (bucket : Bucket) (v : ℕ) : MarginAccount :=
  match bucket with
  | .free => { m with freeCollateral := v }
  | .reserved => { m with reservedCollateral := v }
  | .locked => { m with lockedCollateral := v }

/-- All the collateral of the account. -/
def total (m : MarginAccount) : ℕ := m.freeCollateral + m.reservedCollateral + m.lockedCollateral

def credit (bucket : Bucket) (amount : ℕ) : MarginM Unit := do
  let m ← Exec.get
  let v ← Exec.orErr (checkedAdd 64 (m.balance bucket) amount) PolyleverageError.arithmeticOverflow
  Exec.put (m.setBalance bucket v)

def debit (bucket : Bucket) (amount : ℕ) : MarginM Unit := do
  let m ← Exec.get
  let v ← Exec.orErr (checkedSub (m.balance bucket) amount) bucket.insufficient
  Exec.put (m.setBalance bucket v)

def move (source destination : Bucket) (amount : ℕ) : MarginM Unit := do
  debit source amount
  credit destination amount

def creditFree (amount : ℕ) : MarginM Unit := credit .free amount

def debitFree (amount : ℕ) : MarginM Unit := debit .free amount

def creditLocked (amount : ℕ) : MarginM Unit := credit .locked amount

def debitLocked (amount : ℕ) : MarginM Unit := debit .locked amount

def moveFreeToReserved (amount : ℕ) : MarginM Unit := move .free .reserved amount

def moveReservedToFree (amount : ℕ) : MarginM Unit := move .reserved .free amount

def moveReservedToLocked (amount : ℕ) : MarginM Unit := move .reserved .locked amount

def moveLockedToFree (amount : ℕ) : MarginM Unit := move .locked .free amount

/-- Add to the realized PnL, staying in the signed range. -/
def addRealizedPnl (amount : ℤ) : MarginM Unit :=
  Exec.modify fun m => { m with realizedPnl := saturatingAddSigned 64 m.realizedPnl amount }

def subRealizedPnl (amount : ℤ) : MarginM Unit :=
  Exec.modify fun m => { m with realizedPnl := saturatingSubSigned 64 m.realizedPnl amount }

/-- The account is this owner's, of this mint. -/
def requireOwner (m : MarginAccount) (owner mint : Pubkey) : Except ProgramError Unit :=
  if m.owner ≠ owner ∨ m.collateralMint ≠ mint then .error PolyleverageError.invalidPda else .ok ()

/-- The account is this owner's, of this mint, and has this bump. -/
def requireIdentity (m : MarginAccount) (owner mint : Pubkey) (bump : ℕ) : Except ProgramError Unit :=
  if m.owner ≠ owner ∨ m.collateralMint ≠ mint ∨ m.bump ≠ bump then .error PolyleverageError.invalidPda
  else .ok ()

/-- The owner and the mint are as they were, and so is the bump: the account is still the same one. -/
def SameAccount (m m' : MarginAccount) : Prop :=
  m'.owner = m.owner ∧ m'.collateralMint = m.collateralMint ∧ m'.bump = m.bump

section Balances

variable {m m' : MarginAccount} {amount : ℕ} {u : Unit}

@[simp] theorem balance_setBalance_self (bucket : Bucket) (v : ℕ) : (m.setBalance bucket v).balance bucket = v := by
  cases bucket <;> rfl

theorem balance_setBalance_of_ne {bucket other : Bucket} (v : ℕ) (different : other ≠ bucket) :
    (m.setBalance bucket v).balance other = m.balance other := by
  cases bucket <;> cases other <;> first | rfl | exact absurd rfl different

@[simp] theorem sameAccount_setBalance (bucket : Bucket) (v : ℕ) : m.SameAccount (m.setBalance bucket v) := by
  cases bucket <;> exact ⟨rfl, rfl, rfl⟩

@[simp] theorem requireOwner_ok {owner mint : Pubkey} :
    m.requireOwner owner mint = .ok u ↔ m.owner = owner ∧ m.collateralMint = mint := by
  unfold requireOwner
  split
  next bad => rcases bad with wrong | wrong <;> simp [wrong]
  next good =>
    simp only [not_or, not_not] at good
    simp [good]

@[simp] theorem requireIdentity_ok {owner mint : Pubkey} {bump : ℕ} :
    m.requireIdentity owner mint bump = .ok u ↔ m.owner = owner ∧ m.collateralMint = mint ∧ m.bump = bump := by
  unfold requireIdentity
  split
  next bad => rcases bad with wrong | wrong | wrong <;> simp [wrong]
  next good =>
    simp only [not_or, not_not] at good
    simp [good]

theorem credit_ok {bucket : Bucket} :
    (credit bucket amount).run m = .ok u m' ↔
      m.balance bucket + amount < 2 ^ 64 ∧ m.setBalance bucket (m.balance bucket + amount) = m' := by
  simp only [credit, Exec.bind_ok, Exec.get_ok, Exec.orErr_ok, Exec.put_ok, checkedAdd_eq_some]
  constructor
  · rintro ⟨_, _, ⟨rfl, rfl⟩, _, _, ⟨⟨small, rfl⟩, rfl⟩, rfl⟩
    exact ⟨small, rfl⟩
  · rintro ⟨small, rfl⟩
    exact ⟨m, m, ⟨rfl, rfl⟩, _, m, ⟨⟨small, rfl⟩, rfl⟩, rfl⟩

theorem debit_ok {bucket : Bucket} :
    (debit bucket amount).run m = .ok u m' ↔
      amount ≤ m.balance bucket ∧ m.setBalance bucket (m.balance bucket - amount) = m' := by
  simp only [debit, Exec.bind_ok, Exec.get_ok, Exec.orErr_ok, Exec.put_ok, checkedSub_eq_some]
  constructor
  · rintro ⟨_, _, ⟨rfl, rfl⟩, _, _, ⟨⟨enough, rfl⟩, rfl⟩, rfl⟩
    exact ⟨enough, rfl⟩
  · rintro ⟨enough, rfl⟩
    exact ⟨m, m, ⟨rfl, rfl⟩, _, m, ⟨⟨enough, rfl⟩, rfl⟩, rfl⟩

theorem move_ok {source destination : Bucket} (different : destination ≠ source) :
    (move source destination amount).run m = .ok u m' ↔
      amount ≤ m.balance source ∧ m.balance destination + amount < 2 ^ 64 ∧
        (m.setBalance source (m.balance source - amount)).setBalance destination
          (m.balance destination + amount) = m' := by
  simp only [move, Exec.bind_ok, debit_ok, credit_ok]
  constructor
  · rintro ⟨_, _, ⟨enough, rfl⟩, small, rfl⟩
    rw [balance_setBalance_of_ne _ different] at small ⊢
    exact ⟨enough, small, rfl⟩
  · rintro ⟨enough, small, rfl⟩
    refine ⟨(), _, ⟨enough, rfl⟩, ?_, ?_⟩
    · rwa [balance_setBalance_of_ne _ different]
    · rw [balance_setBalance_of_ne _ different]

end Balances

end MarginAccount

end Polyleverage
