import Mathlib.Order.Compare
import Mathlib.Order.Defs.LinearOrder
import Mathlib.Order.Nat

/-! # Addresses

A public key is 32 bytes, read as one big-endian number, so that keys compare like their bytes. The
program derives the addresses of its own accounts from seeds.
-/

namespace Polyleverage

structure Pubkey where
  value : ℕ
  deriving DecidableEq, Repr

namespace Pubkey

def compare (a b : Pubkey) : Ordering := Ord.compare a.value b.value

theorem compare_eq_iff {a b : Pubkey} : compare a b = .eq ↔ a = b := by
  unfold compare
  rw [compare_eq_iff_eq]
  constructor
  · intro same
    exact congrArg mk same
  · rintro rfl
    rfl

instance : Std.TransCmp compare where
  eq_swap := by
    intro a b
    exact (inferInstance : Std.OrientedCmp fun x y : ℕ => Ord.compare x y).eq_swap
  isLE_trans := by
    intro a b c ab bc
    exact (inferInstance : Std.TransCmp fun x y : ℕ => Ord.compare x y).isLE_trans ab bc

/-- The default key is all zeros. -/
instance : Inhabited Pubkey := ⟨⟨0⟩⟩

end Pubkey

/-- The seeds of the addresses the program derives: a constant for the kind of account, and the keys
and numbers that single out one of them. -/
inductive Seeds where
  | config
  | margin (owner mint : Pubkey)
  | vault (mint : Pubkey)
  | instrument (source marketId leverageBps collateralBucket twapWindowSlots : ℕ)
  | book (instrument : Pubkey)
  | pmlc (instrument : Pubkey) (id : ℕ)
  | feeSchedule
  | userVolume (owner mint : Pubkey)
  | treasury (mint : Pubkey)
  | marketNonce (marketId : ℕ)
  | timelock (proposalId : ℕ)
  | adminMultisig
  | bucketRegistry
  | stablecoinRegistry
  | wusdMint
  | wusdAuthority
  | session (owner : Pubkey)
  deriving DecidableEq, Repr

end Polyleverage
