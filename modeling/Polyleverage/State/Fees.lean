import Polyleverage.Address
import Polyleverage.Error
import Polyleverage.Exec.Basic
import Polyleverage.Math.Machine

/-! # Fee schedule, treasury and volumes -/

namespace Polyleverage

open Machine

/-! ### Fee schedule -/

def FEE_SCHEDULE_MAX_TIERS : ℕ := 8

structure FeeTierRaw where
  volumeThreshold : ℕ
  feeBps : ℕ
  deriving DecidableEq, Repr

abbrev FeeTiers := Vector FeeTierRaw FEE_SCHEDULE_MAX_TIERS

structure FeeSchedule where
  bump : ℕ
  tiers : FeeTiers
  maxTierFeeBps : ℕ
  lastUpdatedSlot : ℕ
  deriving DecidableEq, Repr

def computeMaxFeeBps (tiers : FeeTiers) : ℕ :=
  tiers.toList.foldl (fun bound tier => if bound < tier.feeBps then tier.feeBps else bound) 0

/-- Thresholds ascend from `prev` on, and no tier takes more than a tenth. -/
def validateTiersFrom : ℕ → List FeeTierRaw → Except ProgramError Unit
  | _, [] => .ok ()
  | prev, tier :: rest =>
    if tier.volumeThreshold < prev then .error PolyleverageError.invalidInstructionData
    else if 1000 < tier.feeBps then .error PolyleverageError.invalidInstructionData
    else validateTiersFrom tier.volumeThreshold rest

def validateTiers (tiers : FeeTiers) : Except ProgramError Unit := validateTiersFrom 0 tiers.toList

namespace FeeSchedule

def init (tiers : FeeTiers) (nowSlot bump : ℕ) : FeeSchedule where
  bump
  tiers
  maxTierFeeBps := computeMaxFeeBps tiers
  lastUpdatedSlot := nowSlot

/-- The fee of the last tier whose threshold is reached, or of the first tier. -/
def feeForVolume (s : FeeSchedule) (volume30d : ℕ) : ℕ :=
  s.tiers.toList.foldl (fun found tier => if tier.volumeThreshold ≤ volume30d then tier.feeBps else found)
    s.tiers[0].feeBps

end FeeSchedule

/-- Valid tiers take at most a tenth. -/
theorem feeBps_le_of_validateTiersFrom {prev : ℕ} {tiers : List FeeTierRaw}
    (valid : validateTiersFrom prev tiers = .ok ()) : ∀ tier ∈ tiers, tier.feeBps ≤ 1000 := by
  induction tiers generalizing prev with
  | nil => simp
  | cons tier rest ih =>
    unfold validateTiersFrom at valid
    split at valid
    · cases valid
    · split at valid
      · cases valid
      next small =>
        intro t member
        rcases List.mem_cons.mp member with rfl | member
        · omega
        · exact ih valid t member

/-! ### Fee treasury -/

/-- The fees of one collateral mint that were charged and not swept yet. -/
structure FeeTreasury where
  bump : ℕ
  collateralMint : Pubkey
  accruedAtoms : ℕ
  totalSweptAtoms : ℕ
  deriving DecidableEq, Repr

namespace FeeTreasury

def init (collateralMint : Pubkey) (bump : ℕ) : FeeTreasury where
  bump
  collateralMint
  accruedAtoms := 0
  totalSweptAtoms := 0

def accrue (amount : ℕ) : Exec ProgramError FeeTreasury Unit := do
  let t ← Exec.get
  let accrued ← Exec.orErr (checkedAdd 64 t.accruedAtoms amount) PolyleverageError.arithmeticOverflow
  Exec.put { t with accruedAtoms := accrued }

def sweep (amount : ℕ) : Exec ProgramError FeeTreasury Unit := do
  let t ← Exec.get
  let accrued ← Exec.orErr (checkedSub t.accruedAtoms amount) PolyleverageError.arithmeticOverflow
  Exec.put { t with accruedAtoms := accrued }
  let swept ← Exec.orErr (checkedAdd 64 t.totalSweptAtoms amount) PolyleverageError.arithmeticOverflow
  Exec.modify fun t => { t with totalSweptAtoms := swept }

theorem accrue_ok {t t' : FeeTreasury} {amount : ℕ} {u : Unit} :
    (accrue amount).run t = .ok u t' ↔
      t.accruedAtoms + amount < 2 ^ 64 ∧ { t with accruedAtoms := t.accruedAtoms + amount } = t' := by
  simp only [accrue, Exec.bind_ok, Exec.get_ok, Exec.orErr_ok, Exec.put_ok, checkedAdd_eq_some]
  constructor
  · rintro ⟨_, _, ⟨rfl, rfl⟩, _, _, ⟨⟨small, rfl⟩, rfl⟩, rfl⟩
    exact ⟨small, rfl⟩
  · rintro ⟨small, rfl⟩
    exact ⟨t, t, ⟨rfl, rfl⟩, _, t, ⟨⟨small, rfl⟩, rfl⟩, rfl⟩

theorem sweep_ok {t t' : FeeTreasury} {amount : ℕ} {u : Unit} (swept : (sweep amount).run t = .ok u t') :
    amount ≤ t.accruedAtoms ∧ t'.accruedAtoms = t.accruedAtoms - amount ∧
      t'.collateralMint = t.collateralMint ∧ t'.bump = t.bump := by
  simp only [sweep, Exec.bind_ok, Exec.get_ok, Exec.orErr_ok, Exec.put_ok, Exec.modify_ok,
    checkedSub_eq_some, checkedAdd_eq_some] at swept
  obtain ⟨_, _, ⟨rfl, rfl⟩, _, _, ⟨⟨enough, rfl⟩, rfl⟩, _, _, rfl, _, _, ⟨_, rfl⟩, rfl⟩ := swept
  exact ⟨enough, rfl, rfl, rfl⟩

end FeeTreasury

/-! ### User volumes -/

def USER_VOLUME_EPOCH_SLOTS : ℕ := 6480000

/-- A trader's volume in the current epoch and in the one before. -/
structure UserVolume where
  bump : ℕ
  owner : Pubkey
  collateralMint : Pubkey
  volumeCurrentAtoms : ℕ
  volumePrevAtoms : ℕ
  epochStartSlot : ℕ
  epochLengthSlots : ℕ
  deriving DecidableEq, Repr

namespace UserVolume

def init (owner collateralMint : Pubkey) (nowSlot bump : ℕ) : UserVolume where
  bump
  owner
  collateralMint
  volumeCurrentAtoms := 0
  volumePrevAtoms := 0
  epochStartSlot := nowSlot
  epochLengthSlots := USER_VOLUME_EPOCH_SLOTS

/-- Start a new epoch when the current one is over. After more than one epoch both are stale. -/
def maybeRollEpoch (nowSlot : ℕ) : Exec ProgramError UserVolume Unit := do
  let v ← Exec.get
  let length := max v.epochLengthSlots 1
  Exec.when (v.epochStartSlot ≤ nowSlot ∧ length ≤ nowSlot - v.epochStartSlot) do
    let epochsElapsed := (nowSlot - v.epochStartSlot) / length
    Exec.put
      { v with
        volumePrevAtoms := if epochsElapsed = 1 then v.volumeCurrentAtoms else 0
        volumeCurrentAtoms := 0 }
    let elapsed ← Exec.orErr (checkedMul 64 epochsElapsed length) PolyleverageError.arithmeticOverflow
    let start ← Exec.orErr (checkedAdd 64 v.epochStartSlot elapsed) PolyleverageError.arithmeticOverflow
    Exec.modify fun v => { v with epochStartSlot := start }

def addVolume (amount nowSlot : ℕ) : Exec ProgramError UserVolume Unit := do
  maybeRollEpoch nowSlot
  let v ← Exec.get
  let volume ← Exec.orErr (checkedAdd 64 v.volumeCurrentAtoms amount) PolyleverageError.arithmeticOverflow
  Exec.put { v with volumeCurrentAtoms := volume }

/-- The larger of the two epochs, rolled on a copy. An error of the roll is ignored. -/
def effective30dVolume (v : UserVolume) (nowSlot : ℕ) : ℕ :=
  let rolled := ((maybeRollEpoch nowSlot).run v).state?.getD v
  max rolled.volumeCurrentAtoms rolled.volumePrevAtoms

end UserVolume

end Polyleverage
