import Polyleverage.Instruction
import Polyleverage.Runtime.Basic

/-! # Fee schedule, volumes and treasury -/

namespace Polyleverage

variable (rt : Runtime) (inv : rt.Invocation)

/-- The signer is the admin of the config. -/
def assertAdmin (config admin : Pubkey) : LedgerM Unit := do
  let cfg ← load AccountData.loadProgramConfig config
  Exec.rejectIf (cfg.admin ≠ admin) PolyleverageError.invalidAdminSigner

def toRawTiers (tiers : FeeTierArgs) : FeeTiers := tiers.map fun t => ⟨t.volumeThreshold.toNat, t.feeBps.toNat⟩

def processInitFeeSchedule (tiers : FeeTierArgs) : LedgerM Unit := do
  match inv.accounts with
  | admin :: config :: feeSchedule :: system :: _ => do
    assertSigner rt inv admin
    assertWritable rt inv admin
    assertWritable rt inv feeSchedule
    assertOwned rt [config]
    assertSystemProgram system
    assertAdmin config admin
    Exec.ofExcept (validateTiers (toRawTiers tiers))
    let bump ← assertPda rt .feeSchedule feeSchedule
    assertEmpty feeSchedule
    createAndInit rt inv admin feeSchedule (.feeSchedule (FeeSchedule.init (toRawTiers tiers) inv.slot bump))
  | _ => Exec.throw .notEnoughAccountKeys

/-- New tiers never take more than the old ones could. -/
def setTiers (tiers : FeeTiers) (nowSlot : ℕ) : Exec ProgramError FeeSchedule Unit := do
  let sched ← Exec.get
  Exec.rejectIf (sched.maxTierFeeBps < computeMaxFeeBps tiers) PolyleverageError.feeIncreaseBlocked
  Exec.put { sched with tiers, maxTierFeeBps := computeMaxFeeBps tiers, lastUpdatedSlot := nowSlot }

def processSetFeeSchedule (tiers : FeeTierArgs) : LedgerM Unit := do
  match inv.accounts with
  | admin :: config :: feeSchedule :: _ => do
    assertSigner rt inv admin
    assertWritable rt inv feeSchedule
    assertOwned rt [config, feeSchedule]
    assertAdmin config admin
    Exec.ofExcept (validateTiers (toRawTiers tiers))
    atAccount rt inv AccountData.loadFeeSchedule .feeSchedule feeSchedule (setTiers (toRawTiers tiers) inv.slot)
  | _ => Exec.throw .notEnoughAccountKeys

/-- Debit the treasury of this mint. -/
def sweepTreasury (mint : Pubkey) (amount : ℕ) : Exec ProgramError FeeTreasury Unit := do
  let t ← Exec.get
  Exec.rejectIf (t.collateralMint ≠ mint) PolyleverageError.invalidPda
  FeeTreasury.sweep amount

def processSweepFees (amount : UInt64) : LedgerM Unit := do
  Exec.rejectIf (amount = 0) PolyleverageError.invalidInstructionData
  match inv.accounts with
  | admin :: config :: treasury :: vault :: dest :: mint :: vaultAuthority :: tokenProgram :: _ => do
    assertSigner rt inv admin
    assertWritable rt inv treasury
    assertWritable rt inv vault
    assertWritable rt inv dest
    assertOwned rt [config, treasury]
    assertTokenProgram rt tokenProgram
    assertAdmin config admin
    let _ ← assertPda rt (.vault mint) vaultAuthority
    let _ ← assertPda rt (.treasury mint) treasury
    let account ← load AccountData.unpackToken vault
    Exec.rejectIf (account.owner ≠ vaultAuthority ∨ account.mint ≠ mint)
      PolyleverageError.invalidTokenAccountOwner
    atAccount rt inv AccountData.loadFeeTreasury .feeTreasury treasury (sweepTreasury mint amount.toNat)
    invoke fun s => rt.transfer s vault dest vaultAuthority amount.toNat
  | _ => Exec.throw .notEnoughAccountKeys

/-- Create the treasury of a mint when there is none; otherwise check it. -/
def ensureFeeTreasury (payer treasury mint : Pubkey) : LedgerM Unit := do
  let bump ← assertPda rt (.treasury mint) treasury
  let s ← Exec.get
  if (s.data treasury).length ≠ 0 then do
    assertOwned rt [treasury]
    let t ← load AccountData.loadFeeTreasury treasury
    Exec.rejectIf (t.collateralMint ≠ mint ∨ t.bump ≠ bump) PolyleverageError.invalidPda
  else createAndInit rt inv payer treasury (.feeTreasury (FeeTreasury.init mint bump))

/-- Create the volume account of a trader when there is none; otherwise check it. -/
def ensureUserVolume (payer volume owner mint : Pubkey) : LedgerM Unit := do
  let bump ← assertPda rt (.userVolume owner mint) volume
  let s ← Exec.get
  if (s.data volume).length ≠ 0 then do
    assertOwned rt [volume]
    let v ← load AccountData.loadUserVolume volume
    Exec.rejectIf (v.owner ≠ owner ∨ v.collateralMint ≠ mint ∨ v.bump ≠ bump) PolyleverageError.invalidPda
  else createAndInit rt inv payer volume (.userVolume (UserVolume.init owner mint inv.slot bump))

end Polyleverage
