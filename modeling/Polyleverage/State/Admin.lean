import Polyleverage.Address
import Polyleverage.Error
import Polyleverage.Math.Machine

/-! # Program config, multisig, timelock, registries and sessions -/

namespace Polyleverage

open Machine

structure ProgramConfig where
  globalPause : ℕ
  bump : ℕ
  admin : Pubkey
  feeTreasuryAuthority : Pubkey
  attestationSigner : Pubkey
  defaultMaxStalenessSecs : ℕ
  deriving DecidableEq, Repr

/-! ### Timelock proposals -/

def TL_KIND_SET_ATTESTATION_SIGNER : ℕ := 1

def TL_STATUS_PENDING : ℕ := 0

def TL_STATUS_EXECUTED : ℕ := 1

def TL_STATUS_CANCELLED : ℕ := 2

/-- A day in seconds. -/
def TIMELOCK_DELAY_SECS : ℤ := 24 * 60 * 60

structure TimelockProposal where
  kind : ℕ
  status : ℕ
  bump : ℕ
  proposalId : ℕ
  proposer : Pubkey
  newSigner : Pubkey
  proposedSlot : ℕ
  proposedUnixTs : ℤ
  executableAfterUnixTs : ℤ
  deriving DecidableEq, Repr

/-! ### Admin multisig -/

def MAX_MULTISIG_SIGNERS : ℕ := 16

structure AdminMultisig where
  bump : ℕ
  threshold : ℕ
  bootstrapAdmin : Pubkey
  version : ℕ
  /-- The active signers. -/
  signers : List Pubkey
  deriving DecidableEq, Repr

namespace AdminMultisig

/-- A signer set is not empty, fits, has no duplicates, and reaches the threshold. -/
def validate (signers : List Pubkey) (threshold : ℕ) : Except ProgramError Unit :=
  if signers = [] ∨ MAX_MULTISIG_SIGNERS < signers.length then
    .error PolyleverageError.invalidInstructionData
  else if threshold = 0 ∨ signers.length < threshold then .error PolyleverageError.invalidInstructionData
  else if ¬ signers.Nodup then .error PolyleverageError.invalidInstructionData
  else .ok ()

def isMember (ms : AdminMultisig) (key : Pubkey) : Bool := key ∈ ms.signers

/-- Members that signed, each counted once however often it is passed. -/
def countApprovals (ms : AdminMultisig) (signed : List Pubkey) : ℕ :=
  min (ms.signers.countP (· ∈ signed)) 255

def checkThreshold (ms : AdminMultisig) (signed : List Pubkey) : Except ProgramError Unit :=
  if ms.threshold ≤ ms.countApprovals signed then .ok ()
  else .error PolyleverageError.insufficientMultisigApprovals

def rotate (ms : AdminMultisig) (signers : List Pubkey) (threshold : ℕ) : Except ProgramError AdminMultisig := do
  validate signers threshold
  .ok { ms with signers, threshold, version := saturatingAdd 64 ms.version 1 }

end AdminMultisig

/-! ### Bucket registry -/

def MAX_LEVERAGE_SLOTS : ℕ := 16

def MAX_COLLATERAL_SLOTS : ℕ := 16

def DEFAULT_LEVERAGE_BPS : List ℕ := [20000, 50000, 100000, 200000, 400000]

def DEFAULT_COLLATERAL_BUCKETS : List ℕ := [100000000, 1000000000]

structure BucketRegistry where
  bump : ℕ
  version : ℕ
  leverageBps : List ℕ
  collateralBuckets : List ℕ
  deriving DecidableEq, Repr

namespace BucketRegistry

/-- Every value is in range and different from all values after it. -/
def validateValues (valid : ℕ → Bool) (e : PolyleverageError) : List ℕ → Except ProgramError Unit
  | [] => .ok ()
  | v :: rest => if ¬ valid v ∨ v ∈ rest then .error e else validateValues valid e rest

def validateInputs (leverages buckets : List ℕ) : Except ProgramError Unit := do
  if leverages = [] ∨ MAX_LEVERAGE_SLOTS < leverages.length then
    .error PolyleverageError.invalidInstructionData
  else if buckets = [] ∨ MAX_COLLATERAL_SLOTS < buckets.length then
    .error PolyleverageError.invalidInstructionData
  else do
    validateValues (fun l => l ≠ 0 ∧ l ≤ 10000000) .invalidLeverageBucket leverages
    validateValues (fun b => b ≠ 0) .invalidCollateralBucket buckets

def set (r : BucketRegistry) (leverages buckets : List ℕ) : Except ProgramError BucketRegistry := do
  validateInputs leverages buckets
  .ok
    { r with
      leverageBps := leverages
      collateralBuckets := buckets
      version := saturatingAdd 64 r.version 1 }

def allowsLeverage (r : BucketRegistry) (bps : ℕ) : Bool := bps ∈ r.leverageBps

def allowsBucket (r : BucketRegistry) (atoms : ℕ) : Bool := atoms ∈ r.collateralBuckets

end BucketRegistry

/-! ### Stablecoin registry -/

def MAX_STABLECOIN_SLOTS : ℕ := 16

structure StablecoinRegistry where
  bump : ℕ
  wusdDecimals : ℕ
  wusdMint : Pubkey
  version : ℕ
  /-- The accepted mints. -/
  mints : List Pubkey
  deriving DecidableEq, Repr

namespace StablecoinRegistry

/-- Every mint is set and different from all mints after it. -/
def validateMints : List Pubkey → Except ProgramError Unit
  | [] => .ok ()
  | m :: rest => if m = default ∨ m ∈ rest then .error PolyleverageError.invalidMint else validateMints rest

def isAccepted (r : StablecoinRegistry) (mint : Pubkey) : Bool := mint ∈ r.mints

def addMint (r : StablecoinRegistry) (mint : Pubkey) : Except ProgramError StablecoinRegistry :=
  if r.isAccepted mint then .error PolyleverageError.alreadyInitialized
  else if MAX_STABLECOIN_SLOTS ≤ r.mints.length then .error PolyleverageError.invalidInstructionData
  else .ok { r with mints := r.mints ++ [mint], version := saturatingAdd 64 r.version 1 }

/-- The last mint takes the place of the removed one. -/
def swapRemove (mints : List Pubkey) (i : ℕ) : List Pubkey :=
  match mints.getLast? with
  | some last => (mints.set i last).dropLast
  | none => []

def removeMint (r : StablecoinRegistry) (mint : Pubkey) : Except ProgramError StablecoinRegistry :=
  match r.mints.findIdx? (· = mint) with
  | none => .error PolyleverageError.notInitialized
  | some i => .ok { r with mints := swapRemove r.mints i, version := saturatingAdd 64 r.version 1 }

end StablecoinRegistry

/-! ### Sessions -/

def MAX_SESSION_INSTRUMENTS : ℕ := 8

/-- What a delegate may do for an owner, and how much of it is used up. -/
structure Session where
  bump : ℕ
  revoked : ℕ
  owner : Pubkey
  delegate : Pubkey
  expiresAtSlot : ℕ
  perIntentMaxCollateralAtoms : ℕ
  cumulativeCollateralUsed : ℕ
  cumulativeCollateralCap : ℕ
  createdAtSlot : ℕ
  version : ℕ
  /-- The allowed instruments; none means any. -/
  allowedInstruments : List Pubkey
  deriving DecidableEq, Repr

namespace Session

/-- The bounds a session starts with. -/
def validate (expiresAtSlot perIntentMax cap createdAtSlot : ℕ) (allowed : List Pubkey) :
    Except ProgramError Unit :=
  if expiresAtSlot ≤ createdAtSlot then .error PolyleverageError.invalidInstructionData
  else if perIntentMax = 0 ∨ cap = 0 then .error PolyleverageError.invalidInstructionData
  else if cap < perIntentMax then .error PolyleverageError.invalidInstructionData
  else if MAX_SESSION_INSTRUMENTS < allowed.length then .error PolyleverageError.invalidInstructionData
  else .ok ()

def isActive (s : Session) (currentSlot : ℕ) : Bool :=
  s.revoked = 0 ∧ currentSlot < s.expiresAtSlot ∧ s.cumulativeCollateralUsed < s.cumulativeCollateralCap

def allowsInstrument (s : Session) (instrument : Pubkey) : Bool :=
  s.allowedInstruments = [] ∨ instrument ∈ s.allowedInstruments

/-- Charge an intent against both caps. -/
def recordIntent (s : Session) (collateralAtoms : ℕ) : Except ProgramError Session :=
  if collateralAtoms = 0 then .error PolyleverageError.invalidContractCount
  else if s.perIntentMaxCollateralAtoms < collateralAtoms then
    .error PolyleverageError.sessionPerIntentCapExceeded
  else
    match checkedAdd 64 s.cumulativeCollateralUsed collateralAtoms with
    | none => .error PolyleverageError.arithmeticOverflow
    | some used =>
      if s.cumulativeCollateralCap < used then .error PolyleverageError.sessionCumulativeCapExceeded
      else .ok { s with cumulativeCollateralUsed := used, version := saturatingAdd 64 s.version 1 }

theorem recordIntent_ok {s s' : Session} {amount : ℕ} :
    s.recordIntent amount = .ok s' ↔
      (amount ≠ 0 ∧ amount ≤ s.perIntentMaxCollateralAtoms ∧ s.cumulativeCollateralUsed + amount < 2 ^ 64 ∧
        s.cumulativeCollateralUsed + amount ≤ s.cumulativeCollateralCap) ∧
      { s with
        cumulativeCollateralUsed := s.cumulativeCollateralUsed + amount
        version := saturatingAdd 64 s.version 1 } = s' := by
  unfold recordIntent checkedAdd
  constructor
  · intro recorded
    split at recorded
    · cases recorded
    next some_amount =>
      split at recorded
      · cases recorded
      next within_intent =>
        by_cases small : s.cumulativeCollateralUsed + amount < 2 ^ 64
        · simp only [small, if_true] at recorded
          split at recorded
          · cases recorded
          next within_cap =>
            cases recorded
            exact ⟨⟨some_amount, Nat.not_lt.mp within_intent, small, Nat.not_lt.mp within_cap⟩, rfl⟩
        · simp only [small, if_false] at recorded
          cases recorded
  · rintro ⟨⟨some_amount, within_intent, small, within_cap⟩, rfl⟩
    simp only [some_amount, Nat.not_lt.mpr within_intent, small, Nat.not_lt.mpr within_cap, if_true, if_false]

def revoke (s : Session) : Session := { s with revoked := 1, version := saturatingAdd 64 s.version 1 }

end Session

end Polyleverage
