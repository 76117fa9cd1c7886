import Polyleverage.State.IntentBook

/-! # Instruments, positions and market nonces -/

namespace Polyleverage

open Machine

def STATUS_ACTIVE : ℕ := 0

def STATUS_PAUSED : ℕ := 1

def ALLOWED_LEVERAGE_BPS : List ℕ := [20000, 50000, 100000, 200000, 400000, 1000000, 2500000, 10000000]

def SOURCE_POLYMARKET : ℕ := 0

def SOURCE_PYTH : ℕ := 3

/-- What is traded: a market, a leverage, and the collateral of one contract. -/
structure InstrumentConfig where
  status : ℕ
  bump : ℕ
  source : ℕ
  marketId : ℕ
  sourceTokenIdA : ℕ
  sourceTokenIdB : ℕ
  collateralMint : Pubkey
  intentBook : Pubkey
  leverageBps : ℕ
  collateralBucket : ℕ
  twapWindowSlots : ℕ
  tickFp : ℕ
  liquidationBps : ℕ
  liquidationBountyBps : ℕ
  maxStalenessSecs : ℕ
  referenceUsd : ℕ
  deriving DecidableEq, Repr

namespace InstrumentConfig

def requireActive (c : InstrumentConfig) : Except ProgramError Unit :=
  if c.status ≠ STATUS_ACTIVE then .error PolyleverageError.instrumentPaused else .ok ()

/-- The address an instrument's parameters determine. -/
def seeds (c : InstrumentConfig) : Seeds :=
  .instrument c.source c.marketId c.leverageBps c.collateralBucket c.twapWindowSlots

def validateBucketConfig (leverageBps collateralBucket tickFp : ℕ) : Except ProgramError Unit :=
  if leverageBps ∉ ALLOWED_LEVERAGE_BPS then .error PolyleverageError.invalidLeverageBucket
  else if collateralBucket = 0 then .error PolyleverageError.invalidCollateralBucket
  else if tickFp = 0 then .error PolyleverageError.priceNotTickAligned
  else .ok ()

/-- The checks before a fresh config is written: the source is known, a reference goes with the one
source that needs it, and the buckets are valid. -/
def validate (c : InstrumentConfig) : Except ProgramError Unit :=
  if c.source = SOURCE_PYTH then
    if c.referenceUsd = 0 then .error PolyleverageError.invalidInstructionData
    else validateBucketConfig c.leverageBps c.collateralBucket c.tickFp
  else if c.source = SOURCE_POLYMARKET then
    if c.referenceUsd ≠ 0 then .error PolyleverageError.invalidInstructionData
    else validateBucketConfig c.leverageBps c.collateralBucket c.tickFp
  else .error PolyleverageError.invalidInstructionData

theorem validateBucketConfig_ok {leverageBps collateralBucket tickFp : ℕ} :
    validateBucketConfig leverageBps collateralBucket tickFp = .ok () ↔
      leverageBps ∈ ALLOWED_LEVERAGE_BPS ∧ collateralBucket ≠ 0 ∧ tickFp ≠ 0 := by
  unfold validateBucketConfig
  split
  · simp_all
  · split
    · simp_all
    · split <;> simp_all

/-- Whatever the source, a valid config has an allowed leverage and a bucket and a tick above zero. -/
theorem validate_ok {c : InstrumentConfig} (valid : c.validate = .ok ()) :
    c.leverageBps ∈ ALLOWED_LEVERAGE_BPS ∧ c.collateralBucket ≠ 0 ∧ c.tickFp ≠ 0 := by
  unfold validate at valid
  split at valid
  · split at valid
    · cases valid
    · exact validateBucketConfig_ok.mp valid
  · split at valid
    · split at valid
      · cases valid
      · exact validateBucketConfig_ok.mp valid
    · cases valid

end InstrumentConfig

/-! ### Positions -/

def PMLC_STATUS_LIVE : ℕ := 0

def PMLC_STATUS_CLOSED : ℕ := 1

def PMLC_STATUS_LIQUIDATED : ℕ := 2

def PMLC_STATUS_RESOLVED : ℕ := 3

def CLOSE_REASON_NONE : ℕ := 0

def CLOSE_REASON_LIQUIDATED : ℕ := 1

def CLOSE_REASON_RESOLVED : ℕ := 2

def CLOSE_REASON_MUTUAL : ℕ := 3

def PMLC_FLAG_LONG_REENTRY : ℕ := 1

def PMLC_FLAG_SHORT_REENTRY : ℕ := 2

/-- A pairwise matched leverage contract: a long and a short with equal collateral. -/
structure Pmlc where
  status : ℕ
  closeReason : ℕ
  flags : ℕ
  bump : ℕ
  id : ℕ
  instrument : Pubkey
  collateralMint : Pubkey
  marketId : ℕ
  longOwner : Pubkey
  shortOwner : Pubkey
  collateralPerSide : ℕ
  leverageBps : ℕ
  entryPriceFp : ℕ
  notionalAtoms : ℕ
  sizeFpLo : ℕ
  sizeFpHi : ℕ
  openedSlot : ℕ
  lastMarkSlot : ℕ
  longReentryPriceFp : ℕ
  shortReentryPriceFp : ℕ
  deriving DecidableEq, Repr

namespace Pmlc

/-- The size as stored in two halves. -/
def sizeFp (p : Pmlc) : ℕ := p.sizeFpHi <<< 64 ||| p.sizeFpLo

def requireLive (p : Pmlc) : Except ProgramError Unit :=
  if p.status ≠ PMLC_STATUS_LIVE then .error PolyleverageError.pmlcNotLive else .ok ()

def owner (p : Pmlc) (side : ℕ) : Pubkey := if side = SIDE_LONG then p.longOwner else p.shortOwner

def setOwner (p : Pmlc) (side : ℕ) (owner : Pubkey) : Pmlc :=
  if side = SIDE_LONG then { p with longOwner := owner } else { p with shortOwner := owner }

/-- Clear the bits of a mask. -/
def clearFlags (p : Pmlc) (mask : ℕ) : Pmlc := { p with flags := p.flags - (p.flags &&& mask) }

end Pmlc

/-! ### Market nonces -/

/-- The last attestation accepted for a market, and its resolution. -/
structure MarketNonceAccount where
  isResolved : ℕ
  bump : ℕ
  marketId : ℕ
  lastAcceptedCreNonce : ℕ
  lastAcceptedTwapFp : ℕ
  lastAcceptedTs : ℕ
  finalOutcomeBps : ℕ
  deriving DecidableEq, Repr

def MarketNonceAccount.init (marketId bump : ℕ) : MarketNonceAccount where
  isResolved := 0
  bump
  marketId
  lastAcceptedCreNonce := 0
  lastAcceptedTwapFp := 0
  lastAcceptedTs := 0
  finalOutcomeBps := 0

end Polyleverage
