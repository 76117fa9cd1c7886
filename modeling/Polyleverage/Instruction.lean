import Polyleverage.Address
import Polyleverage.State.Fees

/-! # Instructions

The arguments of every instruction, in the ranges their encoding has.
-/

namespace Polyleverage

structure InitProgramConfigArgs where
  attestationSigner : Pubkey
  defaultMaxStalenessSecs : UInt64

structure CreateInstrumentArgs where
  source : UInt8
  marketId : ℕ
  sourceTokenIdA : ℕ
  sourceTokenIdB : ℕ
  leverageBps : UInt32
  collateralBucket : UInt64
  twapWindowSlots : UInt64
  tickFp : UInt64
  liquidationBps : UInt32
  liquidationBountyBps : UInt16
  maxStalenessSecs : UInt64
  initialBookCapacity : UInt32
  referenceUsd : UInt64

structure PostIntentArgs where
  side : UInt8
  priceFp : UInt64
  contracts : UInt16
  expirationSlot : UInt64
  reentryEnabled : UInt8
  tryMatch : UInt8

structure MatchPairArgs where
  longIntentId : UInt64
  shortIntentId : UInt64
  maxContracts : UInt16

structure ClaimReentryArgs where
  side : UInt8
  expirationSlot : UInt64

structure FeeTier where
  volumeThreshold : UInt64
  feeBps : UInt16

/-- The tier table of an instruction. -/
abbrev FeeTierArgs := Vector FeeTier FEE_SCHEDULE_MAX_TIERS

structure ProposeSetAttestationSignerArgs where
  proposalId : UInt64
  newSigner : Pubkey

structure MultisigArgs where
  threshold : UInt8
  signers : List Pubkey

structure BucketRegistryArgs where
  leverageBps : List UInt32
  collateralBuckets : List UInt64

structure InitStablecoinRegistryArgs where
  wusdDecimals : UInt8
  initialMints : List Pubkey

structure CreateSessionArgs where
  delegate : Pubkey
  expiresAtSlot : UInt64
  perIntentMaxCollateralAtoms : UInt64
  cumulativeCollateralCap : UInt64
  allowedInstruments : List Pubkey

inductive Instruction where
  | initProgramConfig (args : InitProgramConfigArgs)
  | setGlobalPause (paused : Bool)
  | createInstrument (args : CreateInstrumentArgs)
  | pauseInstrument
  | resumeInstrument
  | expandIntentBook (additionalNodes : UInt32)
  | createMarginAccount
  | deposit (amount : UInt64)
  | withdraw (amount : UInt64)
  | postIntent (args : PostIntentArgs)
  | cancelIntent (intentId : UInt64)
  | matchPair (args : MatchPairArgs)
  | matchBestAvailable
  | pruneExpired
  | createSession (args : CreateSessionArgs)
  | revokeSession
  | postIntentDelegated (args : PostIntentArgs)
  | cancelIntentDelegated (intentId : UInt64)
  | liquidate (attestationIxOffset : UInt8)
  | resolve (attestationIxOffset : UInt8)
  | closeMutual (attestationIxOffset : UInt8)
  | claimReentry (args : ClaimReentryArgs)
  | novate (side : UInt8)
  | matchSubstitute (args : MatchPairArgs)
  | matchSubstituteWithSettle (args : MatchPairArgs)
  | closePmlc
  | initFeeSchedule (tiers : FeeTierArgs)
  | setFeeSchedule (tiers : FeeTierArgs)
  | sweepFees (amount : UInt64)
  | proposeSetAttestationSigner (args : ProposeSetAttestationSignerArgs)
  | executeSetAttestationSigner (proposalId : UInt64)
  | cancelTimelockProposal (proposalId : UInt64)
  | initAdminMultisig (args : MultisigArgs)
  | rotateAdminMultisig (args : MultisigArgs)
  | initBucketRegistry (args : BucketRegistryArgs)
  | setBucketRegistry (args : BucketRegistryArgs)
  | initStablecoinRegistry (args : InitStablecoinRegistryArgs)
  | addStablecoinMint
  | removeStablecoinMint
  | wrapStablecoin (amount : UInt64)
  | unwrapStablecoin (amount : UInt64)

end Polyleverage
