/-! # Errors of the program

A handler fails with one of the program's own errors, which travel as a custom code, or with one of
the runtime's.
-/

namespace Polyleverage

inductive PolyleverageError where
  -- accounts and validation
  | invalidProgramConfig
  | invalidAdminSigner
  | invalidPda
  | invalidAccountOwner
  | alreadyInitialized
  | notInitialized
  | missingSigner
  | invalidMint
  | invalidVault
  | invalidTokenAccountOwner
  | accountDataTooSmall
  -- state and logic
  | insufficientFreeCollateral
  | insufficientReservedCollateral
  | insufficientLockedCollateral
  | instrumentPaused
  | globalPaused
  | invalidLeverageBucket
  | invalidCollateralBucket
  | invalidPriceRange
  | priceNotTickAligned
  | intentExpired
  | intentNotFound
  | intentBookFull
  | invalidContractCount
  -- matching
  | notOppositeSides
  | noRangeOverlap
  | arithmeticOverflow
  | arithmeticUnderflow
  | divisionByZero
  -- positions and settlement
  | pmlcNotLive
  | notLiquidatable
  | invalidPmlcSide
  -- attestations
  | missingEd25519Verify
  | ed25519PubkeyMismatch
  | ed25519MessageMismatch
  | attestationBadMagic
  | attestationWrongType
  | attestationWrongMarket
  | attestationStale
  | attestationNonceReplayed
  | attestationWrongPmlc
  -- fees
  | feeScheduleNotInitialized
  | feeIncreaseBlocked
  | feeAccountsRequired
  -- timelock, multisig and registries
  | timelockNotExecutable
  | insufficientMultisigApprovals
  | bucketNotInRegistry
  | stablecoinNotAccepted
  | stablecoinDecimalsMismatch
  | insufficientStablecoinReserve
  -- sessions
  | sessionNotActive
  | sessionDelegateMismatch
  | sessionOwnerMismatch
  | sessionInstrumentNotAllowed
  | sessionPerIntentCapExceeded
  | sessionCumulativeCapExceeded
  -- instruction data
  | invalidInstructionData
  deriving DecidableEq, Repr

inductive ProgramError where
  | custom (error : PolyleverageError)
  | invalidAccountData
  | notEnoughAccountKeys
  | accountBorrowFailed
  | invalidRealloc
  deriving DecidableEq, Repr

instance : Coe PolyleverageError ProgramError := ⟨.custom⟩

end Polyleverage
