import Polyleverage.Codec.Words
import Polyleverage.Program

/-! # Instruction data

The data of a call is a tag byte followed by the arguments of the instruction with that tag. A key or
a market id is 32 bytes as they stand, everything else is in the encoding of machine words, arrays and
vectors. Arguments that have to be read must take up the whole payload; an instruction without
arguments does not look at it.
-/

namespace Polyleverage

open Codec

/-! ### Tags -/

inductive InstructionTag where
  -- the program
  | initProgramConfig
  | setGlobalPause
  -- instruments
  | createInstrument
  | pauseInstrument
  | resumeInstrument
  | expandIntentBook
  -- user accounts
  | createMarginAccount
  | deposit
  | withdraw
  -- trading
  | postIntent
  | cancelIntent
  | matchPair
  | matchBestAvailable
  | pruneExpired
  | createSession
  | revokeSession
  | postIntentDelegated
  | cancelIntentDelegated
  -- positions
  | liquidate
  | resolve
  | closeMutual
  | claimReentry
  | novate
  | matchSubstitute
  | matchSubstituteWithSettle
  | closePmlc
  -- fees
  | initFeeSchedule
  | setFeeSchedule
  | sweepFees
  -- the attestation signer
  | proposeSetAttestationSigner
  | executeSetAttestationSigner
  | cancelTimelockProposal
  -- the admin multisig
  | initAdminMultisig
  | rotateAdminMultisig
  -- registries
  | initBucketRegistry
  | setBucketRegistry
  | initStablecoinRegistry
  | addStablecoinMint
  | removeStablecoinMint
  | wrapStablecoin
  | unwrapStablecoin
  deriving DecidableEq, Repr

/-- How the data of a call is refused, or the handler fails. -/
inductive EntryError where
  | unsupportedInstruction
  | program (error : ProgramError)
  deriving DecidableEq, Repr

namespace InstructionTag

def toByte : InstructionTag → UInt8
  | initProgramConfig => 0
  | setGlobalPause => 1
  | createInstrument => 10
  | pauseInstrument => 11
  | resumeInstrument => 12
  | expandIntentBook => 13
  | createMarginAccount => 20
  | deposit => 21
  | withdraw => 22
  | postIntent => 30
  | cancelIntent => 31
  | matchPair => 32
  | matchBestAvailable => 33
  | pruneExpired => 34
  | createSession => 35
  | revokeSession => 36
  | postIntentDelegated => 37
  | cancelIntentDelegated => 38
  | liquidate => 40
  | resolve => 41
  | closeMutual => 42
  | claimReentry => 43
  | novate => 44
  | matchSubstitute => 45
  | matchSubstituteWithSettle => 46
  | closePmlc => 47
  | initFeeSchedule => 50
  | setFeeSchedule => 51
  | sweepFees => 52
  | proposeSetAttestationSigner => 60
  | executeSetAttestationSigner => 61
  | cancelTimelockProposal => 62
  | initAdminMultisig => 70
  | rotateAdminMultisig => 71
  | initBucketRegistry => 80
  | setBucketRegistry => 81
  | initStablecoinRegistry => 90
  | addStablecoinMint => 91
  | removeStablecoinMint => 92
  | wrapStablecoin => 93
  | unwrapStablecoin => 94

def tryFrom (v : UInt8) : Except EntryError InstructionTag :=
  match v.toNat with
  | 0 => .ok initProgramConfig
  | 1 => .ok setGlobalPause
  | 10 => .ok createInstrument
  | 11 => .ok pauseInstrument
  | 12 => .ok resumeInstrument
  | 13 => .ok expandIntentBook
  | 20 => .ok createMarginAccount
  | 21 => .ok deposit
  | 22 => .ok withdraw
  | 30 => .ok postIntent
  | 31 => .ok cancelIntent
  | 32 => .ok matchPair
  | 33 => .ok matchBestAvailable
  | 34 => .ok pruneExpired
  | 35 => .ok createSession
  | 36 => .ok revokeSession
  | 37 => .ok postIntentDelegated
  | 38 => .ok cancelIntentDelegated
  | 40 => .ok liquidate
  | 41 => .ok resolve
  | 42 => .ok closeMutual
  | 43 => .ok claimReentry
  | 44 => .ok novate
  | 45 => .ok matchSubstitute
  | 46 => .ok matchSubstituteWithSettle
  | 47 => .ok closePmlc
  | 50 => .ok initFeeSchedule
  | 51 => .ok setFeeSchedule
  | 52 => .ok sweepFees
  | 60 => .ok proposeSetAttestationSigner
  | 61 => .ok executeSetAttestationSigner
  | 62 => .ok cancelTimelockProposal
  | 70 => .ok initAdminMultisig
  | 71 => .ok rotateAdminMultisig
  | 80 => .ok initBucketRegistry
  | 81 => .ok setBucketRegistry
  | 90 => .ok initStablecoinRegistry
  | 91 => .ok addStablecoinMint
  | 92 => .ok removeStablecoinMint
  | 93 => .ok wrapStablecoin
  | 94 => .ok unwrapStablecoin
  | _ => .error .unsupportedInstruction

@[simp] theorem tryFrom_toByte (tag : InstructionTag) : tryFrom tag.toByte = .ok tag := by
  cases tag <;> rfl

theorem tryFrom_eq_ok {v : UInt8} {tag : InstructionTag} : tryFrom v = .ok tag ↔ v = tag.toByte := by
  constructor
  · intro read
    apply UInt8.toNat_inj.mp
    unfold tryFrom at read
    split at read <;> cases read <;> assumption
  · rintro rfl
    exact tryFrom_toByte tag

end InstructionTag

/-! ### Arguments -/

theorem fromLeBytes_eq (bytes : List UInt8) : fromLeBytes bytes = ofWordBytes bytes := by
  induction bytes with
  | nil => rfl
  | cons b rest ih => rw [fromLeBytes, ofWordBytes_cons, ih]

/-- 32 bytes as they stand, read highest first. -/
def bytes32 : Codec ℕ :=
  (Codec.bytes 32).pmap (· < 2 ^ 256) (fun bs _ => fromBeBytes bs) (fun v => (wordBytes 32 v).reverse)
    (fun v _ => by simp [Codec.bytes])
    (fun v fits => by
      rw [fromBeBytes, List.reverse_reverse, fromLeBytes_eq]
      exact ofWordBytes_wordBytes fits)
    (fun bs length => by
      have reversed : bs.reverse.length = 32 := by rwa [List.length_reverse]
      have bound := ofWordBytes_lt bs.reverse
      rw [reversed] at bound
      rw [fromBeBytes, fromLeBytes_eq, wordBytes_ofWordBytes reversed, List.reverse_reverse]
      exact ⟨bound, rfl⟩)

def pubkey : Codec Pubkey :=
  bytes32.imap
    { toFun := Pubkey.mk
      invFun := Pubkey.value
      left_inv := fun _ => rfl
      right_inv := fun _ => rfl }

def initProgramConfigArgs : Codec InitProgramConfigArgs :=
  (pubkey.prod u64).imap
    { toFun := fun p => ⟨p.1, p.2⟩
      invFun := fun a => (a.attestationSigner, a.defaultMaxStalenessSecs)
      left_inv := fun _ => rfl
      right_inv := fun _ => rfl }

def createInstrumentArgs : Codec CreateInstrumentArgs :=
  (u8.prod (bytes32.prod (bytes32.prod (bytes32.prod (u32.prod (u64.prod (u64.prod (u64.prod (u32.prod
    (u16.prod (u64.prod (u32.prod u64)))))))))))).imap
    { toFun := fun p =>
        { source := p.1
          marketId := p.2.1
          sourceTokenIdA := p.2.2.1
          sourceTokenIdB := p.2.2.2.1
          leverageBps := p.2.2.2.2.1
          collateralBucket := p.2.2.2.2.2.1
          twapWindowSlots := p.2.2.2.2.2.2.1
          tickFp := p.2.2.2.2.2.2.2.1
          liquidationBps := p.2.2.2.2.2.2.2.2.1
          liquidationBountyBps := p.2.2.2.2.2.2.2.2.2.1
          maxStalenessSecs := p.2.2.2.2.2.2.2.2.2.2.1
          initialBookCapacity := p.2.2.2.2.2.2.2.2.2.2.2.1
          referenceUsd := p.2.2.2.2.2.2.2.2.2.2.2.2 }
      invFun := fun a =>
        (a.source, a.marketId, a.sourceTokenIdA, a.sourceTokenIdB, a.leverageBps, a.collateralBucket,
          a.twapWindowSlots, a.tickFp, a.liquidationBps, a.liquidationBountyBps, a.maxStalenessSecs,
          a.initialBookCapacity, a.referenceUsd)
      left_inv := fun _ => rfl
      right_inv := fun _ => rfl }

/-- What is kept of a post. Its encoding goes on with the number of pairs to try, which nothing reads. -/
def postIntentArgs : Codec PostIntentArgs :=
  (u8.prod (u64.prod (u16.prod (u64.prod (u8.prod u8))))).imap
    { toFun := fun p => ⟨p.1, p.2.1, p.2.2.1, p.2.2.2.1, p.2.2.2.2.1, p.2.2.2.2.2⟩
      invFun := fun a => (a.side, a.priceFp, a.contracts, a.expirationSlot, a.reentryEnabled, a.tryMatch)
      left_inv := fun _ => rfl
      right_inv := fun _ => rfl }

def matchPairArgs : Codec MatchPairArgs :=
  (u64.prod (u64.prod u16)).imap
    { toFun := fun p => ⟨p.1, p.2.1, p.2.2⟩
      invFun := fun a => (a.longIntentId, a.shortIntentId, a.maxContracts)
      left_inv := fun _ => rfl
      right_inv := fun _ => rfl }

def claimReentryArgs : Codec ClaimReentryArgs :=
  (u8.prod u64).imap
    { toFun := fun p => ⟨p.1, p.2⟩
      invFun := fun a => (a.side, a.expirationSlot)
      left_inv := fun _ => rfl
      right_inv := fun _ => rfl }

def feeTier : Codec FeeTier :=
  (u64.prod u16).imap
    { toFun := fun p => ⟨p.1, p.2⟩
      invFun := fun a => (a.volumeThreshold, a.feeBps)
      left_inv := fun _ => rfl
      right_inv := fun _ => rfl }

def feeTiers : Codec FeeTierArgs := array FEE_SCHEDULE_MAX_TIERS feeTier

def proposeSetAttestationSignerArgs : Codec ProposeSetAttestationSignerArgs :=
  (u64.prod pubkey).imap
    { toFun := fun p => ⟨p.1, p.2⟩
      invFun := fun a => (a.proposalId, a.newSigner)
      left_inv := fun _ => rfl
      right_inv := fun _ => rfl }

def multisigArgs : Codec MultisigArgs :=
  (u8.prod pubkey.vec).imap
    { toFun := fun p => ⟨p.1, p.2⟩
      invFun := fun a => (a.threshold, a.signers)
      left_inv := fun _ => rfl
      right_inv := fun _ => rfl }

def bucketRegistryArgs : Codec BucketRegistryArgs :=
  (u32.vec.prod u64.vec).imap
    { toFun := fun p => ⟨p.1, p.2⟩
      invFun := fun a => (a.leverageBps, a.collateralBuckets)
      left_inv := fun _ => rfl
      right_inv := fun _ => rfl }

def initStablecoinRegistryArgs : Codec InitStablecoinRegistryArgs :=
  (u8.prod pubkey.vec).imap
    { toFun := fun p => ⟨p.1, p.2⟩
      invFun := fun a => (a.wusdDecimals, a.initialMints)
      left_inv := fun _ => rfl
      right_inv := fun _ => rfl }

def createSessionArgs : Codec CreateSessionArgs :=
  (pubkey.prod (u64.prod (u64.prod (u64.prod pubkey.vec)))).imap
    { toFun := fun p => ⟨p.1, p.2.1, p.2.2.1, p.2.2.2.1, p.2.2.2.2⟩
      invFun := fun a =>
        (a.delegate, a.expiresAtSlot, a.perIntentMaxCollateralAtoms, a.cumulativeCollateralCap,
          a.allowedInstruments)
      left_inv := fun _ => rfl
      right_inv := fun _ => rfl }

/-! ### Unpacking -/

/-- The instruction with this tag and payload. -/
def InstructionTag.decode : InstructionTag → List UInt8 → Option Instruction
  | initProgramConfig, payload => (initProgramConfigArgs.decode payload).map .initProgramConfig
  | setGlobalPause, payload =>
    match payload with
    | [b] => some (.setGlobalPause (b ≠ 0))
    | _ => none
  | createInstrument, payload => (createInstrumentArgs.decode payload).map .createInstrument
  | pauseInstrument, _ => some .pauseInstrument
  | resumeInstrument, _ => some .resumeInstrument
  | expandIntentBook, payload => (u32.decode payload).map .expandIntentBook
  | createMarginAccount, _ => some .createMarginAccount
  | deposit, payload => (u64.decode payload).map .deposit
  | withdraw, payload => (u64.decode payload).map .withdraw
  | postIntent, payload => ((postIntentArgs.prod u8).decode payload).map fun p => .postIntent p.1
  | cancelIntent, payload => (u64.decode payload).map .cancelIntent
  | matchPair, payload => (matchPairArgs.decode payload).map .matchPair
  | matchBestAvailable, payload => (u8.decode payload).map fun _ => .matchBestAvailable
  | pruneExpired, _ => some .pruneExpired
  | createSession, payload => (createSessionArgs.decode payload).map .createSession
  | revokeSession, _ => some .revokeSession
  | postIntentDelegated, payload => ((postIntentArgs.prod u8).decode payload).map fun p => .postIntentDelegated p.1
  | cancelIntentDelegated, payload => (u64.decode payload).map .cancelIntentDelegated
  | liquidate, payload => (u8.decode payload).map .liquidate
  | resolve, payload => (u8.decode payload).map .resolve
  | closeMutual, payload => (u8.decode payload).map .closeMutual
  | claimReentry, payload => (claimReentryArgs.decode payload).map .claimReentry
  | novate, payload => (u8.decode payload).map .novate
  | matchSubstitute, payload => (matchPairArgs.decode payload).map .matchSubstitute
  | matchSubstituteWithSettle, payload => (matchPairArgs.decode payload).map .matchSubstituteWithSettle
  | closePmlc, _ => some .closePmlc
  | initFeeSchedule, payload => (feeTiers.decode payload).map .initFeeSchedule
  | setFeeSchedule, payload => (feeTiers.decode payload).map .setFeeSchedule
  | sweepFees, payload => (u64.decode payload).map .sweepFees
  | proposeSetAttestationSigner, payload =>
    (proposeSetAttestationSignerArgs.decode payload).map .proposeSetAttestationSigner
  | executeSetAttestationSigner, payload => (u64.decode payload).map .executeSetAttestationSigner
  | cancelTimelockProposal, payload => (u64.decode payload).map .cancelTimelockProposal
  | initAdminMultisig, payload => (multisigArgs.decode payload).map .initAdminMultisig
  | rotateAdminMultisig, payload => (multisigArgs.decode payload).map .rotateAdminMultisig
  | initBucketRegistry, payload => (bucketRegistryArgs.decode payload).map .initBucketRegistry
  | setBucketRegistry, payload => (bucketRegistryArgs.decode payload).map .setBucketRegistry
  | initStablecoinRegistry, payload => (initStablecoinRegistryArgs.decode payload).map .initStablecoinRegistry
  | addStablecoinMint, _ => some .addStablecoinMint
  | removeStablecoinMint, _ => some .removeStablecoinMint
  | wrapStablecoin, payload => (u64.decode payload).map .wrapStablecoin
  | unwrapStablecoin, payload => (u64.decode payload).map .unwrapStablecoin

/-- The instruction in the data of a call. -/
def unpack (data : List UInt8) : Except EntryError Instruction :=
  match data with
  | [] => .error (.program PolyleverageError.invalidInstructionData)
  | tagByte :: payload => do
    let tag ← InstructionTag.tryFrom tagByte
    match tag.decode payload with
    | some instruction => .ok instruction
    | none => .error (.program PolyleverageError.invalidInstructionData)

/-! ### Calls by their data -/

/-- A call as it reaches the program: its surroundings and its data. -/
structure EntryCall (rt : Runtime) where
  inv : rt.Invocation
  data : List UInt8

/-- Unpack the instruction and run its handler. -/
def programEntry (rt : Runtime) (inv : rt.Invocation) (data : List UInt8) : Exec EntryError Ledger Unit := fun s =>
  match unpack data with
  | .error e => .err e s
  | .ok instruction =>
    match (process rt inv instruction).run s with
    | .ok () t => .ok () t
    | .err e t => .err (.program e) t
    | .abort => .abort

/-- The ledger after a call. -/
def EntryCall.execute {rt : Runtime} (c : EntryCall rt) (s : Ledger) : Ledger :=
  match (programEntry rt c.inv c.data).run s with
  | .ok _ t => t
  | .err _ _ => s
  | .abort => s

end Polyleverage
