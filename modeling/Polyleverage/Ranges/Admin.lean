import Polyleverage.Processor.Admin
import Polyleverage.Processor.Instrument
import Polyleverage.Processor.Session
import Polyleverage.Processor.Wusd
import Polyleverage.Ranges.Ledger

/-! # The ranges under administration

Creating the accounts of the program writes bumps, account keys, the clock and the arguments of the call.
All of them are words already.
-/

namespace Polyleverage

open Machine Exec

/-- What the runtime passes to a call fits: keys of 32 bytes and a clock of 64 bits. -/
structure Runtime.Invocation.InRange {rt : Runtime} (inv : rt.Invocation) : Prop where
  accounts : ∀ k ∈ inv.accounts, k.IsBytes
  clock : FitsSigned 64 inv.unixTimestamp

/-- Bumps are bytes. -/
def Runtime.BumpsFit (rt : Runtime) : Prop := ∀ seeds, rt.bump seeds < 2 ^ 8

variable {rt : Runtime} {inv : rt.Invocation} {s t : Ledger} {k payer : Pubkey} {α : Type}

/-- The accounts of a call, named. -/
theorem Runtime.Invocation.InRange.keys {named : List Pubkey} (fits : inv.InRange) (accounts : inv.accounts = named) :
    ∀ k ∈ named, k.IsBytes := by
  rw [← accounts]
  exact fits.accounts

theorem keeping_assertPda (bumps : rt.BumpsFit) {seeds : Seeds} {f : ℕ → LedgerM α}
    (next : ∀ bump, bump < 2 ^ 8 → Keeping (Stays Ledger.InRange) (f bump)) :
    Keeping (Stays Ledger.InRange) (assertPda rt seeds k >>= f) := by
  refine keeping_after_check fun _ bump _ derived => ?_
  obtain ⟨-, rfl⟩ := derived
  exact next _ (bumps seeds)

/-! ### Config -/

section Config

variable (bumps : rt.BumpsFit) (fits : inv.InRange)

include bumps fits in
theorem keeping_processInitProgramConfig {args : InitProgramConfigArgs} (signer : args.attestationSigner.IsBytes) :
    Keeping (Stays Ledger.InRange) (processInitProgramConfig rt inv args) := by
  unfold processInitProgramConfig
  split
  next admin config feeTreasuryAuthority system rest accounts =>
    have keys := fits.keys accounts
    iterate 4 refine Exec.keeping_bind inferInstance fun _ => ?_
    refine keeping_assertPda bumps fun bump small => Exec.keeping_bind inferInstance fun _ => keeping_initAccount ?_
    exact
      { globalPause := (by decide : 0 < 2 ^ 8)
        bump := small
        admin := keys _ (by simp)
        feeTreasuryAuthority := keys _ (by simp)
        attestationSigner := signer
        defaultMaxStalenessSecs := args.defaultMaxStalenessSecs.toNat_lt }
  · infer_instance

instance (paused : Bool) : Keeping (Stays Ledger.InRange) (processSetGlobalPause rt inv paused) := by
  unfold processSetGlobalPause
  split
  · iterate 3 refine Exec.keeping_bind inferInstance fun _ => ?_
    refine keeping_updateAccount fun c inRange => { inRange with globalPause := ?_ }
    show (if paused then 1 else 0) < _
    cases paused <;> decide
  · infer_instance

/-! ### Multisig -/

include bumps fits in
theorem keeping_processInitAdminMultisig {args : MultisigArgs} (signers : KeysFit args.signers) :
    Keeping (Stays Ledger.InRange) (processInitAdminMultisig rt inv args) := by
  unfold processInitAdminMultisig
  split
  next admin config multisig system rest accounts =>
    have keys := fits.keys accounts
    iterate 6 refine Exec.keeping_bind inferInstance fun _ => ?_
    refine keeping_assertPda bumps fun bump small => Exec.keeping_bind inferInstance fun _ => ?_
    refine keeping_after_check fun _ _ _ valid => keeping_initAccount ?_
    exact
      { bump := small
        threshold := args.threshold.toNat_lt
        bootstrapAdmin := keys _ (by simp)
        version := (by decide : 1 < 2 ^ 64)
        signers := keysStored_of_fit (AdminMultisig.validate_ok.mp valid).1.2 signers }
  · infer_instance

theorem keeping_processRotateAdminMultisig {args : MultisigArgs} (signers : KeysFit args.signers) :
    Keeping (Stays Ledger.InRange) (processRotateAdminMultisig rt inv args) := by
  have rotated : Keeping (Stays AdminMultisig.InRange) (rotateMultisig rt inv args) := keeping_rotateMultisig signers
  unfold processRotateAdminMultisig
  split <;> infer_instance

/-! ### Timelock -/

include bumps fits in
theorem keeping_processProposeSetAttestationSigner {args : ProposeSetAttestationSignerArgs}
    (signer : args.newSigner.IsBytes) :
    Keeping (Stays Ledger.InRange) (processProposeSetAttestationSigner rt inv args) := by
  unfold processProposeSetAttestationSigner
  split
  next admin config timelock system rest accounts =>
    have keys := fits.keys accounts
    iterate 6 refine Exec.keeping_bind inferInstance fun _ => ?_
    refine keeping_assertPda bumps fun bump small => ?_
    iterate 2 refine Exec.keeping_bind inferInstance fun _ => ?_
    refine keeping_after_check fun _ _ _ later => keeping_writeData ?_
    exact
      { kind := (by decide : TL_KIND_SET_ATTESTATION_SIGNER < 2 ^ 8)
        status := (by decide : TL_STATUS_PENDING < 2 ^ 8)
        bump := small
        proposalId := args.proposalId.toNat_lt
        proposer := keys _ (by simp)
        newSigner := signer
        proposedSlot := inv.slot_lt
        proposedUnixTs := fits.clock
        executableAfterUnixTs := not_not.mp later }
  · infer_instance

instance (proposalId : UInt64) :
    Keeping (Stays Ledger.InRange) (processExecuteSetAttestationSigner rt inv proposalId) := by
  unfold processExecuteSetAttestationSigner
  split
  · iterate 5 refine Exec.keeping_bind inferInstance fun _ => ?_
    refine keeping_after upholds_load fun tl (proposed : tl.InRange) => ?_
    iterate 2 refine Exec.keeping_bind inferInstance fun _ => ?_
    refine Exec.keeping_bind (keeping_updateAccount fun c inRange => ?_) fun _ =>
      keeping_updateAccount fun p inRange => ?_
    · exact { inRange with attestationSigner := proposed.newSigner }
    · refine { inRange with status := ?_ }
      show TL_STATUS_EXECUTED < _
      decide
  · infer_instance

instance (proposalId : UInt64) : Keeping (Stays Ledger.InRange) (processCancelTimelockProposal rt inv proposalId) := by
  unfold processCancelTimelockProposal
  split
  · iterate 7 refine Exec.keeping_bind inferInstance fun _ => ?_
    refine keeping_updateAccount fun p inRange => { inRange with status := ?_ }
    show TL_STATUS_CANCELLED < _
    decide
  · infer_instance

/-! ### Bucket registry -/

theorem words_defaults :
    (∀ v ∈ DEFAULT_LEVERAGE_BPS, v < 2 ^ 32) ∧ ∀ v ∈ DEFAULT_COLLATERAL_BUCKETS, v < 2 ^ 64 := by
  decide

include bumps in
theorem keeping_processInitBucketRegistry {args : BucketRegistryArgs} :
    Keeping (Stays Ledger.InRange) (processInitBucketRegistry rt inv args) := by
  unfold processInitBucketRegistry
  split
  · iterate 6 refine Exec.keeping_bind inferInstance fun _ => ?_
    refine keeping_assertPda bumps fun bump small => Exec.keeping_bind inferInstance fun _ => ?_
    refine keeping_after_check fun _ _ _ valid => keeping_initAccount ?_
    obtain ⟨few, few'⟩ := BucketRegistry.length_of_validateInputs valid
    have leverages :
        ∀ v ∈ if args.leverageBps = [] then DEFAULT_LEVERAGE_BPS else args.leverageBps.map (·.toNat), v < 2 ^ 32 := by
      split
      · exact words_defaults.1
      · exact words_u32 _
    have buckets :
        ∀ v ∈ if args.collateralBuckets = [] then DEFAULT_COLLATERAL_BUCKETS else args.collateralBuckets.map (·.toNat),
        v < 2 ^ 64 := by
      split
      · exact words_defaults.2
      · exact words_u64 _
    exact ⟨small, (by decide : 1 < 2 ^ 64), ⟨few, leverages⟩, ⟨few', buckets⟩⟩
  · infer_instance

instance (args : BucketRegistryArgs) : Keeping (Stays Ledger.InRange) (processSetBucketRegistry rt inv args) := by
  unfold processSetBucketRegistry
  split <;> infer_instance

/-! ### Stablecoin registry -/

include bumps fits in
theorem keeping_processInitStablecoinRegistry {args : InitStablecoinRegistryArgs} (mints : KeysFit args.initialMints) :
    Keeping (Stays Ledger.InRange) (processInitStablecoinRegistry rt inv args) := by
  unfold processInitStablecoinRegistry
  split
  next admin config registry wusdMint wusdAuthority tokenProgram system rentSysvar rest accounts =>
    have keys := fits.keys accounts
    iterate 8 refine Exec.keeping_bind inferInstance fun _ => ?_
    refine keeping_assertPda bumps fun bump small => ?_
    iterate 4 refine Exec.keeping_bind inferInstance fun _ => ?_
    refine keeping_after_check fun _ _ _ few => Exec.keeping_bind inferInstance fun _ => keeping_initAccount ?_
    exact
      { bump := small
        wusdDecimals := args.wusdDecimals.toNat_lt
        wusdMint := keys _ (by simp)
        version := (by decide : 1 < 2 ^ 64)
        mints := keysStored_of_fit (not_lt.mp few) mints }
  · infer_instance

include fits in
theorem keeping_processAddStablecoinMint : Keeping (Stays Ledger.InRange) (processAddStablecoinMint rt inv) := by
  unfold processAddStablecoinMint loadMint
  split
  next config registry mint rest accounts =>
    have keys := fits.keys accounts
    have accepted := keeping_acceptMint (keys mint (by simp))
    repeat with_reducible refine keeping_bind inferInstance fun _ => ?_
    infer_instance
  · infer_instance

instance : Keeping (Stays Ledger.InRange) (processRemoveStablecoinMint rt inv) := by
  unfold processRemoveStablecoinMint
  split <;> infer_instance

instance (amount : UInt64) : Keeping (Stays Ledger.InRange) (processWrapStablecoin rt inv amount) := by
  unfold processWrapStablecoin requireAccepted loadReserve
  refine Exec.keeping_bind inferInstance fun _ => ?_
  split <;> (repeat with_reducible refine keeping_bind inferInstance fun _ => ?_) <;> infer_instance

instance (amount : UInt64) : Keeping (Stays Ledger.InRange) (processUnwrapStablecoin rt inv amount) := by
  unfold processUnwrapStablecoin requireAccepted loadReserve
  refine Exec.keeping_bind inferInstance fun _ => ?_
  split <;> (repeat with_reducible refine keeping_bind inferInstance fun _ => ?_) <;> infer_instance

end Config

end Polyleverage
