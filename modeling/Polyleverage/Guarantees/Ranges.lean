import Polyleverage.Ranges.Positions
import Polyleverage.Sample

/-! # Every stored number fits its word

Whatever bytes the program is called with, its accounts hold what the words of their layouts can hold. So
reading numbers without bounds instead of words loses nothing in any ledger that calls lead to.
-/

namespace Polyleverage

open Machine Exec

variable {rt : Runtime} {inv : rt.Invocation} {s t : Ledger}

/-! ### One call -/

/-- Growth that returns leaves a book that fits; growth that fails may leave more slots than it counted. -/
theorem inRange_processExpandIntentBook {additionalNodes : UInt32} (inRange : s.InRange)
    (ran : (processExpandIntentBook rt inv additionalNodes).run s = .ok () t) : t.InRange := by
  simp only [processExpandIntentBook, Exec.bind_check, exists_const] at ran
  obtain ⟨-, ran⟩ := ran
  split at ran
  · simp only [Exec.bind_check, exists_const] at ran
    obtain ⟨-, -, -, -, -, inst, -, -, -, -, ran⟩ := ran
    obtain ⟨b, b', held, grown, rfl⟩ := atBook_ok ran
    have book : b.InRange := inRange.held (AccountData.loadBook_ok.mpr held)
    exact inRange.setData (expandNodes_ok book grown)
  · cases ran

/-- Arguments that have an encoding and a surrounding that fits leave accounts that fit. -/
theorem inRange_process (bumps : rt.BumpsFit) (fits : inv.InRange) {i : Instruction} (sendable : i.Sendable)
    (inRange : s.InRange) (ran : (process rt inv i).run s = .ok () t) : t.InRange := by
  have kept (m : LedgerM Unit) (keeping : Keeping (Stays Ledger.InRange) m) (ran : m.run s = .ok () t) : t.InRange :=
    (upholds_of_keeping m).ok inRange ran |>.1
  cases i with
  | initProgramConfig args => exact kept _ (keeping_processInitProgramConfig bumps fits sendable) ran
  | createInstrument args =>
    obtain ⟨market, tokenA, tokenB⟩ := sendable
    exact kept _ (keeping_processCreateInstrument bumps fits market tokenA tokenB) ran
  | expandIntentBook additionalNodes => exact inRange_processExpandIntentBook inRange ran
  | createMarginAccount => exact kept _ (keeping_processCreateMarginAccount bumps fits) ran
  | postIntent args => exact kept _ (keeping_processPostIntent bumps fits) ran
  | matchPair args => exact kept _ (keeping_processMatchPair bumps fits) ran
  | matchBestAvailable => exact kept _ (keeping_processMatchBestAvailable bumps fits) ran
  | createSession args => exact kept _ (keeping_processCreateSession bumps fits sendable.1 sendable.2) ran
  | postIntentDelegated args => exact kept _ (keeping_processPostIntentDelegated bumps fits) ran
  | liquidate offset => exact kept _ (keeping_processLiquidate fits) ran
  | resolve offset => exact kept _ (keeping_processResolve fits) ran
  | closeMutual offset => exact kept _ (keeping_processCloseMutual fits) ran
  | claimReentry args => exact kept _ (keeping_processClaimReentry fits) ran
  | novate side => exact kept _ (keeping_processNovate fits) ran
  | initFeeSchedule tiers => exact kept _ (keeping_processInitFeeSchedule bumps) ran
  | proposeSetAttestationSigner args =>
    exact kept _ (keeping_processProposeSetAttestationSigner bumps fits sendable) ran
  | initAdminMultisig args => exact kept _ (keeping_processInitAdminMultisig bumps fits sendable) ran
  | rotateAdminMultisig args => exact kept _ (keeping_processRotateAdminMultisig sendable) ran
  | initBucketRegistry args => exact kept _ (keeping_processInitBucketRegistry bumps) ran
  | initStablecoinRegistry args => exact kept _ (keeping_processInitStablecoinRegistry bumps fits sendable) ran
  | addStablecoinMint => exact kept _ (keeping_processAddStablecoinMint fits) ran
  | setGlobalPause paused => exact kept (processSetGlobalPause rt inv paused) inferInstance ran
  | pauseInstrument => exact kept (processSetInstrumentStatus rt inv true) inferInstance ran
  | resumeInstrument => exact kept (processSetInstrumentStatus rt inv false) inferInstance ran
  | deposit amount => exact kept (processDeposit rt inv amount) inferInstance ran
  | withdraw amount => exact kept (processWithdraw rt inv amount) inferInstance ran
  | cancelIntent intentId => exact kept (processCancelIntent rt inv intentId) inferInstance ran
  | pruneExpired => exact kept (processPruneExpired rt inv) inferInstance ran
  | revokeSession => exact kept (processRevokeSession rt inv) inferInstance ran
  | cancelIntentDelegated intentId => exact kept (processCancelIntentDelegated rt inv intentId) inferInstance ran
  | matchSubstitute args => exact kept (doSubstitute rt inv args false) inferInstance ran
  | matchSubstituteWithSettle args => exact kept (doSubstitute rt inv args true) inferInstance ran
  | closePmlc => exact kept (processClosePmlc rt inv) inferInstance ran
  | setFeeSchedule tiers => exact kept (processSetFeeSchedule rt inv tiers) inferInstance ran
  | sweepFees amount => exact kept (processSweepFees rt inv amount) inferInstance ran
  | executeSetAttestationSigner proposalId =>
    exact kept (processExecuteSetAttestationSigner rt inv proposalId) inferInstance ran
  | cancelTimelockProposal proposalId => exact kept (processCancelTimelockProposal rt inv proposalId) inferInstance ran
  | setBucketRegistry args => exact kept (processSetBucketRegistry rt inv args) inferInstance ran
  | removeStablecoinMint => exact kept (processRemoveStablecoinMint rt inv) inferInstance ran
  | wrapStablecoin amount => exact kept (processWrapStablecoin rt inv amount) inferInstance ran
  | unwrapStablecoin amount => exact kept (processUnwrapStablecoin rt inv amount) inferInstance ran

/-! ### Runs -/

/-- The ledger after some calls by their data. -/
def runEntryCalls (calls : List (EntryCall rt)) (s : Ledger) : Ledger := calls.foldl (fun s c => c.execute s) s

theorem EntryCall.inRange_execute (bumps : rt.BumpsFit) {c : EntryCall rt} (fits : c.inv.InRange)
    (inRange : s.InRange) :
    (c.execute s).InRange := by
  cases read : unpack c.data with
  | error e => rwa [EntryCall.execute_of_error read]
  | ok i =>
    rw [EntryCall.execute_of_ok read]
    rcases execute_eq_or_ok ⟨c.inv, i⟩ s with same | ran
    · rwa [same]
    · exact inRange_process bumps fits (sendable_of_unpack read).1 inRange ran

/-- What every call keeps holds after the calls. -/
theorem runEntryCalls_induct {P : Ledger → Prop} {calls : List (EntryCall rt)}
    (step : ∀ c ∈ calls, ∀ s, P s → P (c.execute s)) (start : P s) : P (runEntryCalls calls s) := by
  induction calls generalizing s with
  | nil => exact start
  | cons c calls ih =>
    obtain ⟨first, rest⟩ := List.forall_mem_cons.mp step
    exact ih rest (first s start)

/-- Arbitrary data never makes the program store a number that its word cannot hold. -/
theorem inRange_runEntryCalls (bumps : rt.BumpsFit) {calls : List (EntryCall rt)} (fits : ∀ c ∈ calls, c.inv.InRange)
    (start : s.InRange) : (runEntryCalls calls s).InRange := by
  apply runEntryCalls_induct _ start
  intro c member s inRange
  exact EntryCall.inRange_execute bumps (fits c member) inRange

/-! ### A run that stores numbers -/

instance (k : Pubkey) : Decidable k.IsBytes := inferInstanceAs (Decidable (_ < _))

instance (inv : rt.Invocation) : Decidable inv.InRange :=
  decidable_of_iff ((∀ k ∈ inv.accounts, k.IsBytes) ∧ FitsSigned 64 inv.unixTimestamp)
    ⟨fun ⟨accounts, clock⟩ => ⟨accounts, clock⟩, fun fits => ⟨fits.accounts, fits.clock⟩⟩

theorem Ledger.inRange_empty : Ledger.InRange (∅ : Ledger) := by
  intro k
  rw [Ledger.data, Store.get_empty]
  trivial

namespace Sample

/-- The data of a call, with what may follow its arguments. -/
def sent (c : Call Runtime.sample) (rest : List UInt8) : EntryCall Runtime.sample := ⟨c.inv, c.instruction.pack rest⟩

theorem inRange_genesis : genesis.InRange := by
  unfold genesis
  simp only [List.foldl_cons, List.foldl_nil]
  iterate 5 refine Ledger.InRange.set ?_ trivial
  exact Ledger.inRange_empty

/-- Everybody has funds, and alice posts an intent after some data that is no instruction. -/
def sending : List (EntryCall Runtime.sample) :=
  (launch 30 ++ [openMarket poly]).map (sent · []) ++ [⟨(openMarket poly).inv, [99, 1]⟩, sent (post poly alice 0 3) [1]]

end Sample

/-- The reserve of the intent is stored, and so is the price that it names. -/
theorem inRange_sending : (runEntryCalls Sample.sending Sample.genesis).InRange ∧
    ((runEntryCalls Sample.sending Sample.genesis).data (Sample.marginOf Sample.alice)).loadMargin.toOption.map
      (fun m => (m.freeCollateral, m.reservedCollateral)) = some (97000, 3000) := by
  have bumps : Runtime.sample.BumpsFit := fun _ => (by decide : 255 < 2 ^ 8)
  have fits : ∀ c ∈ Sample.sending, c.inv.InRange := by decide +kernel
  have reserved :
      ((runEntryCalls Sample.sending Sample.genesis).data (Sample.marginOf Sample.alice)).loadMargin.toOption.map
      (fun m => (m.freeCollateral, m.reservedCollateral)) = some (97000, 3000) := by
    decide +kernel
  exact ⟨@inRange_runEntryCalls Runtime.sample Sample.genesis bumps Sample.sending fits Sample.inRange_genesis, reserved⟩

end Polyleverage
