import Polyleverage.Invariants.Shelves
import Polyleverage.Ranges.Admin

/-! # The ranges under trading

Reserves and fees are computed by checked operations before they are written; what a match writes comes
out of the book, the instrument and the derived addresses.
-/

namespace Polyleverage

open Machine Exec

variable {rt : Runtime} {inv : rt.Invocation} {k payer : Pubkey}

/-! ### Instruments -/

section Instruments

variable (bumps : rt.BumpsFit) (fits : inv.InRange)

theorem CreateInstrumentArgs.inRange_config {args : CreateInstrumentArgs} {mint book : Pubkey} {bump : ℕ}
    (market : args.marketId < 2 ^ 256) (tokenA : args.sourceTokenIdA < 2 ^ 256) (tokenB : args.sourceTokenIdB < 2 ^ 256)
    (mintBytes : mint.IsBytes) (bookBytes : book.IsBytes) (small : bump < 2 ^ 8) :
    (args.config mint book bump).InRange where
  status := (by decide : STATUS_ACTIVE < 2 ^ 8)
  bump := small
  source := args.source.toNat_lt
  marketId := market
  sourceTokenIdA := tokenA
  sourceTokenIdB := tokenB
  collateralMint := mintBytes
  intentBook := bookBytes
  leverageBps := args.leverageBps.toNat_lt
  collateralBucket := args.collateralBucket.toNat_lt
  twapWindowSlots := args.twapWindowSlots.toNat_lt
  tickFp := args.tickFp.toNat_lt
  liquidationBps := args.liquidationBps.toNat_lt
  liquidationBountyBps := args.liquidationBountyBps.toNat_lt
  maxStalenessSecs := args.maxStalenessSecs.toNat_lt
  referenceUsd := args.referenceUsd.toNat_lt

include bumps in
theorem keeping_ensureMarketNonce {marketId : ℕ} (market : marketId < 2 ^ 256) :
    Keeping (Stays Ledger.InRange) (ensureMarketNonce rt inv payer k marketId) := by
  refine keeping_assertPda bumps fun bump small => Exec.keeping_bind inferInstance fun s => ?_
  have fresh : (MarketNonceAccount.init marketId bump).InRange := by
    refine ⟨?_, small, market, ?_, ?_, ?_, ?_⟩ <;> simp [MarketNonceAccount.init]
  have : Keeping (Stays Ledger.InRange)
      (createAndInit rt inv payer k (.marketNonce (MarketNonceAccount.init marketId bump))) :=
    keeping_createAndInit fresh
  infer_instance

include bumps fits in
theorem keeping_processCreateInstrument {args : CreateInstrumentArgs} (market : args.marketId < 2 ^ 256)
    (tokenA : args.sourceTokenIdA < 2 ^ 256) (tokenB : args.sourceTokenIdB < 2 ^ 256) :
    Keeping (Stays Ledger.InRange) (processCreateInstrument rt inv args) := by
  unfold processCreateInstrument
  split
  next admin config instrument book mint system nonce rest accounts =>
    have keys := fits.keys accounts
    iterate 13 refine Exec.keeping_bind inferInstance fun _ => ?_
    refine keeping_assertPda bumps fun bump small => ?_
    iterate 2 refine Exec.keeping_bind inferInstance fun _ => ?_
    refine keeping_assertPda bumps fun bookBump small' => ?_
    iterate 3 refine Exec.keeping_bind inferInstance fun _ => ?_
    have config : (args.config mint book bump).InRange :=
      CreateInstrumentArgs.inRange_config market tokenA tokenB (keys _ (by simp)) (keys _ (by simp)) small
    have slots : (IntentBook.initIntentBook instrument args.initialBookCapacity.toNat bookBump 0).InRange :=
      IntentBook.inRange_init (keys _ (by simp)) args.initialBookCapacity.toNat_lt small'
    refine Exec.keeping_bind (keeping_initAccount config) fun _ =>
      Exec.keeping_bind (keeping_initAccount slots) fun _ => ?_
    exact keeping_ensureMarketNonce bumps market
  · infer_instance

instance (pause : Bool) : Keeping (Stays Ledger.InRange) (processSetInstrumentStatus rt inv pause) := by
  unfold processSetInstrumentStatus
  split
  · iterate 4 refine Exec.keeping_bind inferInstance fun _ => ?_
    refine keeping_updateAccount fun c inRange => { inRange with status := ?_ }
    show (if pause then STATUS_PAUSED else STATUS_ACTIVE) < _
    cases pause <;> decide
  · infer_instance

end Instruments

/-! ### Margin accounts, sessions and fees -/

section Accounts

variable (bumps : rt.BumpsFit) (fits : inv.InRange)

include bumps fits in
theorem keeping_processCreateMarginAccount : Keeping (Stays Ledger.InRange) (processCreateMarginAccount rt inv) := by
  unfold processCreateMarginAccount
  split
  next owner margin mint system rest accounts =>
    have keys := fits.keys accounts
    iterate 5 refine Exec.keeping_bind inferInstance fun _ => ?_
    refine keeping_assertPda bumps fun bump small => Exec.keeping_bind inferInstance fun _ => keeping_createAndInit ?_
    exact MarginAccount.inRange_init (keys _ (by simp)) (keys _ (by simp)) small
  · infer_instance

instance (amount : UInt64) : Keeping (Stays Ledger.InRange) (processDeposit rt inv amount) := by
  refine Exec.keeping_bind inferInstance fun _ => ?_
  split <;> (repeat with_reducible refine keeping_bind inferInstance fun _ => ?_) <;> infer_instance

instance (amount : UInt64) : Keeping (Stays Ledger.InRange) (processWithdraw rt inv amount) := by
  refine Exec.keeping_bind inferInstance fun _ => ?_
  split <;> (repeat with_reducible refine keeping_bind inferInstance fun _ => ?_) <;> infer_instance

theorem Session.length_of_validate {expiresAtSlot perIntentMax cap createdAtSlot : ℕ} {allowed : List Pubkey}
    (valid : Session.validate expiresAtSlot perIntentMax cap createdAtSlot allowed = .ok ()) :
    allowed.length ≤ MAX_SESSION_INSTRUMENTS := by
  unfold Session.validate at valid
  split_ifs at valid with _ _ _ many
  exact not_lt.mp many

instance (owner) : Keeping (Stays Ledger.InRange) (prepareSession rt inv owner k) := by
  unfold prepareSession
  infer_instance

include bumps fits in
theorem keeping_processCreateSession {args : CreateSessionArgs} (delegate : args.delegate.IsBytes)
    (allowed : KeysFit args.allowedInstruments) : Keeping (Stays Ledger.InRange)
    (processCreateSession rt inv args) := by
  unfold processCreateSession
  split
  next owner config session system rest accounts =>
    have keys := fits.keys accounts
    iterate 6 refine Exec.keeping_bind inferInstance fun _ => ?_
    refine keeping_assertPda bumps fun bump small => keeping_after_check fun _ _ _ valid => ?_
    refine Exec.keeping_bind inferInstance fun _ => keeping_writeData ?_
    exact
      { bump := small
        revoked := (by decide : 0 < 2 ^ 8)
        owner := keys _ (by simp)
        delegate
        expiresAtSlot := args.expiresAtSlot.toNat_lt
        perIntentMaxCollateralAtoms := args.perIntentMaxCollateralAtoms.toNat_lt
        cumulativeCollateralUsed := (by decide : 0 < 2 ^ 64)
        cumulativeCollateralCap := args.cumulativeCollateralCap.toNat_lt
        createdAtSlot := inv.slot_lt
        version := (by decide : 1 < 2 ^ 64)
        allowedInstruments := keysStored_of_fit (Session.length_of_validate valid) allowed }
  · infer_instance

instance : Keeping (Stays Ledger.InRange) (processRevokeSession rt inv) := by
  unfold processRevokeSession
  split <;> (repeat with_reducible refine keeping_bind inferInstance fun _ => ?_) <;> infer_instance

include bumps in
theorem keeping_processInitFeeSchedule {tiers : FeeTierArgs} :
    Keeping (Stays Ledger.InRange) (processInitFeeSchedule rt inv tiers) := by
  unfold processInitFeeSchedule
  split
  · iterate 7 refine Exec.keeping_bind inferInstance fun _ => ?_
    refine keeping_assertPda bumps fun bump small => Exec.keeping_bind inferInstance fun _ => keeping_createAndInit ?_
    exact FeeSchedule.inRange_init (inRange_toRawTiers tiers) inv.slot_lt small
  · infer_instance

instance (tiers : FeeTierArgs) : Keeping (Stays Ledger.InRange) (processSetFeeSchedule rt inv tiers) := by
  have := keeping_setTiers (inRange_toRawTiers tiers) inv.slot_lt
  unfold processSetFeeSchedule
  split <;> (repeat with_reducible refine keeping_bind inferInstance fun _ => ?_) <;> infer_instance

instance (amount : UInt64) : Keeping (Stays Ledger.InRange) (processSweepFees rt inv amount) := by
  refine Exec.keeping_bind inferInstance fun _ => ?_
  split <;> (repeat with_reducible refine keeping_bind inferInstance fun _ => ?_) <;> infer_instance

include bumps in
theorem keeping_ensureFeeTreasury {mint : Pubkey} (mintBytes : mint.IsBytes) :
    Keeping (Stays Ledger.InRange) (ensureFeeTreasury rt inv payer k mint) := by
  refine keeping_assertPda bumps fun bump small => Exec.keeping_bind inferInstance fun s => ?_
  have : Keeping (Stays Ledger.InRange) (createAndInit rt inv payer k (.feeTreasury (FeeTreasury.init mint bump))) :=
    keeping_createAndInit (FeeTreasury.inRange_init mintBytes small)
  infer_instance

include bumps in
theorem keeping_ensureUserVolume {owner mint : Pubkey} (ownerBytes : owner.IsBytes) (mintBytes : mint.IsBytes) :
    Keeping (Stays Ledger.InRange) (ensureUserVolume rt inv payer k owner mint) := by
  refine keeping_assertPda bumps fun bump small => Exec.keeping_bind inferInstance fun s => ?_
  have : Keeping (Stays Ledger.InRange)
      (createAndInit rt inv payer k (.userVolume (UserVolume.init owner mint inv.slot bump))) :=
    keeping_createAndInit (UserVolume.inRange_init ownerBytes mintBytes inv.slot_lt small)
  infer_instance

end Accounts

/-! ### Matching -/

section Matching

variable (bumps : rt.BumpsFit)

theorem MatchResult.flags_lt (r : MatchResult) : r.flags < 2 ^ 8 := by
  unfold MatchResult.flags
  cases r.longReentry <;> cases r.shortReentry <;> decide

theorem MatchResult.InRange.pmlc {r : MatchResult} {instrument : Pubkey} {inst : InstrumentConfig}
    {notional sizeFp slot : ℕ}
    (fits : r.InRange) (config : inst.InRange) (key : instrument.IsBytes) (now : slot < 2 ^ 64) :
    (r.pmlc instrument inst notional sizeFp slot).InRange where
  status := (by decide : PMLC_STATUS_LIVE < 2 ^ 8)
  closeReason := (by decide : CLOSE_REASON_NONE < 2 ^ 8)
  flags := r.flags_lt
  bump := fits.pmlcBump
  id := fits.pmlcId
  instrument := key
  collateralMint := config.collateralMint
  marketId := config.marketId
  longOwner := fits.longTrader
  shortOwner := fits.shortTrader
  collateralPerSide := config.collateralBucket
  leverageBps := config.leverageBps
  entryPriceFp := fits.entryFp
  notionalAtoms := by
    show (if notional < 2 ^ 64 then notional else maxValue 64) < 2 ^ 64
    split
    · assumption
    · decide
  sizeFpLo := truncate_lt _ _
  sizeFpHi := truncate_lt _ _
  openedSlot := now
  lastMarkSlot := now
  longReentryPriceFp := fits.longPrice
  shortReentryPriceFp := fits.shortPrice

theorem MatchResult.InRange.taker {r : MatchResult} (fits : r.InRange) : r.taker.IsBytes := by
  unfold MatchResult.taker
  split
  · exact fits.longTrader
  · exact fits.shortTrader

theorem MatchResult.InRange.maker {r : MatchResult} (fits : r.InRange) : r.maker.IsBytes := by
  unfold MatchResult.maker
  split
  · exact fits.shortTrader
  · exact fits.longTrader

include bumps in
theorem keeping_chargeTaker {ctx : MatchCtx} {r : MatchResult} {mint : Pubkey} {perSide : ℕ} (fits : r.InRange)
    (mintBytes : mint.IsBytes) : Keeping (Stays Ledger.InRange) (chargeTaker rt inv ctx r mint perSide) := by
  refine Exec.keeping_bind (keeping_ensureFeeTreasury bumps mintBytes) fun _ => ?_
  refine Exec.keeping_bind (keeping_ensureUserVolume bumps fits.taker mintBytes) fun _ => ?_
  refine Exec.keeping_bind (keeping_ensureUserVolume bumps fits.maker mintBytes) fun _ => ?_
  infer_instance

theorem keeping_openPmlc {ctx : MatchCtx} {r : MatchResult} {inst : InstrumentConfig} (fits : r.InRange)
    (config : inst.InRange) (key : ctx.instrument.IsBytes) : Keeping (Stays Ledger.InRange)
    (openPmlc rt inv ctx r inst) := by
  iterate 3 refine Exec.keeping_bind inferInstance fun _ => ?_
  exact keeping_writeData (fits.pmlc config key inv.slot_lt)

include bumps in
theorem keeping_matchPairCore {ctx : MatchCtx} {long short : ℕ} (key : ctx.instrument.IsBytes) :
    Keeping (Stays Ledger.InRange) (matchPairCore rt inv ctx long short) := by
  refine keeping_after upholds_load fun inst (config : inst.InRange) => ?_
  iterate 2 refine Exec.keeping_bind inferInstance fun _ => ?_
  refine keeping_after (upholds_atBook (upholds_matchInBook bumps _ _ _ _ _)) fun r fits => ?_
  iterate 2 refine Exec.keeping_bind inferInstance fun _ => ?_
  refine Exec.keeping_bind (keeping_chargeTaker bumps fits config.collateralMint) fun fee => ?_
  iterate 2 refine Exec.keeping_bind inferInstance fun _ => ?_
  exact keeping_openPmlc fits config key

variable (fits : inv.InRange)

include fits in
/-- The instrument of a match is one of the accounts. -/
theorem upholds_unpackMatchAccounts :
    Upholds Ledger.InRange (fun ctx => ctx.instrument.IsBytes) (unpackMatchAccounts rt inv) := by
  unfold unpackMatchAccounts
  split
  next payer instrument book longMargin shortMargin pmlc system rest accounts =>
    have keys := fits.keys accounts
    iterate 7 refine upholds_bind (upholds_of_keeping _) fun _ _ => ?_
    split
    · iterate 5 refine upholds_bind (upholds_of_keeping _) fun _ _ => ?_
      exact upholds_pure (keys _ (by simp))
    · exact upholds_throw _
  · exact upholds_throw _

include bumps fits in
theorem keeping_processMatchPair {args : MatchPairArgs} :
    Keeping (Stays Ledger.InRange) (processMatchPair rt inv args) :=
  keeping_after (upholds_unpackMatchAccounts fits) fun _ key => keeping_matchPairCore bumps key

include bumps fits in
theorem keeping_processMatchBestAvailable : Keeping (Stays Ledger.InRange) (processMatchBestAvailable rt inv) := by
  refine keeping_after (upholds_unpackMatchAccounts fits) fun ctx key => ?_
  have (long short : ℕ) : Keeping (Stays Ledger.InRange) (matchPairCore rt inv ctx long short) :=
    keeping_matchPairCore bumps key
  infer_instance

end Matching

end Polyleverage
