import Polyleverage.Pod
import Polyleverage.Ranges.Ledger

/-! # What fits has bytes

A record whose fields fit their words can be written in its layout.
-/

namespace Polyleverage

open Codec Machine

theorem valid_i64 {v : ℤ} (fits : FitsSigned 64 v) : i64.Valid v := by
  unfold FitsSigned at fits
  show -(256 ^ 8 : ℕ) ≤ 2 * v ∧ 2 * v < (256 ^ 8 : ℕ)
  omega

theorem valid_countedKeys {α : Type} {middle : Codec α} {cells : ℕ} {keys : List Pubkey} {a : α}
    (few : cells < 256) (stored : KeysStored cells keys) (valid : middle.Valid a) : (countedKeys cells middle).Valid (a, keys) := by
  have length := stored.length
  have count : keys.length < 256 := by omega
  exact ⟨count, valid, valid_cells.mpr ⟨length, rfl, stored.keys⟩⟩

theorem ProgramConfig.InRange.valid {c : ProgramConfig} (fits : c.InRange) : ProgramConfig.fields.Valid c :=
  ⟨fits.globalPause, fits.bump, fits.admin, fits.feeTreasuryAuthority, fits.attestationSigner,
    fits.defaultMaxStalenessSecs⟩

theorem MarginAccount.InRange.valid {m : MarginAccount} (fits : m.InRange) : MarginAccount.fields.Valid m :=
  ⟨fits.bump, fits.owner, fits.collateralMint, fits.freeCollateral, fits.reservedCollateral, fits.lockedCollateral,
    valid_i64 fits.realizedPnl⟩

theorem InstrumentConfig.InRange.valid {c : InstrumentConfig} (fits : c.InRange) : InstrumentConfig.fields.Valid c :=
  ⟨fits.status, fits.bump, fits.source, fits.marketId, fits.sourceTokenIdA, fits.sourceTokenIdB, fits.collateralMint,
    fits.intentBook, fits.leverageBps, fits.collateralBucket, fits.twapWindowSlots, fits.tickFp, fits.liquidationBps,
    fits.liquidationBountyBps, fits.maxStalenessSecs, fits.referenceUsd⟩

theorem Pmlc.InRange.valid {p : Pmlc} (fits : p.InRange) : Pmlc.fields.Valid p :=
  ⟨fits.status, fits.closeReason, fits.flags, fits.bump, fits.id, fits.instrument, fits.collateralMint, fits.marketId,
    fits.longOwner, fits.shortOwner, fits.collateralPerSide, fits.leverageBps, fits.entryPriceFp, fits.notionalAtoms,
    fits.sizeFpLo, fits.sizeFpHi, fits.openedSlot, fits.lastMarkSlot, fits.longReentryPriceFp,
    fits.shortReentryPriceFp⟩

theorem MarketNonceAccount.InRange.valid {n : MarketNonceAccount} (fits : n.InRange) :
    MarketNonceAccount.fields.Valid n :=
  ⟨fits.isResolved, fits.bump, fits.marketId, fits.lastAcceptedCreNonce, fits.lastAcceptedTwapFp, fits.lastAcceptedTs,
    fits.finalOutcomeBps⟩

theorem FeeSchedule.InRange.valid {s : FeeSchedule} (fits : s.InRange) : FeeSchedule.fields.Valid s :=
  ⟨fits.bump, fun tier member => ⟨(fits.tiers tier member).volumeThreshold, (fits.tiers tier member).feeBps⟩,
    fits.maxTierFeeBps, fits.lastUpdatedSlot⟩

theorem UserVolume.InRange.valid {v : UserVolume} (fits : v.InRange) : UserVolume.fields.Valid v :=
  ⟨fits.bump, fits.owner, fits.collateralMint, fits.volumeCurrentAtoms, fits.volumePrevAtoms, fits.epochStartSlot,
    fits.epochLengthSlots⟩

theorem FeeTreasury.InRange.valid {t : FeeTreasury} (fits : t.InRange) : FeeTreasury.fields.Valid t :=
  ⟨fits.bump, fits.collateralMint, fits.accruedAtoms, fits.totalSweptAtoms⟩

theorem TimelockProposal.InRange.valid {p : TimelockProposal} (fits : p.InRange) : TimelockProposal.fields.Valid p :=
  ⟨fits.kind, fits.status, fits.bump, fits.proposalId, fits.proposer, fits.newSigner, fits.proposedSlot,
    valid_i64 fits.proposedUnixTs, valid_i64 fits.executableAfterUnixTs⟩

theorem AdminMultisig.InRange.valid {ms : AdminMultisig} (fits : ms.InRange) : AdminMultisig.fields.Valid ms :=
  ⟨fits.bump, fits.threshold, valid_countedKeys (by decide) fits.signers ⟨fits.bootstrapAdmin, fits.version⟩⟩

theorem BucketRegistry.InRange.valid {r : BucketRegistry} (fits : r.InRange) : BucketRegistry.fields.Valid r := by
  have few : r.leverageBps.length < 256 := lt_of_le_of_lt fits.leverageBps.length (by decide)
  have few' : r.collateralBuckets.length < 256 := lt_of_le_of_lt fits.collateralBuckets.length (by decide)
  exact ⟨fits.bump, ⟨few, few'⟩, fits.version,
    valid_cells.mpr ⟨fits.leverageBps.length, rfl, fits.leverageBps.words⟩,
    valid_cells.mpr ⟨fits.collateralBuckets.length, rfl, fits.collateralBuckets.words⟩⟩

theorem StablecoinRegistry.InRange.valid {r : StablecoinRegistry} (fits : r.InRange) :
    StablecoinRegistry.fields.Valid r :=
  ⟨fits.bump, valid_countedKeys (by decide) fits.mints ⟨fits.wusdDecimals, fits.wusdMint, fits.version⟩⟩

theorem Session.InRange.valid {s : Session} (fits : s.InRange) : Session.fields.Valid s :=
  ⟨fits.bump, fits.revoked, valid_countedKeys (by decide) fits.allowedInstruments
    ⟨fits.owner, fits.delegate, fits.expiresAtSlot, fits.perIntentMaxCollateralAtoms, fits.cumulativeCollateralUsed,
      fits.cumulativeCollateralCap, fits.createdAtSlot, fits.version⟩⟩

theorem RawNode.InRange.valid {node : RawNode} (fits : node.InRange) : RawNode.layout.Valid node := by
  cases node with
  | free next => exact ⟨(by decide : 0 < 256), next, rfl, fits⟩
  | intent node =>
    obtain ⟨side, flags, left, right, parent, price, id, seat, total, remaining, expiration, seq, reserved, fee⟩ :=
      fits
    exact ⟨(by decide : 1 < 256), node, rfl, side, trivial, flags, left, right, parent, price, id, seat, total,
      remaining, expiration, seq, reserved, fee⟩
  | seat node =>
    obtain ⟨left, right, parent, trader, count⟩ := fits
    exact ⟨(by decide : 2 < 256), node, rfl, trivial, left, right, parent, trader, count⟩

theorem IntentBook.InRange.valid {b : IntentBook} (fits : b.InRange) : (IntentBook.fields b.nodes.length).Valid b := by
  obtain ⟨bump, instrument, long, short, seats, free, count, capacity, id, seq, fee⟩ := fits.header
  refine ⟨⟨bump, instrument, long, short, seats, free, count, capacity, id, seq, fee⟩, ?_⟩
  exact valid_many.mpr ⟨rfl, fun node member => (fits.nodes node member).valid⟩

end Polyleverage
