import Polyleverage.Processor.Book
import Polyleverage.Processor.Fees

/-! # Matching

Two crossing intents fill one contract against each other. The book is changed first, then the fee is
charged, the collateral of both sides is locked, and the position is created.
-/

namespace Polyleverage

open Machine

/-- What the book part of a match hands on. -/
structure MatchResult where
  longTrader : Pubkey
  shortTrader : Pubkey
  entryFp : ℕ
  feeBufReleaseLong : ℕ
  feeBufReleaseShort : ℕ
  takerIsLong : Bool
  longReentry : Bool
  shortReentry : Bool
  longPrice : ℕ
  shortPrice : ℕ
  pmlcId : ℕ
  pmlcBump : ℕ
  deriving DecidableEq, Repr

namespace MatchResult

/-- The later order takes. -/
def taker (r : MatchResult) : Pubkey := if r.takerIsLong then r.longTrader else r.shortTrader

def maker (r : MatchResult) : Pubkey := if r.takerIsLong then r.shortTrader else r.longTrader

def flags (r : MatchResult) : ℕ :=
  (if r.longReentry then PMLC_FLAG_LONG_REENTRY else 0) ||| (if r.shortReentry then PMLC_FLAG_SHORT_REENTRY else 0)

end MatchResult

/-- The accounts of a match. -/
structure MatchCtx where
  payer : Pubkey
  instrument : Pubkey
  book : Pubkey
  longMargin : Pubkey
  shortMargin : Pubkey
  pmlc : Pubkey
  feeSchedule : Pubkey
  takerVolume : Pubkey
  makerVolume : Pubkey
  feeTreasury : Pubkey
  deriving DecidableEq, Repr

variable (rt : Runtime) (inv : rt.Invocation)

/-- Fill one contract of the pair in the book and number the position. -/
def matchInBook (instrument pmlc : Pubkey) (bucket longIntentId shortIntentId nowSlot : ℕ) : BookM MatchResult := do
  let pair ← Exec.gets (Book.findPair longIntentId shortIntentId nowSlot)
  let (filled, longRelease, shortRelease) ← Exec.ofExcept (Book.consume bucket pair)
  Book.writePair filled
  let pmlcId ← IntentBook.nextIntentId
  Exec.rejectIf (rt.address (.pmlc instrument pmlcId) ≠ pmlc) PolyleverageError.invalidPda
  let longSeat ← Exec.gets (IntentBook.seat · pair.long.ownerSeat)
  let shortSeat ← Exec.gets (IntentBook.seat · pair.short.ownerSeat)
  pure
    { longTrader := longSeat.trader
      shortTrader := shortSeat.trader
      entryFp := priceMidpoint pair.long.priceFp pair.short.priceFp
      feeBufReleaseLong := longRelease
      feeBufReleaseShort := shortRelease
      takerIsLong := pair.short.postSeq < pair.long.postSeq
      longReentry := pair.long.flags &&& INTENT_FLAG_REENTRY ≠ 0
      shortReentry := pair.short.flags &&& INTENT_FLAG_REENTRY ≠ 0
      longPrice := pair.long.priceFp
      shortPrice := pair.short.priceFp
      pmlcId
      pmlcBump := rt.bump (.pmlc instrument pmlcId) }

/-- The account at `k` is the margin account of this owner and mint. -/
def validateMargin (owner mint k : Pubkey) : LedgerM Unit := do
  let bump ← assertPda rt (.margin owner mint) k
  let m ← load AccountData.loadMargin k
  Exec.ofExcept (m.requireIdentity owner mint bump)

/-- Record the volume of both sides and charge the taker's fee to the treasury. The result is the fee. -/
def chargeTaker (ctx : MatchCtx) (r : MatchResult) (mint : Pubkey) (perSide : ℕ) : LedgerM ℕ := do
  ensureFeeTreasury rt inv ctx.payer ctx.feeTreasury mint
  ensureUserVolume rt inv ctx.payer ctx.takerVolume r.taker mint
  ensureUserVolume rt inv ctx.payer ctx.makerVolume r.maker mint
  let sched ← load AccountData.loadFeeSchedule ctx.feeSchedule
  let vol ← load AccountData.loadUserVolume ctx.takerVolume
  let feeBps := sched.feeForVolume (vol.effective30dVolume inv.slot)
  let feeAtoms := truncate 64 (perSide * feeBps / BPS_DENOM)
  atAccount rt inv AccountData.loadUserVolume .userVolume ctx.takerVolume (UserVolume.addVolume perSide inv.slot)
  atAccount rt inv AccountData.loadUserVolume .userVolume ctx.makerVolume (UserVolume.addVolume perSide inv.slot)
  Exec.when (0 < feeAtoms)
    (atAccount rt inv AccountData.loadFeeTreasury .feeTreasury ctx.feeTreasury (FeeTreasury.accrue feeAtoms))
  pure feeAtoms

/-- Lock one side's collateral, hand back its share of the fee buffer, and take the fee from a taker. -/
def lockSide (perSide release fee : ℕ) : MarginM Unit := do
  MarginAccount.moveReservedToLocked perSide
  Exec.when (0 < release) (MarginAccount.moveReservedToFree release)
  Exec.when (0 < fee) (MarginAccount.debitFree fee)

/-- The position that a fill opens. -/
def MatchResult.pmlc (r : MatchResult) (instrument : Pubkey) (inst : InstrumentConfig) (notional sizeFp nowSlot : ℕ) :
    Pmlc where
  status := PMLC_STATUS_LIVE
  closeReason := CLOSE_REASON_NONE
  flags := r.flags
  bump := r.pmlcBump
  id := r.pmlcId
  instrument
  collateralMint := inst.collateralMint
  marketId := inst.marketId
  longOwner := r.longTrader
  shortOwner := r.shortTrader
  collateralPerSide := inst.collateralBucket
  leverageBps := inst.leverageBps
  entryPriceFp := r.entryFp
  notionalAtoms := if notional < 2 ^ 64 then notional else maxValue 64
  sizeFpLo := truncate 64 sizeFp
  sizeFpHi := truncate 64 (sizeFp >>> 64)
  openedSlot := nowSlot
  lastMarkSlot := nowSlot
  longReentryPriceFp := r.longPrice
  shortReentryPriceFp := r.shortPrice

/-- Create the position's account and write it. -/
def openPmlc (ctx : MatchCtx) (r : MatchResult) (inst : InstrumentConfig) : LedgerM Unit := do
  createAccount rt inv ctx.payer ctx.pmlc 304 rt.programId
  let notional ← Exec.ofExcept (notionalAtoms inst.collateralBucket inst.leverageBps)
  let sizeFp ← Exec.ofExcept (positionSizeFp notional r.entryFp)
  writeData rt inv ctx.pmlc (.pmlc (r.pmlc ctx.instrument inst notional sizeFp inv.slot))

/-- Match one contract of the pair. -/
def matchPairCore (ctx : MatchCtx) (longIntentId shortIntentId : ℕ) : LedgerM Unit := do
  let inst ← load AccountData.loadInstrument ctx.instrument
  Exec.ofExcept inst.requireActive
  Exec.rejectIf (inst.intentBook ≠ ctx.book) PolyleverageError.invalidPda
  let r ← atBook rt inv ctx.book
    (matchInBook rt ctx.instrument ctx.pmlc inst.collateralBucket longIntentId shortIntentId inv.slot)
  validateMargin rt r.longTrader inst.collateralMint ctx.longMargin
  validateMargin rt r.shortTrader inst.collateralMint ctx.shortMargin
  let fee ← chargeTaker rt inv ctx r inst.collateralMint inst.collateralBucket
  atMargin rt inv ctx.longMargin
    (lockSide inst.collateralBucket r.feeBufReleaseLong (if r.takerIsLong then fee else 0))
  atMargin rt inv ctx.shortMargin
    (lockSide inst.collateralBucket r.feeBufReleaseShort (if r.takerIsLong then 0 else fee))
  openPmlc rt inv ctx r inst

/-- Check and name the accounts of a match. -/
def unpackMatchAccounts : LedgerM MatchCtx := do
  match inv.accounts with
  | payer :: instrument :: book :: longMargin :: shortMargin :: pmlc :: system :: rest => do
    assertSigner rt inv payer
    assertWritable rt inv book
    assertWritable rt inv longMargin
    assertWritable rt inv shortMargin
    assertWritable rt inv pmlc
    assertOwned rt [instrument, book, longMargin, shortMargin]
    assertSystemProgram system
    match rest with
    | feeSchedule :: takerVolume :: makerVolume :: feeTreasury :: _ => do
      assertWritable rt inv takerVolume
      assertWritable rt inv makerVolume
      assertWritable rt inv feeTreasury
      assertOwned rt [feeSchedule]
      let _ ← assertPda rt .feeSchedule feeSchedule
      pure
        { payer, instrument, book, longMargin, shortMargin, pmlc
          feeSchedule, takerVolume, makerVolume, feeTreasury }
    | _ => Exec.throw PolyleverageError.feeAccountsRequired
  | _ => Exec.throw .notEnoughAccountKeys

def processMatchPair (args : MatchPairArgs) : LedgerM Unit := do
  let ctx ← unpackMatchAccounts rt inv
  matchPairCore rt inv ctx args.longIntentId.toNat args.shortIntentId.toNat

/-- Find the best crossing pair in the book and match it. -/
def processMatchBestAvailable : LedgerM Unit := do
  let ctx ← unpackMatchAccounts rt inv
  let pair ← atBook rt inv ctx.book (Book.scanForFirstValidPair inv.slot)
  let (longId, shortId) ← Exec.orErr pair PolyleverageError.intentNotFound
  matchPairCore rt inv ctx longId shortId

end Polyleverage
