import Polyleverage.Processor.Intent
import Polyleverage.Processor.Settlement

/-! # Positions after they are opened

A side of a live position changes hands by a novation or by a substitution through the book. The
owner of a closed position's side may re-enter the book, and a closed position's account is given
back. Expired intents are pruned by anyone.
-/

namespace Polyleverage

open Machine

variable (rt : Runtime) (inv : rt.Invocation)

/-- Load a position's margin account for a movement: it has to be this owner's. -/
def asOwner (owner mint : Pubkey) (movement : MarginM Unit) : MarginM Unit := do
  let m ← Exec.get
  Exec.ofExcept (m.requireOwner owner mint)
  movement

/-- Hand one side of the position to a new owner. -/
def handOver (pmlc : Pubkey) (side : ℕ) (owner : Pubkey) : LedgerM Unit :=
  updateAccount rt inv AccountData.loadPmlc .pmlc pmlc fun p =>
    { p.setOwner side owner with lastMarkSlot := inv.slot }

/-! ### Novation -/

/-- Take over a side: the collateral comes out of the new owner's free collateral. -/
def takeOver (collateralPerSide : ℕ) : MarginM Unit := do
  MarginAccount.debitFree collateralPerSide
  MarginAccount.creditLocked collateralPerSide

def processNovate (side : UInt8) : LedgerM Unit := do
  match inv.accounts with
  | currentOwner :: newOwner :: config :: instrument :: pmlc :: currentMargin :: newMargin :: _ => do
    assertSigner rt inv currentOwner
    assertSigner rt inv newOwner
    assertWritable rt inv pmlc
    assertWritable rt inv currentMargin
    assertWritable rt inv newMargin
    assertOwned rt [config, instrument, pmlc, currentMargin, newMargin]
    let _ ← loadUnpaused config
    Exec.rejectIf (side.toNat ≠ SIDE_LONG ∧ side.toNat ≠ SIDE_SHORT) PolyleverageError.invalidPmlcSide
    let p ← load AccountData.loadPmlc pmlc
    Exec.ofExcept p.requireLive
    Exec.rejectIf (p.owner side.toNat ≠ currentOwner) PolyleverageError.invalidPmlcSide
    let inst ← load AccountData.loadInstrument instrument
    Exec.rejectIf (inst.collateralMint ≠ p.collateralMint) PolyleverageError.invalidPda
    Exec.rejectIf (instrument ≠ p.instrument) PolyleverageError.invalidPda
    let _ ← assertPda rt (.margin currentOwner p.collateralMint) currentMargin
    let _ ← assertPda rt (.margin newOwner p.collateralMint) newMargin
    atMargin rt inv currentMargin
      (asOwner currentOwner p.collateralMint (MarginAccount.moveLockedToFree p.collateralPerSide))
    atMargin rt inv newMargin (asOwner newOwner p.collateralMint (takeOver p.collateralPerSide))
    handOver rt inv pmlc side.toNat newOwner
  | _ => Exec.throw .notEnoughAccountKeys

/-! ### Substitution -/

/-- What the book part of a substitution hands on. -/
structure SubstitutionCtx where
  pmlcSide : ℕ
  newPmlcOwner : Pubkey
  substitutorIsLong : Bool
  feeBufReleaseLong : ℕ
  feeBufReleaseShort : ℕ
  matchMidpoint : ℕ
  deriving DecidableEq, Repr

namespace SubstitutionCtx

def substitutorRelease (c : SubstitutionCtx) : ℕ :=
  if c.substitutorIsLong then c.feeBufReleaseLong else c.feeBufReleaseShort

def counterpartyRelease (c : SubstitutionCtx) : ℕ :=
  if c.substitutorIsLong then c.feeBufReleaseShort else c.feeBufReleaseLong

end SubstitutionCtx

/-- Fill one contract of the pair in the book for a substitution of this position. The entry has to lie
between the two prices, and the substitutor exits the side it owns. -/
def substituteInBook (substitutor : Pubkey) (p : Pmlc) (bucket longIntentId shortIntentId nowSlot : ℕ) :
    BookM SubstitutionCtx := do
  let pair ← Exec.gets (Book.findPair longIntentId shortIntentId nowSlot)
  Exec.rejectIf (p.entryPriceFp < pair.short.priceFp ∨ pair.long.priceFp < p.entryPriceFp)
    PolyleverageError.noRangeOverlap
  let longSeat ← Exec.gets (IntentBook.seat · pair.long.ownerSeat)
  let shortSeat ← Exec.gets (IntentBook.seat · pair.short.ownerSeat)
  Exec.rejectIf (longSeat.trader ≠ substitutor ∧ shortSeat.trader ≠ substitutor) PolyleverageError.missingSigner
  -- A substitutor that posted both intents exits the long side, but counts as the long one below.
  let pmlcSide := if shortSeat.trader = substitutor then SIDE_LONG else SIDE_SHORT
  Exec.rejectIf (p.owner pmlcSide ≠ substitutor) PolyleverageError.invalidPmlcSide
  let (filled, longRelease, shortRelease) ← Exec.ofExcept (Book.consume bucket pair)
  Book.writePair filled
  pure
    { pmlcSide
      newPmlcOwner := if longSeat.trader = substitutor then shortSeat.trader else longSeat.trader
      substitutorIsLong := longSeat.trader = substitutor
      feeBufReleaseLong := longRelease
      feeBufReleaseShort := shortRelease
      matchMidpoint := priceMidpoint pair.long.priceFp pair.short.priceFp }

/-- What the substitutor receives for its side, at the midpoint. It stays within the collateral. -/
def substitutionDelta (withSettle : Bool) (p : Pmlc) (bucket : ℕ) (c : SubstitutionCtx) : Except ProgramError ℤ :=
  if withSettle then do
    let pnlLong ← pnlLongAtoms p.entryPriceFp c.matchMidpoint p.sizeFp
    let delta := if c.pmlcSide = SIDE_LONG then pnlLong else -pnlLong
    if bucket < delta.natAbs then .error PolyleverageError.notLiquidatable else .ok delta
  else .ok 0

/-- Leave a side: give up the own intent, unlock the collateral, and take or pay the difference. -/
def leaveSide (bucket release : ℕ) (delta : ℤ) : MarginM Unit := do
  MarginAccount.moveReservedToFree bucket
  Exec.when (0 < release) (MarginAccount.moveReservedToFree release)
  MarginAccount.moveLockedToFree bucket
  if 0 < delta then do
    MarginAccount.creditFree (truncate 64 delta.natAbs)
    MarginAccount.addRealizedPnl (toSigned 64 (truncate 64 delta.natAbs))
  else if delta < 0 then do
    MarginAccount.debitFree (truncate 64 delta.natAbs)
    MarginAccount.subRealizedPnl (toSigned 64 (truncate 64 delta.natAbs))
  else pure ()

/-- Enter a side: lock what the intent reserved, and pay or take the difference. -/
def enterSide (bucket release : ℕ) (delta : ℤ) : MarginM Unit := do
  MarginAccount.moveReservedToLocked bucket
  Exec.when (0 < release) (MarginAccount.moveReservedToFree release)
  if 0 < delta then MarginAccount.debitFree (truncate 64 delta.natAbs)
  else if delta < 0 then MarginAccount.creditFree (truncate 64 delta.natAbs)
  else pure ()

def doSubstitute (args : MatchPairArgs) (withSettle : Bool) : LedgerM Unit := do
  match inv.accounts with
  | substitutor :: instrument :: book :: pmlc :: substitutorMargin :: counterpartyMargin :: _ => do
    assertSigner rt inv substitutor
    assertWritable rt inv book
    assertWritable rt inv pmlc
    assertWritable rt inv substitutorMargin
    assertWritable rt inv counterpartyMargin
    assertOwned rt [instrument, book, pmlc, substitutorMargin, counterpartyMargin]
    let inst ← load AccountData.loadInstrument instrument
    Exec.ofExcept inst.requireActive
    Exec.rejectIf (inst.intentBook ≠ book) PolyleverageError.invalidPda
    let p ← load AccountData.loadPmlc pmlc
    Exec.ofExcept p.requireLive
    Exec.rejectIf (p.instrument ≠ instrument) PolyleverageError.invalidPda
    Exec.rejectIf (p.collateralPerSide ≠ inst.collateralBucket) PolyleverageError.invalidPda
    let c ← atBook rt inv book
      (substituteInBook substitutor p inst.collateralBucket args.longIntentId.toNat args.shortIntentId.toNat inv.slot)
    let delta ← Exec.ofExcept (substitutionDelta withSettle p inst.collateralBucket c)
    let _ ← assertPda rt (.margin substitutor inst.collateralMint) substitutorMargin
    let _ ← assertPda rt (.margin c.newPmlcOwner inst.collateralMint) counterpartyMargin
    atMargin rt inv substitutorMargin
      (asOwner substitutor inst.collateralMint (leaveSide inst.collateralBucket c.substitutorRelease delta))
    atMargin rt inv counterpartyMargin
      (asOwner c.newPmlcOwner inst.collateralMint (enterSide inst.collateralBucket c.counterpartyRelease delta))
    handOver rt inv pmlc c.pmlcSide c.newPmlcOwner
  | _ => Exec.throw .notEnoughAccountKeys

def processMatchSubstitute (args : MatchPairArgs) : LedgerM Unit := doSubstitute rt inv args false

def processMatchSubstituteWithSettle (args : MatchPairArgs) : LedgerM Unit := doSubstitute rt inv args true

/-! ### Re-entry -/

def reentryFlag (side : ℕ) : ℕ := if side = SIDE_LONG then PMLC_FLAG_LONG_REENTRY else PMLC_FLAG_SHORT_REENTRY

def Pmlc.reentryPriceFp (p : Pmlc) (side : ℕ) : ℕ :=
  if side = SIDE_LONG then p.longReentryPriceFp else p.shortReentryPriceFp

/-- Fewer and fewer contracts, until collateral and fee buffer fit into the free collateral. -/
def trimContracts (free bucket maxFeeBps : ℕ) : ℕ → LedgerM ℕ
  | 0 => pure 0
  | n + 1 => do
    Exec.abortIf (2 ^ 64 ≤ (n + 1) * bucket)
    let buffer ← Exec.ofExcept (feeBufferFor (n + 1) bucket maxFeeBps)
    Exec.abortIf (2 ^ 64 ≤ (n + 1) * bucket + buffer)
    if (n + 1) * bucket + buffer ≤ free then pure (n + 1) else trimContracts free bucket maxFeeBps n

/-- The collateral and the fee buffer to reserve for some contracts, and their sum. -/
def reserveFor (contracts bucket maxFeeBps : ℕ) : Except ProgramError (ℕ × ℕ × ℕ) := do
  let collateralReserve ← orOverflow (checkedMul 64 contracts bucket)
  let feeBuffer ← feeBufferFor contracts bucket maxFeeBps
  let totalReserve ← orOverflow (checkedAdd 64 collateralReserve feeBuffer)
  .ok (collateralReserve, feeBuffer, totalReserve)

/-- As many contracts as the free collateral pays for. -/
def affordableContracts (free bucket maxFeeBps : ℕ) : LedgerM ℕ := do
  let contracts := min (free / bucket) (maxValue 16)
  let (_, _, totalReserve) ← Exec.ofExcept (reserveFor contracts bucket maxFeeBps)
  if free < totalReserve then trimContracts free bucket maxFeeBps contracts else pure contracts

/-- Use up the re-entry of one side. -/
def clearReentry (pmlc : Pubkey) (side : ℕ) : LedgerM Unit :=
  updateAccount rt inv AccountData.loadPmlc .pmlc pmlc fun p => p.clearFlags (reentryFlag side)

/-- Reserve for the contracts and post them at the old price, still enrolled in re-entry. -/
def reenter (owner book margin pmlc : Pubkey) (inst : InstrumentConfig) (p : Pmlc) (args : ClaimReentryArgs)
    (contracts maxFeeBps : ℕ) : LedgerM Unit := do
  let (reservedCollateral, feeBuffer, totalReserve) ←
    Exec.ofExcept (reserveFor contracts inst.collateralBucket maxFeeBps)
  atMargin rt inv margin (MarginAccount.moveFreeToReserved totalReserve)
  let _ ← atBook rt inv book <| Book.post owner
    { side := args.side.toNat
      flags := INTENT_FLAG_REENTRY
      priceFp := p.reentryPriceFp args.side.toNat
      contracts
      expirationSlot := args.expirationSlot.toNat
      reservedCollateral
      feeBuffer }
  clearReentry rt inv pmlc args.side.toNat

def processClaimReentry (args : ClaimReentryArgs) : LedgerM Unit := do
  match inv.accounts with
  | owner :: config :: pmlc :: instrument :: book :: margin :: _ => do
    assertSigner rt inv owner
    assertWritable rt inv pmlc
    assertWritable rt inv book
    assertWritable rt inv margin
    assertOwned rt [config, pmlc, instrument, book, margin]
    let _ ← loadUnpaused config
    Exec.rejectIf (args.side.toNat ≠ SIDE_LONG ∧ args.side.toNat ≠ SIDE_SHORT)
      PolyleverageError.invalidInstructionData
    let p ← load AccountData.loadPmlc pmlc
    Exec.rejectIf (p.status = PMLC_STATUS_LIVE) PolyleverageError.pmlcNotLive
    Exec.rejectIf (p.flags &&& reentryFlag args.side.toNat = 0) PolyleverageError.invalidPmlcSide
    Exec.rejectIf (p.owner args.side.toNat ≠ owner) PolyleverageError.missingSigner
    Exec.rejectIf (instrument ≠ p.instrument) PolyleverageError.invalidPda
    let inst ← load AccountData.loadInstrument instrument
    Exec.ofExcept inst.requireActive
    Exec.rejectIf (inst.collateralMint ≠ p.collateralMint) PolyleverageError.invalidPda
    Exec.rejectIf (inst.intentBook ≠ book) PolyleverageError.invalidPda
    Exec.ofExcept (validatePriceTicked (p.reentryPriceFp args.side.toNat) inst.tickFp)
    Exec.rejectIf (args.expirationSlot.toNat ≤ inv.slot) PolyleverageError.intentExpired
    let _ ← assertPda rt (.margin owner p.collateralMint) margin
    let m ← load AccountData.loadMargin margin
    Exec.ofExcept (m.requireOwner owner p.collateralMint)
    Exec.abortIf (inst.collateralBucket = 0)
    if m.freeCollateral / inst.collateralBucket = 0 then clearReentry rt inv pmlc args.side.toNat
    else do
      let b ← load AccountData.loadBook book
      let contracts ← affordableContracts m.freeCollateral inst.collateralBucket b.header.cachedMaxFeeBps
      if contracts = 0 then clearReentry rt inv pmlc args.side.toNat
      else reenter rt inv owner book margin pmlc inst p args contracts b.header.cachedMaxFeeBps
  | _ => Exec.throw .notEnoughAccountKeys

/-! ### Closing the account -/

/-- Give an account back: no data, and no longer the program's. -/
def closeAccount (k : Pubkey) : LedgerM Unit := do
  let s ← Exec.get
  Exec.abortIf (inv.isWritable k = false ∨ s.owner k ≠ rt.programId)
  Exec.put (s.set k ⟨systemProgram, .raw (s.data k).length⟩)

def processClosePmlc : LedgerM Unit := do
  match inv.accounts with
  | recipient :: pmlc :: _ => do
    assertSigner rt inv recipient
    assertWritable rt inv recipient
    assertWritable rt inv pmlc
    assertOwned rt [pmlc]
    let p ← load AccountData.loadPmlc pmlc
    Exec.rejectIf (p.status ∉ [PMLC_STATUS_CLOSED, PMLC_STATUS_LIQUIDATED, PMLC_STATUS_RESOLVED])
      PolyleverageError.pmlcNotLive
    closeAccount rt inv pmlc
  | _ => Exec.throw .notEnoughAccountKeys

/-! ### Pruning -/

/-- The first of the margin accounts that is the trader's, and the accounts after it. -/
def findMargin (trader mint : Pubkey) : List Pubkey → LedgerM (Pubkey × List Pubkey)
  | [] => Exec.throw PolyleverageError.invalidPda
  | k :: rest => do
    assertOwned rt [k]
    let m ← load AccountData.loadMargin k
    if m.owner = trader ∧ m.collateralMint = mint then do
      let _ ← assertPda rt (.margin trader mint) k
      pure (k, rest)
    else findMargin trader mint rest

/-- Take an intent out of the slot it was found in. -/
def pruneSlot (idx side : ℕ) : BookM Unit := do
  let node ← Exec.gets (IntentBook.intent · idx)
  Book.cancel side idx node.ownerSeat

/-- Refund and take out the found intents, each against the next margin account of its trader. -/
def pruneAll (book mint : Pubkey) : List (ℕ × IntentNode × Pubkey × ℕ) → List Pubkey → LedgerM Unit
  | [], _ => pure ()
  | (idx, node, trader, total) :: work, margins => do
    let (margin, rest) ← findMargin rt trader mint margins
    atMargin rt inv margin (MarginAccount.moveReservedToFree total)
    atBook rt inv book (pruneSlot idx node.side)
    pruneAll book mint work rest

/-- The trader of an intent and what it has reserved. -/
def measureExpired (b : IntentBook) (node : IntentNode) : Except ProgramError (Pubkey × ℕ) := do
  let seat ← b.seat node.ownerSeat
  let total ← Book.reservation node
  .ok (seat.trader, total)

def isExpired (now : ℕ) (node : IntentNode) : Bool :=
  node.contractsRemaining ≠ 0 ∧ node.expirationSlot ≤ now

def processPruneExpired : LedgerM Unit := do
  match inv.accounts with
  | caller :: instrument :: book :: margins => do
    assertSigner rt inv caller
    assertWritable rt inv book
    assertOwned rt [instrument, book]
    let inst ← load AccountData.loadInstrument instrument
    Exec.rejectIf (inst.intentBook ≠ book) PolyleverageError.invalidPda
    let b ← load AccountData.loadBook book
    let work ← Exec.ofExcept
      (Book.scanIntents (isExpired inv.slot) (measureExpired b) margins.length 0 b.nodes)
    pruneAll rt inv book inst.collateralMint work margins
  | _ => Exec.throw .notEnoughAccountKeys

end Polyleverage
