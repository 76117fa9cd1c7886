import Polyleverage.Processor.Match

/-! # Posting and cancelling

An owner, or the delegate of a session, posts and cancels intents. A post prunes the owner's expired
intents, reserves collateral, and inserts the intent; then it may try one match, whose error it
ignores.
-/

namespace Polyleverage

open Machine

variable (rt : Runtime) (inv : rt.Invocation)

/-- The reserve for the highest fee over the whole fill. -/
def feeBufferFor (contracts collateralBucket maxTierFeeBps : ℕ) : Except ProgramError ℕ :=
  orOverflow do
    let atoms ← checkedMul 128 contracts collateralBucket
    let scaled ← checkedMul 128 atoms maxTierFeeBps
    if scaled / BPS_DENOM < 2 ^ 64 then some (scaled / BPS_DENOM) else none

/-- The owner of a live session of this delegate that allows the instrument. -/
def sessionOwner (session delegate instrument : Pubkey) : LedgerM Pubkey := do
  let s ← load AccountData.loadSession session
  Exec.rejectIf (s.delegate ≠ delegate) PolyleverageError.sessionDelegateMismatch
  Exec.rejectIf (s.isActive inv.slot = false) PolyleverageError.sessionNotActive
  Exec.rejectIf (s.allowsInstrument instrument = false) PolyleverageError.sessionInstrumentNotAllowed
  let _ ← assertPda rt (.session s.owner) session
  pure s.owner

/-- Charge an intent to a session. -/
def chargeSession (amount : ℕ) : Exec ProgramError Session Unit := do
  let s ← Exec.get
  let charged ← Exec.ofExcept (s.recordIntent amount)
  Exec.put charged

/-! ### Posting -/

/-- The accounts of a post, and whose intent it is. -/
structure PostCtx where
  owner : Pubkey
  payer : Pubkey
  config : Pubkey
  instrument : Pubkey
  book : Pubkey
  margin : Pubkey
  session : Option Pubkey
  inlineMatchOffset : ℕ
  deriving DecidableEq, Repr

/-- Refund what was pruned and reserve for the new intent. -/
def reserveForPost (owner mint : Pubkey) (bump refund reserve : ℕ) : MarginM Unit := do
  let m ← Exec.get
  Exec.ofExcept (m.requireIdentity owner mint bump)
  Exec.when (0 < refund) (MarginAccount.moveReservedToFree refund)
  MarginAccount.moveFreeToReserved reserve

/-- The node a post asks for. -/
def PostIntentArgs.draft (args : PostIntentArgs) (reservedCollateral feeBuffer : ℕ) : Book.Draft where
  side := args.side.toNat
  flags := if args.reentryEnabled ≠ 0 then INTENT_FLAG_REENTRY else 0
  priceFp := args.priceFp.toNat
  contracts := args.contracts.toNat
  expirationSlot := args.expirationSlot.toNat
  reservedCollateral
  feeBuffer

/-- Post an intent, without trying to match it. The result is its id. -/
def postIntent (ctx : PostCtx) (args : PostIntentArgs) : LedgerM ℕ := do
  assertWritable rt inv ctx.book
  assertWritable rt inv ctx.margin
  assertOwned rt [ctx.config, ctx.instrument, ctx.book, ctx.margin]
  let cfg ← load AccountData.loadProgramConfig ctx.config
  Exec.rejectIf (cfg.globalPause ≠ 0) PolyleverageError.globalPaused
  let inst ← load AccountData.loadInstrument ctx.instrument
  Exec.ofExcept inst.requireActive
  Exec.rejectIf (inst.intentBook ≠ ctx.book) PolyleverageError.invalidPda
  let bump ← assertPda rt (.margin ctx.owner inst.collateralMint) ctx.margin
  Exec.rejectIf (args.side.toNat ≠ SIDE_LONG ∧ args.side.toNat ≠ SIDE_SHORT)
    PolyleverageError.invalidInstructionData
  Exec.rejectIf (args.contracts = 0) PolyleverageError.invalidContractCount
  Exec.ofExcept (validatePriceTicked args.priceFp.toNat inst.tickFp)
  Exec.rejectIf (args.expirationSlot.toNat ≤ inv.slot) PolyleverageError.intentExpired
  let collateralReserve ← Exec.ofExcept (orOverflow (checkedMul 64 args.contracts.toNat inst.collateralBucket))
  let b ← load AccountData.loadBook ctx.book
  let feeBuffer ← Exec.ofExcept
    (feeBufferFor args.contracts.toNat inst.collateralBucket b.header.cachedMaxFeeBps)
  let totalReserve ← Exec.ofExcept (orOverflow (checkedAdd 64 collateralReserve feeBuffer))
  match ctx.session with
  | some session => atAccount rt inv AccountData.loadSession .session session (chargeSession totalReserve)
  | none => pure ()
  let refund ← atBook rt inv ctx.book (Book.pruneOwnExpired ctx.owner inv.slot)
  atMargin rt inv ctx.margin (reserveForPost ctx.owner inst.collateralMint bump refund totalReserve)
  atBook rt inv ctx.book (Book.post ctx.owner (args.draft collateralReserve feeBuffer))

/-- The match that a post tries, against the intent it found. -/
def inlineMatchCtx (ctx : PostCtx) (args : PostIntentArgs)
    (counterpartyMargin pmlc feeSchedule takerVolume makerVolume feeTreasury : Pubkey) : MatchCtx where
  payer := ctx.payer
  instrument := ctx.instrument
  book := ctx.book
  longMargin := if args.side.toNat = SIDE_LONG then ctx.margin else counterpartyMargin
  shortMargin := if args.side.toNat = SIDE_LONG then counterpartyMargin else ctx.margin
  pmlc
  feeSchedule
  takerVolume
  makerVolume
  feeTreasury

/-- Match the pair of the posted intent and its counterparty. -/
def inlineMatchPair (ctx : MatchCtx) (args : PostIntentArgs) (intentId counterpartyId : ℕ) : LedgerM Unit :=
  if args.side.toNat = SIDE_LONG then matchPairCore rt inv ctx intentId counterpartyId
  else matchPairCore rt inv ctx counterpartyId intentId

/-- Try one match of the posted intent. Without the accounts for it, or without an overlap, nothing is
tried, and an error of the match is logged and ignored. -/
def inlineMatch (ctx : PostCtx) (args : PostIntentArgs) (intentId : ℕ) : LedgerM Unit := do
  match inv.accounts.drop ctx.inlineMatchOffset with
  | counterpartyMargin :: pmlc :: _system :: feeSchedule :: takerVolume :: makerVolume :: feeTreasury :: _ => do
    let oppositeSide := if args.side.toNat = SIDE_LONG then SIDE_SHORT else SIDE_LONG
    let counterparty ← atBook rt inv ctx.book
      (Book.findOverlapOnSide oppositeSide args.priceFp.toNat inv.slot intentId)
    match counterparty with
    | some counterpartyId => do
      let _ ← Exec.swallow (inlineMatchPair rt inv
        (inlineMatchCtx ctx args counterpartyMargin pmlc feeSchedule takerVolume makerVolume feeTreasury)
        args intentId counterpartyId)
      pure ()
    | none => pure ()
  | _ => pure ()

def doPostIntentInner (ctx : PostCtx) (args : PostIntentArgs) : LedgerM Unit := do
  let intentId ← postIntent rt inv ctx args
  Exec.when (args.tryMatch ≠ 0) (inlineMatch rt inv ctx args intentId)

/-- The accounts of an owner's post. -/
def unpackPostIntent : LedgerM PostCtx := do
  match inv.accounts with
  | owner :: config :: instrument :: book :: margin :: _ => do
    assertSigner rt inv owner
    pure
      { owner, payer := owner, config, instrument, book, margin
        session := none, inlineMatchOffset := 5 }
  | _ => Exec.throw .notEnoughAccountKeys

/-- The accounts of a delegate's post. The intent is the session owner's. -/
def unpackPostIntentDelegated : LedgerM PostCtx := do
  match inv.accounts with
  | feePayer :: delegate :: config :: instrument :: book :: margin :: session :: _ => do
    assertSigner rt inv feePayer
    assertWritable rt inv feePayer
    assertSigner rt inv delegate
    assertWritable rt inv session
    assertOwned rt [session]
    let owner ← sessionOwner rt inv session delegate instrument
    pure
      { owner, payer := feePayer, config, instrument, book, margin
        session := some session, inlineMatchOffset := 7 }
  | _ => Exec.throw .notEnoughAccountKeys

def processPostIntent (args : PostIntentArgs) : LedgerM Unit := do
  let ctx ← unpackPostIntent rt inv
  doPostIntentInner rt inv ctx args

def processPostIntentDelegated (args : PostIntentArgs) : LedgerM Unit := do
  let ctx ← unpackPostIntentDelegated rt inv
  doPostIntentInner rt inv ctx args

/-! ### Cancelling -/

/-- What a cancel hands back, and to whom. -/
structure Refund where
  owner : Pubkey
  bump : ℕ
  total : ℕ
  deriving DecidableEq, Repr

/-- Take an intent out of the book, once the canceller is authorized for its owner. -/
def cancelInBook (margin mint : Pubkey) (intentId : ℕ) (authorize : Pubkey → IntentNode → Except ProgramError Unit) :
    BookM Refund := do
  let (idx, side) ← Exec.gets (Book.findIntentById · intentId)
  let node ← Exec.gets (IntentBook.intent · idx)
  let seat ← Exec.gets (IntentBook.seat · node.ownerSeat)
  Exec.ofExcept (authorize seat.trader node)
  Exec.rejectIf (rt.address (.margin seat.trader mint) ≠ margin) PolyleverageError.invalidPda
  Book.cancel side idx node.ownerSeat
  let total ← Exec.ofExcept (Book.reservation node)
  pure ⟨seat.trader, rt.bump (.margin seat.trader mint), total⟩

/-- Free what an intent had reserved. -/
def refundMargin (mint : Pubkey) (refund : Refund) : MarginM Unit := do
  let m ← Exec.get
  Exec.ofExcept (m.requireIdentity refund.owner mint refund.bump)
  MarginAccount.moveReservedToFree refund.total

/-- Cancel an intent of this instrument. -/
def cancelIntent (instrument book margin : Pubkey) (intentId : ℕ)
    (authorize : Pubkey → IntentNode → Except ProgramError Unit) : LedgerM Unit := do
  let inst ← load AccountData.loadInstrument instrument
  Exec.rejectIf (inst.intentBook ≠ book) PolyleverageError.invalidPda
  let refund ← atBook rt inv book (cancelInBook rt margin inst.collateralMint intentId authorize)
  atMargin rt inv margin (refundMargin inst.collateralMint refund)

/-- An owner cancels any time, anyone else after the expiration. -/
def authorizeCaller (caller : Pubkey) (nowSlot : ℕ) (owner : Pubkey) (node : IntentNode) :
    Except ProgramError Unit :=
  if caller ≠ owner ∧ nowSlot < node.expirationSlot then .error PolyleverageError.missingSigner else .ok ()

/-- A session cancels its owner's intents. -/
def authorizeSession (sessionOwner owner : Pubkey) (_ : IntentNode) : Except ProgramError Unit :=
  if owner ≠ sessionOwner then .error PolyleverageError.sessionOwnerMismatch else .ok ()

def processCancelIntent (intentId : UInt64) : LedgerM Unit := do
  match inv.accounts with
  | caller :: instrument :: book :: margin :: _ => do
    assertSigner rt inv caller
    assertWritable rt inv book
    assertWritable rt inv margin
    assertOwned rt [instrument, book, margin]
    cancelIntent rt inv instrument book margin intentId.toNat (authorizeCaller caller inv.slot)
  | _ => Exec.throw .notEnoughAccountKeys

def processCancelIntentDelegated (intentId : UInt64) : LedgerM Unit := do
  match inv.accounts with
  | feePayer :: delegate :: instrument :: book :: margin :: session :: _ => do
    assertSigner rt inv feePayer
    assertWritable rt inv feePayer
    assertSigner rt inv delegate
    assertWritable rt inv book
    assertWritable rt inv margin
    assertOwned rt [instrument, book, margin, session]
    let owner ← sessionOwner rt inv session delegate instrument
    cancelIntent rt inv instrument book margin intentId.toNat (authorizeSession owner)
  | _ => Exec.throw .notEnoughAccountKeys

end Polyleverage
