import Polyleverage.Processor.Fees

/-! # Instruments: create, pause, and grow their books -/

namespace Polyleverage

open Machine

variable (rt : Runtime) (inv : rt.Invocation)

namespace CreateInstrumentArgs

/-- The seeds of the instrument that is created. -/
def seeds (args : CreateInstrumentArgs) : Seeds :=
  .instrument args.source.toNat args.marketId args.leverageBps.toNat args.collateralBucket.toNat
    args.twapWindowSlots.toNat

/-- The config that is written. -/
def config (args : CreateInstrumentArgs) (mint book : Pubkey) (bump : ℕ) : InstrumentConfig where
  status := STATUS_ACTIVE
  bump
  source := args.source.toNat
  marketId := args.marketId
  sourceTokenIdA := args.sourceTokenIdA
  sourceTokenIdB := args.sourceTokenIdB
  collateralMint := mint
  intentBook := book
  leverageBps := args.leverageBps.toNat
  collateralBucket := args.collateralBucket.toNat
  twapWindowSlots := args.twapWindowSlots.toNat
  tickFp := args.tickFp.toNat
  liquidationBps := args.liquidationBps.toNat
  liquidationBountyBps := args.liquidationBountyBps.toNat
  maxStalenessSecs := args.maxStalenessSecs.toNat
  referenceUsd := args.referenceUsd.toNat

end CreateInstrumentArgs

/-- A trailing account that holds a bucket registry has to be the registry, and has to admit the
leverage and the bucket. -/
def checkRegistry (args : CreateInstrumentArgs) : List Pubkey → LedgerM Unit
  | [] => pure ()
  | registry :: _ => do
    let s ← Exec.get
    match s.data registry with
    | .bucketRegistry reg =>
      Exec.when (s.owner registry = rt.programId) do
        Exec.rejectIf (registry ≠ rt.address .bucketRegistry) PolyleverageError.invalidPda
        Exec.rejectIf (reg.allowsLeverage args.leverageBps.toNat = false) PolyleverageError.bucketNotInRegistry
        Exec.rejectIf (reg.allowsBucket args.collateralBucket.toNat = false) PolyleverageError.bucketNotInRegistry
    | _ => pure ()

/-- Create the nonce account of a market when there is none. -/
def ensureMarketNonce (payer nonce : Pubkey) (marketId : ℕ) : LedgerM Unit := do
  let bump ← assertPda rt (.marketNonce marketId) nonce
  let s ← Exec.get
  if (s.data nonce).length = 0 then
    createAndInit rt inv payer nonce (.marketNonce (MarketNonceAccount.init marketId bump))
  else assertOwned rt [nonce]

def processCreateInstrument (args : CreateInstrumentArgs) : LedgerM Unit := do
  match inv.accounts with
  | admin :: config :: instrument :: book :: mint :: system :: nonce :: rest => do
    assertSigner rt inv admin
    assertWritable rt inv admin
    assertWritable rt inv instrument
    assertWritable rt inv book
    assertWritable rt inv nonce
    assertSystemProgram system
    assertTokenOwned rt mint
    assertOwned rt [config]
    assertAdmin config admin
    Exec.rejectIf (args.initialBookCapacity < 16) PolyleverageError.invalidInstructionData
    Exec.rejectIf (args.twapWindowSlots = 0) PolyleverageError.invalidInstructionData
    Exec.rejectIf (args.collateralBucket = 0 ∨ args.tickFp = 0) PolyleverageError.invalidCollateralBucket
    checkRegistry rt args rest
    let bump ← assertPda rt args.seeds instrument
    assertEmpty instrument
    createAccount rt inv admin instrument 264 rt.programId
    let bookBump ← assertPda rt (.book instrument) book
    assertEmpty book
    createAccount rt inv admin book (IntentBook.byteSize args.initialBookCapacity.toNat) rt.programId
    Exec.ofExcept (args.config mint book bump).validate
    initAccount rt inv instrument (.instrumentConfig (args.config mint book bump))
    initAccount rt inv book
      (.intentBook (IntentBook.initIntentBook instrument args.initialBookCapacity.toNat bookBump 0))
    ensureMarketNonce rt inv admin nonce args.marketId
  | _ => Exec.throw .notEnoughAccountKeys

def processSetInstrumentStatus (pause : Bool) : LedgerM Unit := do
  match inv.accounts with
  | admin :: config :: instrument :: _ => do
    assertSigner rt inv admin
    assertWritable rt inv instrument
    assertOwned rt [config, instrument]
    assertAdmin config admin
    updateAccount rt inv AccountData.loadInstrument .instrumentConfig instrument fun c =>
      { c with status := if pause then STATUS_PAUSED else STATUS_ACTIVE }
  | _ => Exec.throw .notEnoughAccountKeys

def processExpandIntentBook (additionalNodes : UInt32) : LedgerM Unit := do
  Exec.rejectIf (additionalNodes = 0) PolyleverageError.invalidInstructionData
  match inv.accounts with
  | payer :: config :: instrument :: book :: system :: _ => do
    assertSigner rt inv payer
    assertWritable rt inv payer
    assertWritable rt inv book
    assertOwned rt [config, instrument, book]
    assertSystemProgram system
    let inst ← load AccountData.loadInstrument instrument
    Exec.rejectIf (inst.intentBook ≠ book) PolyleverageError.invalidPda
    Exec.abortIf (inv.rentFunded book = false)
    Exec.rejectIf (MAX_PERMITTED_DATA_INCREASE < additionalNodes.toNat * NODE_SIZE) .invalidRealloc
    atBook rt inv book (IntentBook.expandNodes additionalNodes.toNat)
  | _ => Exec.throw .notEnoughAccountKeys

end Polyleverage
