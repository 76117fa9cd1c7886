import Polyleverage.Processor.Match

/-! # Settlement

A position ends by a liquidation, by the resolution of its market, or by the agreement of both sides.
Each takes an attested price, splits twice the collateral between the two sides, and closes the
position.
-/

namespace Polyleverage

open Machine

variable (rt : Runtime) (inv : rt.Invocation)

/-- The verified message of the Ed25519 instruction at this index. -/
def verifyViaEd25519Sysvar (sysvar expectedPubkey : Pubkey) (index : ℕ) : LedgerM (List UInt8) := do
  Exec.rejectIf (sysvar ≠ rt.instructionsSysvar) PolyleverageError.missingEd25519Verify
  let ix ← Exec.orErr inv.instructions[index]? PolyleverageError.missingEd25519Verify
  Exec.rejectIf (ix.programId ≠ rt.ed25519Program) PolyleverageError.missingEd25519Verify
  Exec.ofExcept (extractVerifiedEd25519Message ix.data expectedPubkey)

/-- The attestation of the given type, signed by the config's signer, unless everything is paused. -/
def loadAttestation (cfg : ProgramConfig) (sysvar : Pubkey) (index type : ℕ) : LedgerM Attestation := do
  let bytes ← verifyViaEd25519Sysvar rt inv sysvar cfg.attestationSigner index
  let att ← Exec.ofExcept (Attestation.parse bytes)
  Exec.rejectIf (att.attestationType ≠ type) PolyleverageError.attestationWrongType
  pure att

/-- Load the config, unless everything is paused. -/
def loadUnpaused (config : Pubkey) : LedgerM ProgramConfig := do
  let cfg ← load AccountData.loadProgramConfig config
  Exec.rejectIf (cfg.globalPause ≠ 0) PolyleverageError.globalPaused
  pure cfg

/-- Accept a fresh attestation for its market: check it, then record it. -/
def acceptAttestation (att : Attestation) (inst : InstrumentConfig) (nowUnixSecs : ℕ)
    (record : MarketNonceAccount → Except ProgramError MarketNonceAccount) :
    Exec ProgramError MarketNonceAccount Unit := do
  let n ← Exec.get
  Exec.ofExcept
    (att.validateFreshnessAndNonce inst.marketId n.lastAcceptedCreNonce nowUnixSecs inst.maxStalenessSecs)
  let recorded ← Exec.ofExcept
    (record { n with lastAcceptedCreNonce := att.nonce, lastAcceptedTs := nowUnixSecs })
  Exec.put recorded

/-- The live position at `pmlc`, which has to be one of this instrument. -/
def loadLivePmlc (pmlc instrument : Pubkey) (inst : InstrumentConfig) : LedgerM Pmlc := do
  let p ← load AccountData.loadPmlc pmlc
  Exec.ofExcept p.requireLive
  Exec.rejectIf (p.instrument ≠ instrument ∨ p.marketId ≠ inst.marketId ∨ p.collateralMint ≠ inst.collateralMint)
    PolyleverageError.invalidPda
  pure p

/-- Both sides together get twice the collateral. -/
def splitEquity (collateralPerSide : ℕ) (pnlLong : ℤ) : ℕ × ℕ :=
  let eqLong := boundedEquity collateralPerSide pnlLong
  (eqLong, saturatingSub (saturatingMul 64 collateralPerSide 2) eqLong)

/-- Hand a side its equity for its locked collateral. A PnL outside the signed range is a panic. -/
def settleSide (collateralPerSide equity : ℕ) : MarginM Unit := do
  MarginAccount.debitLocked collateralPerSide
  MarginAccount.creditFree equity
  let gain := toSigned 64 equity - toSigned 64 collateralPerSide
  Exec.abortIf (¬ FitsSigned 64 gain)
  MarginAccount.addRealizedPnl gain

/-- Settle both sides while both margin accounts are borrowed. One account is not borrowed twice. -/
def settleBoth (longMargin shortMargin : Pubkey) (collateralPerSide : ℕ) (equity : ℕ × ℕ) : LedgerM Unit := do
  atMargin rt inv longMargin (settleSide collateralPerSide equity.1)
  Exec.rejectIf (longMargin = shortMargin) .accountBorrowFailed
  atMargin rt inv shortMargin (settleSide collateralPerSide equity.2)

/-- Close the position. -/
def closePmlcWith (pmlc : Pubkey) (status closeReason : ℕ) : LedgerM Unit :=
  updateAccount rt inv AccountData.loadPmlc .pmlc pmlc fun p =>
    { p with status, closeReason, lastMarkSlot := inv.slot }

/-! ### Liquidation -/

/-- A breach of this position that is not in the future. -/
def checkBreach (att : Attestation) (pmlc : Pubkey) (nowUnixSecs : ℕ) : Except ProgramError Unit := do
  let breached ← att.breachPmlcPubkey
  if breached ≠ pmlc then .error PolyleverageError.attestationWrongPmlc
  else do
    let breachTs ← att.breachUnixTs
    if breachTs < 0 ∨ (nowUnixSecs : ℤ) < breachTs then .error PolyleverageError.attestationStale else .ok ()

/-- A share of the collateral in basis points, cast to 64 bits. -/
def shareOf (collateralPerSide bps : ℕ) : ℕ := truncate 64 (collateralPerSide * bps / BPS_DENOM)

/-- Take both sides' locked collateral, pay the winner all but the bounty, and keep the PnLs. -/
def payWinner (winner loser long short : Pubkey) (collateralPerSide bounty : ℕ) : LedgerM Unit := do
  Exec.rejectIf (long = short) .accountBorrowFailed
  atMargin rt inv long (MarginAccount.debitLocked collateralPerSide)
  atMargin rt inv short (MarginAccount.debitLocked collateralPerSide)
  atMargin rt inv winner
    (MarginAccount.creditFree (saturatingSub (saturatingMul 64 collateralPerSide 2) bounty))
  atMargin rt inv loser (MarginAccount.subRealizedPnl (toSigned 64 collateralPerSide))
  atMargin rt inv winner
    (MarginAccount.addRealizedPnl (toSigned 64 (saturatingSub collateralPerSide bounty)))

def processLiquidate (attestationIxOffset : UInt8) : LedgerM Unit := do
  match inv.accounts with
  | keeper :: config :: sysvar :: instrument :: pmlc :: nonce :: longMargin :: shortMargin :: keeperMargin :: _ => do
    assertSigner rt inv keeper
    assertWritable rt inv pmlc
    assertWritable rt inv nonce
    assertWritable rt inv longMargin
    assertWritable rt inv shortMargin
    assertWritable rt inv keeperMargin
    assertOwned rt [config, instrument, pmlc, nonce, longMargin, shortMargin, keeperMargin]
    Exec.rejectIf (sysvar ≠ rt.instructionsSysvar) .invalidAccountData
    let cfg ← loadUnpaused config
    let inst ← load AccountData.loadInstrument instrument
    validateMargin rt keeper inst.collateralMint keeperMargin
    let att ← loadAttestation rt inv cfg sysvar attestationIxOffset.toNat ATT_TYPE_HISTORICAL_LIQUIDATION
    Exec.ofExcept (checkBreach att pmlc (nowUnix rt inv))
    let _ ← assertPda rt (.marketNonce inst.marketId) nonce
    atAccount rt inv AccountData.loadMarketNonce .marketNonce nonce
      (acceptAttestation att inst (nowUnix rt inv) fun n => do
        let mark ← att.breachMarkFp
        .ok { n with lastAcceptedTwapFp := mark })
    let markFp ← Exec.ofExcept att.breachMarkFp
    let p ← loadLivePmlc pmlc instrument inst
    let pnlLong ← Exec.ofExcept (pnlLongAtoms p.entryPriceFp markFp p.sizeFp)
    let equity := splitEquity p.collateralPerSide pnlLong
    Exec.rejectIf (shareOf p.collateralPerSide inst.liquidationBps < min equity.1 equity.2)
      PolyleverageError.notLiquidatable
    let bounty := shareOf p.collateralPerSide inst.liquidationBountyBps
    validateMargin rt p.longOwner inst.collateralMint longMargin
    validateMargin rt p.shortOwner inst.collateralMint shortMargin
    if equity.2 < equity.1 then
      payWinner rt inv longMargin shortMargin longMargin shortMargin p.collateralPerSide bounty
    else payWinner rt inv shortMargin longMargin longMargin shortMargin p.collateralPerSide bounty
    closePmlcWith rt inv pmlc PMLC_STATUS_LIQUIDATED CLOSE_REASON_LIQUIDATED
    Exec.when (0 < bounty) (atMargin rt inv keeperMargin (MarginAccount.creditFree bounty))
  | _ => Exec.throw .notEnoughAccountKeys

/-! ### Resolution -/

/-- The mark an outcome settles at. -/
def finalMark (outcomeBps : ℕ) : Except ProgramError ℕ :=
  if outcomeBps = 0 then .ok 0
  else if outcomeBps = 5000 then .ok (PRICE_ONE / 2)
  else if outcomeBps = 10000 then .ok (PRICE_ONE - 1)
  else .error PolyleverageError.invalidInstructionData

/-- The long side's PnL at an outcome: all or nothing, or computed for the outcome in the middle. -/
def resolvePnl (p : Pmlc) (outcomeBps finalFp : ℕ) : Except ProgramError ℤ :=
  if outcomeBps = 0 then .ok (-saturatingMulSigned 128 p.collateralPerSide 2)
  else if outcomeBps = 10000 then .ok (saturatingMulSigned 128 p.collateralPerSide 2)
  else pnlLongAtoms p.entryPriceFp finalFp p.sizeFp

def processResolve (attestationIxOffset : UInt8) : LedgerM Unit := do
  match inv.accounts with
  | caller :: config :: sysvar :: instrument :: pmlc :: nonce :: longMargin :: shortMargin :: _ => do
    assertSigner rt inv caller
    assertWritable rt inv pmlc
    assertWritable rt inv nonce
    assertWritable rt inv longMargin
    assertWritable rt inv shortMargin
    assertOwned rt [config, instrument, pmlc, nonce, longMargin, shortMargin]
    let cfg ← loadUnpaused config
    let inst ← load AccountData.loadInstrument instrument
    let att ← loadAttestation rt inv cfg sysvar attestationIxOffset.toNat ATT_TYPE_RESOLUTION
    let _ ← assertPda rt (.marketNonce inst.marketId) nonce
    atAccount rt inv AccountData.loadMarketNonce .marketNonce nonce
      (acceptAttestation att inst (nowUnix rt inv) fun n => do
        let outcome ← att.finalOutcomeBps
        .ok { n with finalOutcomeBps := outcome, isResolved := 1 })
    let outcome ← Exec.ofExcept att.finalOutcomeBps
    let finalFp ← Exec.ofExcept (finalMark outcome)
    let p ← loadLivePmlc pmlc instrument inst
    let pnlLong ← Exec.ofExcept (resolvePnl p outcome finalFp)
    let equity := splitEquity p.collateralPerSide pnlLong
    validateMargin rt p.longOwner inst.collateralMint longMargin
    validateMargin rt p.shortOwner inst.collateralMint shortMargin
    settleBoth rt inv longMargin shortMargin p.collateralPerSide equity
    closePmlcWith rt inv pmlc PMLC_STATUS_RESOLVED CLOSE_REASON_RESOLVED
  | _ => Exec.throw .notEnoughAccountKeys

/-! ### Mutual close -/

def processCloseMutual (attestationIxOffset : UInt8) : LedgerM Unit := do
  match inv.accounts with
  | longOwner :: shortOwner :: config :: sysvar :: instrument :: pmlc :: nonce :: longMargin :: shortMargin :: _ => do
    assertSigner rt inv longOwner
    assertSigner rt inv shortOwner
    assertWritable rt inv pmlc
    assertWritable rt inv nonce
    assertWritable rt inv longMargin
    assertWritable rt inv shortMargin
    assertOwned rt [config, instrument, pmlc, nonce, longMargin, shortMargin]
    Exec.rejectIf (sysvar ≠ rt.instructionsSysvar) .invalidAccountData
    let cfg ← loadUnpaused config
    let inst ← load AccountData.loadInstrument instrument
    let att ← loadAttestation rt inv cfg sysvar attestationIxOffset.toNat ATT_TYPE_PRICE_TWAP
    let window ← Exec.ofExcept att.twapWindowSlots
    Exec.rejectIf (window ≠ inst.twapWindowSlots) PolyleverageError.attestationWrongType
    let _ ← assertPda rt (.marketNonce inst.marketId) nonce
    atAccount rt inv AccountData.loadMarketNonce .marketNonce nonce
      (acceptAttestation att inst (nowUnix rt inv) fun n => do
        let mark ← att.priceFp
        .ok { n with lastAcceptedTwapFp := mark })
    let markFp ← Exec.ofExcept att.priceFp
    let p ← loadLivePmlc pmlc instrument inst
    Exec.rejectIf (p.longOwner ≠ longOwner ∨ p.shortOwner ≠ shortOwner) PolyleverageError.invalidPmlcSide
    let pnlLong ← Exec.ofExcept (pnlLongAtoms p.entryPriceFp markFp p.sizeFp)
    let equity := splitEquity p.collateralPerSide pnlLong
    validateMargin rt longOwner inst.collateralMint longMargin
    validateMargin rt shortOwner inst.collateralMint shortMargin
    settleBoth rt inv longMargin shortMargin p.collateralPerSide equity
    closePmlcWith rt inv pmlc PMLC_STATUS_CLOSED CLOSE_REASON_MUTUAL
  | _ => Exec.throw .notEnoughAccountKeys

end Polyleverage
