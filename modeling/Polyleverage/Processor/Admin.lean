import Polyleverage.Processor.Fees

/-! # Administration

The config, the multisig over it, the timelock for a new attestation signer, and the registries.
-/

namespace Polyleverage

open Machine

variable (rt : Runtime) (inv : rt.Invocation)

/-! ### Authorization -/

/-- The multisig, when this account is it. -/
def multisigAt (s : Ledger) (k : Pubkey) : Option AdminMultisig :=
  if s.owner k = rt.programId ∧ k = rt.address .adminMultisig then
    match s.data k with
    | .adminMultisig ms => some ms
    | _ => none
  else none

/-- When the multisig is among the accounts, its threshold decides; otherwise the admin has to sign. -/
def authorizeAdminOrMultisig (config : Pubkey) : LedgerM Unit := do
  let cfg ← load AccountData.loadProgramConfig config
  let s ← Exec.get
  match inv.accounts.findSome? (multisigAt rt s) with
  | some ms => Exec.ofExcept (ms.checkThreshold (inv.accounts.filter inv.isSigner))
  | none =>
    Exec.rejectIf (cfg.admin ∉ inv.accounts.filter inv.isSigner) PolyleverageError.invalidAdminSigner

/-- Create an account of the program when there is none at the address. -/
def ensureCreated (payer target : Pubkey) (space : ℕ) : LedgerM Unit := do
  let s ← Exec.get
  if (s.data target).length = 0 then createAccount rt inv payer target space rt.programId
  else assertOwned rt [target]

/-! ### Config -/

def processInitProgramConfig (args : InitProgramConfigArgs) : LedgerM Unit := do
  match inv.accounts with
  | admin :: config :: feeTreasuryAuthority :: system :: _ => do
    assertSigner rt inv admin
    assertWritable rt inv admin
    assertWritable rt inv config
    assertSystemProgram system
    let bump ← assertPda rt .config config
    ensureCreated rt inv admin config 176
    initAccount rt inv config <| .programConfig
      { globalPause := 0
        bump
        admin
        feeTreasuryAuthority
        attestationSigner := args.attestationSigner
        defaultMaxStalenessSecs := args.defaultMaxStalenessSecs.toNat }
  | _ => Exec.throw .notEnoughAccountKeys

def processSetGlobalPause (paused : Bool) : LedgerM Unit := do
  match inv.accounts with
  | _admin :: config :: _ => do
    assertWritable rt inv config
    assertOwned rt [config]
    authorizeAdminOrMultisig rt inv config
    updateAccount rt inv AccountData.loadProgramConfig .programConfig config fun c =>
      { c with globalPause := if paused then 1 else 0 }
  | _ => Exec.throw .notEnoughAccountKeys

/-! ### Multisig -/

def processInitAdminMultisig (args : MultisigArgs) : LedgerM Unit := do
  match inv.accounts with
  | admin :: config :: multisig :: system :: _ => do
    assertSigner rt inv admin
    assertWritable rt inv admin
    assertWritable rt inv multisig
    assertOwned rt [config]
    assertSystemProgram system
    assertAdmin config admin
    let bump ← assertPda rt .adminMultisig multisig
    ensureCreated rt inv admin multisig 624
    Exec.ofExcept (AdminMultisig.validate args.signers args.threshold.toNat)
    initAccount rt inv multisig <| .adminMultisig
      { bump, threshold := args.threshold.toNat, bootstrapAdmin := admin, version := 1, signers := args.signers }
  | _ => Exec.throw .notEnoughAccountKeys

/-- Replace the signers once the present ones approve. -/
def rotateMultisig (args : MultisigArgs) : Exec ProgramError AdminMultisig Unit := do
  let ms ← Exec.get
  Exec.ofExcept (ms.checkThreshold (inv.accounts.filter inv.isSigner))
  let rotated ← Exec.ofExcept (ms.rotate args.signers args.threshold.toNat)
  Exec.put rotated

def processRotateAdminMultisig (args : MultisigArgs) : LedgerM Unit := do
  match inv.accounts with
  | config :: multisig :: _ => do
    assertWritable rt inv multisig
    assertOwned rt [config, multisig]
    atAccount rt inv AccountData.loadAdminMultisig .adminMultisig multisig (rotateMultisig rt inv args)
  | _ => Exec.throw .notEnoughAccountKeys

/-! ### Timelock -/

def processProposeSetAttestationSigner (args : ProposeSetAttestationSignerArgs) : LedgerM Unit := do
  match inv.accounts with
  | admin :: config :: timelock :: system :: _ => do
    assertSigner rt inv admin
    assertWritable rt inv admin
    assertWritable rt inv timelock
    assertOwned rt [config]
    assertSystemProgram system
    authorizeAdminOrMultisig rt inv config
    let bump ← assertPda rt (.timelock args.proposalId.toNat) timelock
    assertEmpty timelock
    createAccount rt inv admin timelock 168 rt.programId
    Exec.rejectIf (¬ FitsSigned 64 (inv.unixTimestamp + TIMELOCK_DELAY_SECS)) PolyleverageError.arithmeticOverflow
    writeData rt inv timelock <| .timelock
      { kind := TL_KIND_SET_ATTESTATION_SIGNER
        status := TL_STATUS_PENDING
        bump
        proposalId := args.proposalId.toNat
        proposer := admin
        newSigner := args.newSigner
        proposedSlot := inv.slot
        proposedUnixTs := inv.unixTimestamp
        executableAfterUnixTs := inv.unixTimestamp + TIMELOCK_DELAY_SECS }
  | _ => Exec.throw .notEnoughAccountKeys

def processExecuteSetAttestationSigner (proposalId : UInt64) : LedgerM Unit := do
  match inv.accounts with
  | admin :: config :: timelock :: _ => do
    assertSigner rt inv admin
    assertWritable rt inv config
    assertWritable rt inv timelock
    assertOwned rt [config, timelock]
    let _ ← assertPda rt (.timelock proposalId.toNat) timelock
    let tl ← load AccountData.loadTimelock timelock
    Exec.rejectIf (tl.status ≠ TL_STATUS_PENDING ∨ tl.kind ≠ TL_KIND_SET_ATTESTATION_SIGNER ∨
      inv.unixTimestamp < tl.executableAfterUnixTs) PolyleverageError.timelockNotExecutable
    authorizeAdminOrMultisig rt inv config
    updateAccount rt inv AccountData.loadProgramConfig .programConfig config fun c =>
      { c with attestationSigner := tl.newSigner }
    updateAccount rt inv AccountData.loadTimelock .timelock timelock fun t => { t with status := TL_STATUS_EXECUTED }
  | _ => Exec.throw .notEnoughAccountKeys

def processCancelTimelockProposal (proposalId : UInt64) : LedgerM Unit := do
  match inv.accounts with
  | admin :: timelock :: _ => do
    assertSigner rt inv admin
    assertWritable rt inv timelock
    assertOwned rt [timelock]
    let _ ← assertPda rt (.timelock proposalId.toNat) timelock
    let tl ← load AccountData.loadTimelock timelock
    Exec.rejectIf (tl.proposer ≠ admin) PolyleverageError.invalidAdminSigner
    Exec.rejectIf (tl.status ≠ TL_STATUS_PENDING) PolyleverageError.timelockNotExecutable
    updateAccount rt inv AccountData.loadTimelock .timelock timelock fun t => { t with status := TL_STATUS_CANCELLED }
  | _ => Exec.throw .notEnoughAccountKeys

/-! ### Bucket registry -/

def processInitBucketRegistry (args : BucketRegistryArgs) : LedgerM Unit := do
  match inv.accounts with
  | admin :: config :: registry :: system :: _ => do
    assertSigner rt inv admin
    assertWritable rt inv admin
    assertWritable rt inv registry
    assertOwned rt [config]
    assertSystemProgram system
    authorizeAdminOrMultisig rt inv config
    let bump ← assertPda rt .bucketRegistry registry
    ensureCreated rt inv admin registry 272
    let leverageBps := if args.leverageBps = [] then DEFAULT_LEVERAGE_BPS else args.leverageBps.map (·.toNat)
    let collateralBuckets :=
      if args.collateralBuckets = [] then DEFAULT_COLLATERAL_BUCKETS else args.collateralBuckets.map (·.toNat)
    Exec.ofExcept (BucketRegistry.validateInputs leverageBps collateralBuckets)
    initAccount rt inv registry (.bucketRegistry { bump, version := 1, leverageBps, collateralBuckets })
  | _ => Exec.throw .notEnoughAccountKeys

/-- Replace both lists. -/
def setRegistry (args : BucketRegistryArgs) : Exec ProgramError BucketRegistry Unit := do
  let r ← Exec.get
  let replaced ← Exec.ofExcept (r.set (args.leverageBps.map (·.toNat)) (args.collateralBuckets.map (·.toNat)))
  Exec.put replaced

def processSetBucketRegistry (args : BucketRegistryArgs) : LedgerM Unit := do
  match inv.accounts with
  | config :: registry :: _ => do
    assertWritable rt inv registry
    assertOwned rt [config, registry]
    authorizeAdminOrMultisig rt inv config
    atAccount rt inv AccountData.loadBucketRegistry .bucketRegistry registry (setRegistry args)
  | _ => Exec.throw .notEnoughAccountKeys

/-! ### Stablecoin registry -/

/-- Create the mint of the wrapped coin when there is none. -/
def ensureWusdMint (payer mint authority : Pubkey) (decimals : ℕ) : LedgerM Unit := do
  let s ← Exec.get
  Exec.when ((s.data mint).length = 0) do
    createAccount rt inv payer mint 82 rt.tokenProgram
    invoke fun s => rt.initializeMint s mint authority decimals

def processInitStablecoinRegistry (args : InitStablecoinRegistryArgs) : LedgerM Unit := do
  match inv.accounts with
  | admin :: config :: registry :: wusdMint :: wusdAuthority :: tokenProgram :: system :: _rentSysvar :: _ => do
    assertSigner rt inv admin
    assertWritable rt inv admin
    assertWritable rt inv registry
    assertWritable rt inv wusdMint
    assertOwned rt [config]
    assertTokenProgram rt tokenProgram
    assertSystemProgram system
    authorizeAdminOrMultisig rt inv config
    let bump ← assertPda rt .stablecoinRegistry registry
    let _ ← assertPda rt .wusdMint wusdMint
    let _ ← assertPda rt .wusdAuthority wusdAuthority
    ensureCreated rt inv admin registry 624
    ensureWusdMint rt inv admin wusdMint wusdAuthority args.wusdDecimals.toNat
    Exec.rejectIf (MAX_STABLECOIN_SLOTS < args.initialMints.length) PolyleverageError.invalidInstructionData
    Exec.ofExcept (StablecoinRegistry.validateMints args.initialMints)
    initAccount rt inv registry <| .stablecoinRegistry
      { bump, wusdDecimals := args.wusdDecimals.toNat, wusdMint, version := 1, mints := args.initialMints }
  | _ => Exec.throw .notEnoughAccountKeys

/-- Accept one more mint, with the decimals of the wrapped coin. -/
def acceptMint (mint : Pubkey) (decimals : ℕ) : Exec ProgramError StablecoinRegistry Unit := do
  let r ← Exec.get
  Exec.rejectIf (decimals ≠ r.wusdDecimals) PolyleverageError.stablecoinDecimalsMismatch
  let added ← Exec.ofExcept (r.addMint mint)
  Exec.put added

def processAddStablecoinMint : LedgerM Unit := do
  match inv.accounts with
  | config :: registry :: mint :: _ => do
    assertWritable rt inv registry
    assertOwned rt [config, registry]
    assertTokenOwned rt mint
    authorizeAdminOrMultisig rt inv config
    let m ← loadMint rt mint
    atAccount rt inv AccountData.loadStablecoinRegistry .stablecoinRegistry registry (acceptMint mint m.decimals)
  | _ => Exec.throw .notEnoughAccountKeys

/-- Accept a mint no longer. -/
def dropMint (mint : Pubkey) : Exec ProgramError StablecoinRegistry Unit := do
  let r ← Exec.get
  let removed ← Exec.ofExcept (r.removeMint mint)
  Exec.put removed

def processRemoveStablecoinMint : LedgerM Unit := do
  match inv.accounts with
  | config :: registry :: mint :: _ => do
    assertWritable rt inv registry
    assertOwned rt [config, registry]
    authorizeAdminOrMultisig rt inv config
    atAccount rt inv AccountData.loadStablecoinRegistry .stablecoinRegistry registry (dropMint mint)
  | _ => Exec.throw .notEnoughAccountKeys

end Polyleverage
