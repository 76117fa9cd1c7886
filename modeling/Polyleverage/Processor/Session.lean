import Polyleverage.Processor.Settlement

/-! # Sessions -/

namespace Polyleverage

variable (rt : Runtime) (inv : rt.Invocation)

/-- A session that exists is replaced by its owner only, and only when it is over. -/
def prepareSession (owner session : Pubkey) : LedgerM Unit := do
  let s ← Exec.get
  if (s.data session).length = 0 then createAccount rt inv owner session 440 rt.programId
  else do
    let existing ← load AccountData.loadSession session
    Exec.rejectIf (existing.owner ≠ owner) PolyleverageError.sessionOwnerMismatch
    Exec.rejectIf (existing.isActive inv.slot = true) PolyleverageError.alreadyInitialized

def processCreateSession (args : CreateSessionArgs) : LedgerM Unit := do
  match inv.accounts with
  | owner :: config :: session :: system :: _ => do
    assertSigner rt inv owner
    assertWritable rt inv owner
    assertWritable rt inv session
    assertOwned rt [config]
    assertSystemProgram system
    let _ ← loadUnpaused config
    let bump ← assertPda rt (.session owner) session
    Exec.ofExcept (Session.validate args.expiresAtSlot.toNat args.perIntentMaxCollateralAtoms.toNat
      args.cumulativeCollateralCap.toNat inv.slot args.allowedInstruments)
    prepareSession rt inv owner session
    writeData rt inv session <| .session
      { bump
        revoked := 0
        owner
        delegate := args.delegate
        expiresAtSlot := args.expiresAtSlot.toNat
        perIntentMaxCollateralAtoms := args.perIntentMaxCollateralAtoms.toNat
        cumulativeCollateralUsed := 0
        cumulativeCollateralCap := args.cumulativeCollateralCap.toNat
        createdAtSlot := inv.slot
        version := 1
        allowedInstruments := args.allowedInstruments }
  | _ => Exec.throw .notEnoughAccountKeys

/-- The owner revokes the session. -/
def revokeBy (owner : Pubkey) : Exec ProgramError Session Unit := do
  let s ← Exec.get
  Exec.rejectIf (s.owner ≠ owner) PolyleverageError.sessionOwnerMismatch
  Exec.put s.revoke

def processRevokeSession : LedgerM Unit := do
  match inv.accounts with
  | owner :: session :: _ => do
    assertSigner rt inv owner
    assertWritable rt inv session
    assertOwned rt [session]
    let _ ← assertPda rt (.session owner) session
    atAccount rt inv AccountData.loadSession .session session (revokeBy owner)
  | _ => Exec.throw .notEnoughAccountKeys

end Polyleverage
