import Polyleverage.Instruction
import Polyleverage.Runtime.Basic

/-! # Margin accounts: create, deposit, withdraw -/

namespace Polyleverage

variable (rt : Runtime) (inv : rt.Invocation)

def processCreateMarginAccount : LedgerM Unit := do
  match inv.accounts with
  | owner :: margin :: mint :: system :: _ => do
    assertSigner rt inv owner
    assertWritable rt inv owner
    assertWritable rt inv margin
    assertSystemProgram system
    assertTokenOwned rt mint
    let bump ← assertPda rt (.margin owner mint) margin
    assertEmpty margin
    createAndInit rt inv owner margin (.marginAccount (MarginAccount.init owner mint bump))
  | _ => Exec.throw .notEnoughAccountKeys

/-- The account is the canonical vault of the mint. -/
def validateVaultTokenAccount (vault vaultAuthority mint : Pubkey) : LedgerM Unit := do
  Exec.rejectIf (vault ≠ rt.getAssociatedTokenAddress vaultAuthority mint) PolyleverageError.invalidVault
  let token ← load AccountData.unpackToken vault
  Exec.rejectIf (token.owner ≠ vaultAuthority) PolyleverageError.invalidTokenAccountOwner
  Exec.rejectIf (token.mint ≠ mint) PolyleverageError.invalidMint

def processDeposit (amount : UInt64) : LedgerM Unit := do
  Exec.rejectIf (amount = 0) PolyleverageError.invalidInstructionData
  match inv.accounts with
  | owner :: margin :: mint :: userAta :: vault :: tokenProgram :: _ => do
    assertSigner rt inv owner
    assertWritable rt inv margin
    assertWritable rt inv userAta
    assertWritable rt inv vault
    assertOwned rt [margin]
    assertTokenProgram rt tokenProgram
    let bump ← assertPda rt (.margin owner mint) margin
    let m ← load AccountData.loadMargin margin
    Exec.ofExcept (m.requireIdentity owner mint bump)
    validateVaultTokenAccount rt vault (rt.address (.vault mint)) mint
    invoke fun s => rt.transfer s userAta vault owner amount.toNat
    atMargin rt inv margin (MarginAccount.creditFree amount.toNat)
  | _ => Exec.throw .notEnoughAccountKeys

/-- Debit the free collateral of this owner's margin account. -/
def withdrawFree (owner mint : Pubkey) (bump amount : ℕ) : MarginM Unit := do
  let m ← Exec.get
  Exec.ofExcept (m.requireIdentity owner mint bump)
  MarginAccount.debitFree amount

def processWithdraw (amount : UInt64) : LedgerM Unit := do
  Exec.rejectIf (amount = 0) PolyleverageError.invalidInstructionData
  match inv.accounts with
  | owner :: margin :: mint :: userAta :: vault :: vaultAuthority :: tokenProgram :: _ => do
    assertSigner rt inv owner
    assertWritable rt inv margin
    assertWritable rt inv userAta
    assertWritable rt inv vault
    assertOwned rt [margin]
    assertTokenProgram rt tokenProgram
    let bump ← assertPda rt (.margin owner mint) margin
    let _ ← assertPda rt (.vault mint) vaultAuthority
    validateVaultTokenAccount rt vault vaultAuthority mint
    atMargin rt inv margin (withdrawFree owner mint bump amount.toNat)
    invoke fun s => rt.transfer s vault userAta vaultAuthority amount.toNat
  | _ => Exec.throw .notEnoughAccountKeys

end Polyleverage
