import Polyleverage.Instruction
import Polyleverage.Runtime.Basic

/-! # Wrapping stablecoins

Accepted coins are swapped against the wrapped coin, atom for atom, out of one reserve for each.
-/

namespace Polyleverage

variable (rt : Runtime) (inv : rt.Invocation)

/-- The registry accepts the mint and is the registry of this wrapped coin. -/
def requireAccepted (registry wusdMint mint : Pubkey) : LedgerM Unit := do
  let reg ← load AccountData.loadStablecoinRegistry registry
  Exec.rejectIf (reg.wusdMint ≠ wusdMint) PolyleverageError.invalidMint
  Exec.rejectIf (reg.isAccepted mint = false) PolyleverageError.stablecoinNotAccepted

/-- The reserve is the authority's, of this mint. -/
def loadReserve (reserve authority mint : Pubkey) : LedgerM TokenAccount := do
  let token ← load AccountData.unpackToken reserve
  Exec.rejectIf (token.owner ≠ authority) PolyleverageError.invalidTokenAccountOwner
  Exec.rejectIf (token.mint ≠ mint) PolyleverageError.invalidMint
  pure token

def processWrapStablecoin (amount : UInt64) : LedgerM Unit := do
  Exec.rejectIf (amount = 0) PolyleverageError.invalidInstructionData
  match inv.accounts with
  | user :: registry :: sourceMint :: wusdMint :: wusdAuthority :: userSource :: reserve :: userWusd ::
      tokenProgram :: _ => do
    assertSigner rt inv user
    assertWritable rt inv wusdMint
    assertWritable rt inv userSource
    assertWritable rt inv reserve
    assertWritable rt inv userWusd
    assertOwned rt [registry]
    assertTokenProgram rt tokenProgram
    let _ ← assertPda rt .wusdMint wusdMint
    let _ ← assertPda rt .wusdAuthority wusdAuthority
    requireAccepted registry wusdMint sourceMint
    let _ ← loadReserve reserve wusdAuthority sourceMint
    invoke fun s => rt.transfer s userSource reserve user amount.toNat
    invoke fun s => rt.mintTo s wusdMint userWusd wusdAuthority amount.toNat
  | _ => Exec.throw .notEnoughAccountKeys

def processUnwrapStablecoin (amount : UInt64) : LedgerM Unit := do
  Exec.rejectIf (amount = 0) PolyleverageError.invalidInstructionData
  match inv.accounts with
  | user :: registry :: targetMint :: wusdMint :: wusdAuthority :: userWusd :: reserve :: userTarget ::
      tokenProgram :: _ => do
    assertSigner rt inv user
    assertWritable rt inv wusdMint
    assertWritable rt inv userWusd
    assertWritable rt inv reserve
    assertWritable rt inv userTarget
    assertOwned rt [registry]
    assertTokenProgram rt tokenProgram
    let _ ← assertPda rt .wusdMint wusdMint
    let _ ← assertPda rt .wusdAuthority wusdAuthority
    requireAccepted registry wusdMint targetMint
    let token ← loadReserve reserve wusdAuthority targetMint
    Exec.rejectIf (token.amount < amount.toNat) PolyleverageError.insufficientStablecoinReserve
    invoke fun s => rt.burn s userWusd wusdMint user amount.toNat
    invoke fun s => rt.transfer s reserve userTarget wusdAuthority amount.toNat
  | _ => Exec.throw .notEnoughAccountKeys

end Polyleverage
