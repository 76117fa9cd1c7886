import Polyleverage.Math.Fixed
import Polyleverage.Runtime.Basic
import Polyleverage.State.IntentTree
import Polyleverage.State.SeatTree

/-! # What the handlers do to a book

The parts of the trading handlers that run while a book is borrowed: posting, taking intents out,
finding them, and consuming one contract of a crossing pair.
-/

namespace Polyleverage

open Machine

namespace Book

/-! ### Lookup -/

/-- Linear scan for an intent: its slot and its side. -/
def findIntentFrom (id : ℕ) : ℕ → List RawNode → Except ProgramError (ℕ × ℕ)
  | _, [] => .error PolyleverageError.intentNotFound
  | i, .intent node :: rest => if node.id = id then .ok (i, node.side) else findIntentFrom id (i + 1) rest
  | i, _ :: rest => findIntentFrom id (i + 1) rest

def findIntentById (b : IntentBook) (id : ℕ) : Except ProgramError (ℕ × ℕ) := findIntentFrom id 0 b.nodes

/-- Scan the slots for at most `limit` intents to work on, and measure each of them. -/
def scanIntents {α : Type} (pick : IntentNode → Bool) (measure : IntentNode → Except ProgramError α) :
    ℕ → ℕ → List RawNode → Except ProgramError (List (ℕ × IntentNode × α))
  | 0, _, _ => .ok []
  | _ + 1, _, [] => .ok []
  | limit + 1, i, .intent node :: rest =>
    if pick node then do
      let a ← measure node
      let more ← scanIntents pick measure limit (i + 1) rest
      .ok ((i, node, a) :: more)
    else scanIntents pick measure (limit + 1) (i + 1) rest
  | limit + 1, i, _ :: rest => scanIntents pick measure (limit + 1) (i + 1) rest

/-- The whole reservation of an intent. -/
def reservation (node : IntentNode) : Except ProgramError ℕ :=
  orOverflow (checkedAdd 64 node.reservedCollateral node.feeBuffer)

/-! ### Taking intents out -/

def removeIntent (side idx : ℕ) : BookM Unit := do
  IntentTree.remove side idx
  IntentBook.freeNode idx

/-- Count fewer intents on a seat, stopping at zero. -/
def releaseSeat (idx count : ℕ) : BookM Unit := do
  let seat ← Exec.gets (IntentBook.seat · idx)
  Exec.modify fun b =>
    b.setNode idx (.seat { seat with activeIntentCount := saturatingSub seat.activeIntentCount count })

/-- Take an intent out of its tree, free its slot and tell its seat. -/
def cancel (side idx ownerSeat : ℕ) : BookM Unit := do
  removeIntent side idx
  releaseSeat ownerSeat 1

/-- At most this many intents are pruned by a post. -/
def MAX_PRUNES_PER_POST : ℕ := 4

/-- Take out the collected intents. The result is their summed reservation. -/
def removeAll : List (ℕ × IntentNode × ℕ) → ℕ → BookM ℕ
  | [], refund => pure refund
  | (idx, node, total) :: rest, refund => do
    removeIntent node.side idx
    let refund ← Exec.orErr (checkedAdd 64 refund total) PolyleverageError.arithmeticOverflow
    removeAll rest refund

/-- An intent of this seat that is expired and not used up. -/
def isOwnExpired (seatIdx now : ℕ) (node : IntentNode) : Bool :=
  node.ownerSeat = seatIdx ∧ node.expirationSlot ≤ now ∧ node.contractsRemaining ≠ 0

/-- Prune the poster's own expired intents. The result is what they had reserved. -/
def pruneOwnExpired (owner : Pubkey) (now : ℕ) : BookM ℕ := do
  let seatIdx ← SeatTree.find owner
  if seatIdx = NULL_IDX then pure 0
  else do
    let work ← Exec.gets fun b => scanIntents (isOwnExpired seatIdx now) reservation MAX_PRUNES_PER_POST 0 b.nodes
    let refund ← removeAll work 0
    Exec.when (work ≠ []) (releaseSeat seatIdx work.length)
    pure refund

/-! ### Posting -/

/-- What an intent is posted with. -/
structure Draft where
  side : ℕ
  flags : ℕ
  priceFp : ℕ
  contracts : ℕ
  expirationSlot : ℕ
  reservedCollateral : ℕ
  feeBuffer : ℕ
  deriving DecidableEq, Repr

/-- The node of a fresh intent, with all its contracts left. -/
def Draft.node (d : Draft) (id postSeq ownerSeat : ℕ) : IntentNode where
  side := d.side
  color := .red
  flags := d.flags
  left := NULL_IDX
  right := NULL_IDX
  parent := NULL_IDX
  priceFp := d.priceFp
  id
  ownerSeat
  contractsTotal := d.contracts
  contractsRemaining := d.contracts
  expirationSlot := d.expirationSlot
  postSeq
  reservedCollateral := d.reservedCollateral
  feeBuffer := d.feeBuffer

/-- Count one more intent on a seat. -/
def chargeSeat (idx : ℕ) : BookM Unit := do
  let seat ← Exec.gets (IntentBook.seat · idx)
  let count ← Exec.orErr (checkedAdd 32 seat.activeIntentCount 1) PolyleverageError.arithmeticOverflow
  Exec.modify fun b => b.setNode idx (.seat { seat with activeIntentCount := count })

/-- Seat the owner, number the intent, and insert it. The result is its id. -/
def post (owner : Pubkey) (d : Draft) : BookM ℕ := do
  let seatIdx ← SeatTree.findOrCreate owner
  chargeSeat seatIdx
  let intentId ← IntentBook.nextIntentId
  let postSeq ← IntentBook.nextSeq
  let nodeIdx ← IntentBook.allocNode
  IntentBook.writeIntent nodeIdx (d.node intentId postSeq seatIdx)
  IntentTree.insert d.side nodeIdx
  pure intentId

/-! ### Discovery -/

/-- The first live order of a side decides: it crosses the taker, or none does. -/
def overlapVisitor (oppositeSide takerPrice nowSlot skipId : ℕ) (node : IntentNode) : Option (Option ℕ) :=
  if node.contractsRemaining = 0 ∨ node.expirationSlot ≤ nowSlot ∨ node.id = skipId then none
  else if (if oppositeSide = SIDE_SHORT then node.priceFp ≤ takerPrice else takerPrice ≤ node.priceFp) then
    some (some node.id)
  else some none

def findOverlapOnSide (oppositeSide takerPrice nowSlot skipId : ℕ) : BookM (Option ℕ) := do
  let found ← IntentTree.forEachBestFirst oppositeSide fun _ node =>
    overlapVisitor oppositeSide takerPrice nowSlot skipId node
  pure found.join

/-- The best live bid and the best live ask, when they cross. -/
def scanForFirstValidPair (nowSlot : ℕ) : BookM (Option (ℕ × ℕ)) := do
  let bestLong ← IntentTree.firstLive SIDE_LONG nowSlot
  let bestShort ← IntentTree.firstLive SIDE_SHORT nowSlot
  match bestLong, bestShort with
  | some (_, long), some (_, short) =>
    if short.priceFp ≤ long.priceFp then pure (some (long.id, short.id)) else pure none
  | _, _ => pure none

/-! ### Consuming a pair -/

/-- The share of a fee buffer that goes with a fill; the last fill takes all that is left. -/
def releaseFeeBufferForFill (feeBuffer contractsRemainingBefore fillContracts : ℕ) : Except ProgramError ℕ :=
  if fillContracts = 0 ∨ contractsRemainingBefore = 0 ∨ contractsRemainingBefore < fillContracts then
    .error PolyleverageError.invalidContractCount
  else if fillContracts = contractsRemainingBefore then .ok feeBuffer
  else
    orOverflow (let share := feeBuffer * fillContracts / contractsRemainingBefore
      if share < 2 ^ 64 then some share else none)

/-- Two intents and their slots. -/
structure Pair where
  longIdx : ℕ
  shortIdx : ℕ
  long : IntentNode
  short : IntentNode
  deriving DecidableEq, Repr

/-- Find two intents by their ids and check that they can be filled against each other. -/
def findPair (longIntentId shortIntentId nowSlot : ℕ) (b : IntentBook) : Except ProgramError Pair := do
  let (longIdx, longSide) ← findIntentById b longIntentId
  let (shortIdx, shortSide) ← findIntentById b shortIntentId
  if longSide ≠ SIDE_LONG ∨ shortSide ≠ SIDE_SHORT then .error PolyleverageError.notOppositeSides
  else do
    let long ← b.intent longIdx
    let short ← b.intent shortIdx
    if long.expirationSlot ≤ nowSlot ∨ short.expirationSlot ≤ nowSlot then
      .error PolyleverageError.intentExpired
    else if long.contractsRemaining = 0 ∨ short.contractsRemaining = 0 then
      .error PolyleverageError.intentNotFound
    else if long.priceFp < short.priceFp then .error PolyleverageError.noRangeOverlap
    else .ok ⟨longIdx, shortIdx, long, short⟩

/-- What one contract takes out of an intent's fee buffer. -/
def fillRelease (node : IntentNode) : Except ProgramError ℕ :=
  if node.contractsRemaining = 1 then .ok node.feeBuffer
  else releaseFeeBufferForFill node.feeBuffer node.contractsRemaining 1

/-- The pair with one contract less on each side, and the two releases. -/
def consume (bucket : ℕ) (p : Pair) : Except ProgramError (Pair × ℕ × ℕ) := do
  let longReserved ← insufficientReserved (checkedSub p.long.reservedCollateral bucket)
  let shortReserved ← insufficientReserved (checkedSub p.short.reservedCollateral bucket)
  let longRelease ← fillRelease p.long
  let shortRelease ← fillRelease p.short
  let longBuffer ← underflow (checkedSub p.long.feeBuffer longRelease)
  let shortBuffer ← underflow (checkedSub p.short.feeBuffer shortRelease)
  .ok
    ({ p with
        long :=
          { p.long with
            contractsRemaining := p.long.contractsRemaining - 1
            reservedCollateral := longReserved
            feeBuffer := longBuffer }
        short :=
          { p.short with
            contractsRemaining := p.short.contractsRemaining - 1
            reservedCollateral := shortReserved
            feeBuffer := shortBuffer } },
      longRelease, shortRelease)
where
  insufficientReserved (value : Option ℕ) : Except ProgramError ℕ :=
    match value with
    | some v => .ok v
    | none => .error PolyleverageError.insufficientReservedCollateral
  underflow (value : Option ℕ) : Except ProgramError ℕ :=
    match value with
    | some v => .ok v
    | none => .error PolyleverageError.arithmeticUnderflow

/-- Write the pair back, and take out what is used up. -/
def writePair (p : Pair) : BookM Unit := do
  IntentBook.updateIntent p.longIdx fun _ => p.long
  IntentBook.updateIntent p.shortIdx fun _ => p.short
  Exec.when (p.long.contractsRemaining = 0) (removeIntent SIDE_LONG p.longIdx)
  Exec.when (p.short.contractsRemaining = 0) (removeIntent SIDE_SHORT p.shortIdx)

end Book

end Polyleverage
