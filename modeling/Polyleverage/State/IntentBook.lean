import Polyleverage.Address
import Polyleverage.Error
import Polyleverage.Exec.Basic
import Polyleverage.Math.Machine
import Polyleverage.RedBlack.Tree

/-! # Intent books

A book is one account for one instrument: a header and a pool of equally long slots. A slot holds an
intent, a seat or nothing, and its tag says which. Slot `0` is the null sentinel. Free slots are
linked into a list that starts in the header; slots from the node count on were never used.
-/

namespace Polyleverage

open Machine

/-- The bytes of one slot. -/
def NODE_SIZE : ℕ := 96

def INTENT_BOOK_HEADER_LEN : ℕ := 120

def INTENT_FLAG_REENTRY : ℕ := 1

def SIDE_LONG : ℕ := 0

def SIDE_SHORT : ℕ := 1

def NULL_IDX : ℕ := 0

structure IntentBookHeader where
  bump : ℕ
  instrument : Pubkey
  longTreeRoot : ℕ
  shortTreeRoot : ℕ
  seatTreeRoot : ℕ
  freelistHead : ℕ
  nodeCount : ℕ
  capacity : ℕ
  nextIntentId : ℕ
  nextSeq : ℕ
  cachedMaxFeeBps : ℕ
  deriving DecidableEq, Repr

/-- A limit order. -/
structure IntentNode where
  side : ℕ
  color : RedBlack.Color
  flags : ℕ
  left : ℕ
  right : ℕ
  parent : ℕ
  priceFp : ℕ
  id : ℕ
  ownerSeat : ℕ
  contractsTotal : ℕ
  contractsRemaining : ℕ
  expirationSlot : ℕ
  postSeq : ℕ
  reservedCollateral : ℕ
  feeBuffer : ℕ
  deriving DecidableEq, Repr

/-- A trader's entry in the owner registry. -/
structure SeatNode where
  color : RedBlack.Color
  left : ℕ
  right : ℕ
  parent : ℕ
  trader : Pubkey
  activeIntentCount : ℕ
  deriving DecidableEq, Repr

/-- A slot under its tag. -/
inductive RawNode where
  | free (nextFree : ℕ)
  | intent (node : IntentNode)
  | seat (node : SeatNode)
  deriving DecidableEq, Repr

/-- The bytes that a free slot keeps its successor in. The other tags keep their left child there. -/
def RawNode.nextFree : RawNode → ℕ
  | .free next => next
  | .intent node => node.left
  | .seat node => node.left

structure IntentBook where
  header : IntentBookHeader
  nodes : List RawNode
  deriving DecidableEq, Repr

abbrev BookM := Exec ProgramError IntentBook

namespace IntentBook

/-! ### Typed access -/

def intent (b : IntentBook) (idx : ℕ) : Except ProgramError IntentNode :=
  match b.nodes[idx]? with
  | some (.intent node) => .ok node
  | some _ => .error PolyleverageError.intentNotFound
  | none => .error .invalidAccountData

def seat (b : IntentBook) (idx : ℕ) : Except ProgramError SeatNode :=
  match b.nodes[idx]? with
  | some (.seat node) => .ok node
  | some _ => .error PolyleverageError.intentNotFound
  | none => .error .invalidAccountData

def setNode (b : IntentBook) (idx : ℕ) (node : RawNode) : IntentBook :=
  { b with nodes := b.nodes.set idx node }

/-- Replace the intent in a slot that holds one. -/
def updateIntent (idx : ℕ) (f : IntentNode → IntentNode) : BookM Unit := do
  let node ← Exec.gets (intent · idx)
  Exec.modify (setNode · idx (.intent (f node)))

def writeIntent (idx : ℕ) (node : IntentNode) : BookM Unit := do
  let b ← Exec.get
  Exec.rejectIf (b.nodes.length ≤ idx) .invalidAccountData
  Exec.put (b.setNode idx (.intent node))

def writeSeat (idx : ℕ) (node : SeatNode) : BookM Unit := do
  let b ← Exec.get
  Exec.rejectIf (b.nodes.length ≤ idx) .invalidAccountData
  Exec.put (b.setNode idx (.seat node))

/-! ### Node allocator -/

/-- A slot for a new node: the head of the free list, or else the first slot never used. Its tag
stays what it was until the caller writes a node into it. -/
def allocNode : BookM ℕ := do
  let b ← Exec.get
  if b.header.freelistHead ≠ NULL_IDX then
    match b.nodes[b.header.freelistHead]? with
    | none => Exec.abort
    | some node => do
      Exec.put { b with header := { b.header with freelistHead := node.nextFree } }
      pure b.header.freelistHead
  else do
    Exec.rejectIf (b.header.capacity ≤ b.header.nodeCount) PolyleverageError.intentBookFull
    let next ← Exec.orErr (checkedAdd 32 b.header.nodeCount 1) PolyleverageError.arithmeticOverflow
    Exec.put { b with header := { b.header with nodeCount := next } }
    pure b.header.nodeCount

def freeNode (idx : ℕ) : BookM Unit := do
  let b ← Exec.get
  Exec.rejectIf (idx = NULL_IDX ∨ b.nodes.length ≤ idx) .invalidAccountData
  Exec.put
    { header := { b.header with freelistHead := idx }
      nodes := b.nodes.set idx (.free b.header.freelistHead) }

/-! ### Counters -/

def nextSeq : BookM ℕ := do
  let b ← Exec.get
  let next ← Exec.orErr (checkedAdd 64 b.header.nextSeq 1) PolyleverageError.arithmeticOverflow
  Exec.put { b with header := { b.header with nextSeq := next } }
  pure b.header.nextSeq

def nextIntentId : BookM ℕ := do
  let b ← Exec.get
  let next ← Exec.orErr (checkedAdd 64 b.header.nextIntentId 1) PolyleverageError.arithmeticOverflow
  Exec.put { b with header := { b.header with nextIntentId := next } }
  pure b.header.nextIntentId

/-! ### Initialization and growth -/

def byteSize (capacity : ℕ) : ℕ := INTENT_BOOK_HEADER_LEN + capacity * NODE_SIZE

/-- A fresh book: every slot zeroed, slot `0` reserved. -/
def initIntentBook (instrument : Pubkey) (capacity bump cachedMaxFeeBps : ℕ) : IntentBook where
  header :=
    { bump, instrument
      longTreeRoot := NULL_IDX, shortTreeRoot := NULL_IDX, seatTreeRoot := NULL_IDX
      freelistHead := NULL_IDX
      nodeCount := 1
      capacity
      nextIntentId := 1, nextSeq := 1
      cachedMaxFeeBps }
  nodes := List.replicate capacity (.free NULL_IDX)

/-- Push a slot onto the free list. A slot outside the pool is a panic. -/
def pushFree (idx : ℕ) : BookM Unit := do
  let b ← Exec.get
  Exec.abortIf (b.nodes.length ≤ idx)
  Exec.put
    { header := { b.header with freelistHead := idx }
      nodes := b.nodes.set idx (.free b.header.freelistHead) }

/-- Push the slots from `first` on, `count` of them, in ascending order. -/
def pushFreeFrom (first : ℕ) : ℕ → BookM Unit
  | 0 => pure ()
  | count + 1 => do
    pushFree first
    pushFreeFrom (first + 1) count

/-- Append zeroed slots to the pool, count them in the capacity and link them into the free list. -/
def expandNodes (additionalNodes : ℕ) : BookM Unit := do
  Exec.modify fun b => { b with nodes := b.nodes ++ List.replicate additionalNodes (.free NULL_IDX) }
  let b ← Exec.get
  let capacity ← Exec.orErr (checkedAdd 32 b.header.capacity additionalNodes)
    PolyleverageError.arithmeticOverflow
  Exec.put { b with header := { b.header with capacity } }
  pushFreeFrom b.header.capacity additionalNodes

/-! ### Reading what was written -/

section Access

variable {b : IntentBook} {idx : ℕ}

theorem intent_eq_ok {node : IntentNode} : b.intent idx = .ok node ↔ b.nodes[idx]? = some (.intent node) := by
  unfold intent
  split <;> simp_all

theorem seat_eq_ok {node : SeatNode} : b.seat idx = .ok node ↔ b.nodes[idx]? = some (.seat node) := by
  unfold seat
  split <;> simp_all

theorem lt_length_of_getElem? {node : RawNode} (slot : b.nodes[idx]? = some node) : idx < b.nodes.length :=
  (List.getElem?_eq_some_iff.mp slot).1

@[simp] theorem header_setNode (node : RawNode) : (b.setNode idx node).header = b.header := rfl

@[simp] theorem length_setNode (node : RawNode) : (b.setNode idx node).nodes.length = b.nodes.length :=
  List.length_set

theorem getElem?_setNode_self {node : RawNode} (inside : idx < b.nodes.length) :
    (b.setNode idx node).nodes[idx]? = some node := by
  simp [setNode, inside]

theorem getElem?_setNode_of_ne {node : RawNode} {j : ℕ} (other : j ≠ idx) :
    (b.setNode idx node).nodes[j]? = b.nodes[j]? := by
  simp [setNode, List.getElem?_set_ne (Ne.symm other)]

end Access

end IntentBook

end Polyleverage
