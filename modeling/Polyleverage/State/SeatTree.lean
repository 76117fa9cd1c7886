import Polyleverage.RedBlack.Search
import Polyleverage.State.IntentBook

/-! # The seat registry

The seats of a book form a red-black tree sorted by the trader's key. Seats are created on demand and
stay.
-/

namespace Polyleverage

open RedBlack

namespace SeatNode

def links (node : SeatNode) : Links := ⟨node.color, node.left, node.right, node.parent⟩

def withLinks (node : SeatNode) (l : Links) : SeatNode :=
  { node with color := l.color, left := l.left, right := l.right, parent := l.parent }

@[simp] theorem links_withLinks (node : SeatNode) (l : Links) : (node.withLinks l).links = l := rfl

@[simp] theorem trader_withLinks (node : SeatNode) (l : Links) : (node.withLinks l).trader = node.trader :=
  rfl

end SeatNode

namespace SeatTree

def root (b : IntentBook) : ℕ := b.header.seatTreeRoot

def setRoot (b : IntentBook) (v : ℕ) : IntentBook :=
  { b with header := { b.header with seatTreeRoot := v } }

def setLinks (b : IntentBook) (idx : ℕ) (l : Links) : IntentBook :=
  match b.nodes[idx]? with
  | some (.seat node) => b.setNode idx (.seat (node.withLinks l))
  | _ => b

section Writes

variable (b : IntentBook) (idx : ℕ) (l : Links)

@[simp] theorem header_setLinks : (setLinks b idx l).header = b.header := by
  unfold setLinks
  split <;> rfl

@[simp] theorem length_setLinks : (setLinks b idx l).nodes.length = b.nodes.length := by
  unfold setLinks
  split <;> simp

theorem seat_setLinks (j : ℕ) :
    (setLinks b idx l).seat j =
      if j = idx then (b.seat idx).map (SeatNode.withLinks · l) else b.seat j := by
  unfold setLinks
  split
  next node slot =>
    have inside := IntentBook.lt_length_of_getElem? slot
    by_cases same : j = idx
    · subst same
      simp only [IntentBook.seat, IntentBook.getElem?_setNode_self inside, slot, if_true]
      rfl
    · simp only [IntentBook.seat, IntentBook.getElem?_setNode_of_ne same, same, if_false]
  next other =>
    by_cases same : j = idx
    · subst same
      simp only [if_true, IntentBook.seat]
      split <;> simp_all [Except.map]
    · simp only [same, if_false]

end Writes

/-- The pool of the seat tree. A trader has one seat, and rotations do not check for a child. -/
def pool : LinkedPool ProgramError IntentBook Pubkey where
  links b i := (b.seat i).map SeatNode.links
  setLinks := setLinks
  root b := .ok (root b)
  setRoot := setRoot
  key b i := (b.seat i).map SeatNode.trader
  order := Pubkey.compare
  size b := b.nodes.length
  sentinelInserted := .invalidAccountData
  sentinelRemoved := .invalidAccountData
  missingChild := none
  duplicate := some PolyleverageError.alreadyInitialized
  links_setLinks := by
    intro b i l l' linked
    funext j
    rw [seat_setLinks]
    by_cases same : j = i
    · subst same
      rw [if_pos rfl, Function.update_self]
      cases found : b.seat j with
      | ok node => rfl
      | error e => simp [found, Except.map] at linked
    · rw [if_neg same, Function.update_of_ne same]
  root_setLinks := by
    intro b i l
    simp only [root, header_setLinks]
  key_setLinks := by
    intro b i l
    funext j
    rw [seat_setLinks]
    by_cases same : j = i
    · subst same
      rw [if_pos rfl]
      cases b.seat j <;> rfl
    · rw [if_neg same]
  size_setLinks := length_setLinks
  links_setRoot _ _ := rfl
  root_setRoot _ _ := rfl
  key_setRoot _ _ := rfl
  size_setRoot _ _ := rfl
  key_of_links := by
    intro b i l linked
    cases found : b.seat i with
    | ok node => exact ⟨node.trader, rfl⟩
    | error e => simp [found, Except.map] at linked
  lt_size := by
    intro b i l linked
    cases found : b.seat i with
    | ok node => exact IntentBook.lt_length_of_getElem? (IntentBook.seat_eq_ok.mp found)
    | error e => simp [found, Except.map] at linked
  order_trans := inferInstance

/-! ### The tree operations -/

def rotateLeft (x : ℕ) : BookM Unit := pool.rotate .left x

def rotateRight (x : ℕ) : BookM Unit := pool.rotate .right x

def insertFixup (z : ℕ) : BookM Unit := pool.insertFixup z

def insert (idx : ℕ) : BookM Unit := pool.insert idx

/-- The seat of a trader, or the sentinel. -/
def find (trader : Pubkey) : BookM ℕ := pool.find trader

def freshSeat (trader : Pubkey) : SeatNode where
  color := .red
  left := NULL_IDX
  right := NULL_IDX
  parent := NULL_IDX
  trader
  activeIntentCount := 0

def findOrCreate (trader : Pubkey) : BookM ℕ := do
  let existing ← find trader
  if existing ≠ NULL_IDX then pure existing
  else do
    let idx ← IntentBook.allocNode
    IntentBook.writeSeat idx (freshSeat trader)
    insert idx
    pure idx

end SeatTree

end Polyleverage
