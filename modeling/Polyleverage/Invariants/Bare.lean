import Polyleverage.State.IntentTree
import Polyleverage.State.SeatTree

/-! # Books without their links

The bare book forgets how the slots are linked: the colors, the children and parents, the roots and
the free list. What is left is the content of every slot and the counters. Tree operations do not
change it.
-/

namespace Polyleverage

open RedBlack

/-- No links at all. -/
def noLinks : Links := ⟨.black, NULL_IDX, NULL_IDX, NULL_IDX⟩

def RawNode.bare : RawNode → RawNode
  | .free _ => .free NULL_IDX
  | .intent node => .intent (node.withLinks noLinks)
  | .seat node => .seat (node.withLinks noLinks)

def IntentBookHeader.bare (h : IntentBookHeader) : IntentBookHeader :=
  { h with
    longTreeRoot := NULL_IDX, shortTreeRoot := NULL_IDX, seatTreeRoot := NULL_IDX
    freelistHead := NULL_IDX }

namespace IntentBook

def bare (b : IntentBook) : IntentBook := ⟨b.header.bare, b.nodes.map RawNode.bare⟩

section Bare

variable {b b' : IntentBook} {idx : ℕ}

@[simp] theorem length_bare : b.bare.nodes.length = b.nodes.length := List.length_map _

@[simp] theorem getElem?_bare : b.bare.nodes[idx]? = (b.nodes[idx]?).map RawNode.bare := List.getElem?_map

theorem bare_setNode (node : RawNode) : (b.setNode idx node).bare = b.bare.setNode idx node.bare := by
  simp [bare, setNode, List.map_set]

theorem setNode_self {node : RawNode} (slot : b.nodes[idx]? = some node) : b.setNode idx node = b := by
  obtain ⟨inside, rfl⟩ := List.getElem?_eq_some_iff.mp slot
  simp [setNode]

/-- Replacing a node by one with the same content changes no content. -/
theorem bare_setNode_of_bare_eq {node node' : RawNode} (slot : b.nodes[idx]? = some node)
    (same : node'.bare = node.bare) : (b.setNode idx node').bare = b.bare := by
  rw [bare_setNode, same]
  exact setNode_self (by rw [getElem?_bare, slot]; rfl)

/-- A bare node tells the node up to its links. -/
theorem intent_of_bare {node : IntentNode} (slot : b.bare.nodes[idx]? = some (.intent node)) :
    ∃ l, b.nodes[idx]? = some (.intent (node.withLinks l)) := by
  rw [getElem?_bare] at slot
  cases found : b.nodes[idx]? with
  | none => simp [found] at slot
  | some raw =>
    cases raw with
    | free next => simp [found, RawNode.bare] at slot
    | seat s => simp [found, RawNode.bare] at slot
    | intent n =>
      simp only [found, Option.map_some, RawNode.bare, Option.some.injEq, RawNode.intent.injEq] at slot
      exact ⟨n.links, by rw [← slot]; rfl⟩

theorem seat_of_bare {node : SeatNode} (slot : b.bare.nodes[idx]? = some (.seat node)) :
    ∃ l, b.nodes[idx]? = some (.seat (node.withLinks l)) := by
  rw [getElem?_bare] at slot
  cases found : b.nodes[idx]? with
  | none => simp [found] at slot
  | some raw =>
    cases raw with
    | free next => simp [found, RawNode.bare] at slot
    | intent n => simp [found, RawNode.bare] at slot
    | seat n =>
      simp only [found, Option.map_some, RawNode.bare, Option.some.injEq, RawNode.seat.injEq] at slot
      exact ⟨n.links, by rw [← slot]; rfl⟩

theorem bare_of_intent {node : IntentNode} (slot : b.nodes[idx]? = some (.intent node)) :
    b.bare.nodes[idx]? = some (.intent (node.withLinks noLinks)) := by
  rw [getElem?_bare, slot]
  rfl

theorem bare_of_seat {node : SeatNode} (slot : b.nodes[idx]? = some (.seat node)) :
    b.bare.nodes[idx]? = some (.seat (node.withLinks noLinks)) := by
  rw [getElem?_bare, slot]
  rfl

/-! Bare books have the same size and counters. -/

theorem length_of_bare (same : b'.bare = b.bare) : b'.nodes.length = b.nodes.length := by
  simpa using congrArg (fun c : IntentBook => c.nodes.length) same

theorem capacity_of_bare (same : b'.bare = b.bare) : b'.header.capacity = b.header.capacity := by
  have := congrArg (fun c : IntentBook => c.header.capacity) same
  exact this

theorem nodeCount_of_bare (same : b'.bare = b.bare) : b'.header.nodeCount = b.header.nodeCount := by
  have := congrArg (fun c : IntentBook => c.header.nodeCount) same
  exact this

end Bare

end IntentBook

/-! ### Tree operations change links only -/

/-- Two books with the same content, one of whose order trees was worked on: the seats, the free list
and the other side are as they were. -/
structure SameButTree (side : ℕ) (b b' : IntentBook) : Prop where
  bare : b'.bare = b.bare
  freelistHead : b'.header.freelistHead = b.header.freelistHead
  seatTreeRoot : b'.header.seatTreeRoot = b.header.seatTreeRoot
  otherRoot : ∀ other, other ≠ side → IntentTree.treeRoot b' other = IntentTree.treeRoot b other
  notIntent : ∀ i : ℕ, (∀ node, b.nodes[i]? ≠ some (.intent node)) → b'.nodes[i]? = b.nodes[i]?

theorem SameButTree.refl (side : ℕ) (b : IntentBook) : SameButTree side b b :=
  ⟨rfl, rfl, rfl, fun _ _ => rfl, fun _ _ => rfl⟩

theorem SameButTree.trans {side : ℕ} {b b' b'' : IntentBook} (first : SameButTree side b b')
    (next : SameButTree side b' b'') : SameButTree side b b'' where
  bare := next.bare.trans first.bare
  freelistHead := next.freelistHead.trans first.freelistHead
  seatTreeRoot := next.seatTreeRoot.trans first.seatTreeRoot
  otherRoot other different := (next.otherRoot other different).trans (first.otherRoot other different)
  notIntent i untagged := by
    have same := first.notIntent i untagged
    rw [next.notIntent i fun node => by rw [same]; exact untagged node, same]

/-- Rewriting the links of one intent. -/
theorem sameButTree_setLinks (side : ℕ) (b : IntentBook) (i : ℕ) (l : Links) :
    SameButTree side b (IntentTree.setLinks b i l) := by
  unfold IntentTree.setLinks
  split
  next node slot =>
    refine ⟨IntentBook.bare_setNode_of_bare_eq slot rfl, rfl, rfl, fun _ _ => rfl, fun j untagged => ?_⟩
    have other : j ≠ i := by
      rintro rfl
      exact untagged node slot
    exact IntentBook.getElem?_setNode_of_ne other
  next => exact .refl side b

theorem sameButTree_setTreeRoot {side : ℕ} (b : IntentBook) (v : ℕ) :
    SameButTree side b (IntentTree.setTreeRoot b side v) := by
  unfold IntentTree.setTreeRoot
  split
  next long =>
    subst long
    refine ⟨rfl, rfl, rfl, fun other different => ?_, fun _ _ => rfl⟩
    simp [IntentTree.treeRoot, different]
  next notLong =>
    split
    next short =>
      subst short
      refine ⟨rfl, rfl, rfl, fun other different => ?_, fun _ _ => rfl⟩
      simp [IntentTree.treeRoot, different]
    next => exact .refl side b

/-- Whatever an order tree's operations do to a book is work on that tree. -/
theorem sameButTree_of_relinked {side : ℕ} {b b' : IntentBook}
    (relinked : (IntentTree.pool side).Relinked b b') : SameButTree side b b' :=
  relinked.of_steps (.refl side) (fun _ _ _ => .trans) (fun b i _ l' _ => sameButTree_setLinks side b i l')
    fun b _ v _ => sameButTree_setTreeRoot b v

/-- The same for the seats. -/
structure SameButSeats (b b' : IntentBook) : Prop where
  bare : b'.bare = b.bare
  freelistHead : b'.header.freelistHead = b.header.freelistHead
  treeRoot : ∀ side, IntentTree.treeRoot b' side = IntentTree.treeRoot b side
  notSeat : ∀ i : ℕ, (∀ node, b.nodes[i]? ≠ some (.seat node)) → b'.nodes[i]? = b.nodes[i]?

theorem SameButSeats.refl (b : IntentBook) : SameButSeats b b := ⟨rfl, rfl, fun _ => rfl, fun _ _ => rfl⟩

theorem SameButSeats.trans {b b' b'' : IntentBook} (first : SameButSeats b b') (next : SameButSeats b' b'') :
    SameButSeats b b'' where
  bare := next.bare.trans first.bare
  freelistHead := next.freelistHead.trans first.freelistHead
  treeRoot side := (next.treeRoot side).trans (first.treeRoot side)
  notSeat i untagged := by
    have same := first.notSeat i untagged
    rw [next.notSeat i fun node => by rw [same]; exact untagged node, same]

theorem sameButSeats_of_relinked {b b' : IntentBook} (relinked : SeatTree.pool.Relinked b b') :
    SameButSeats b b' := by
  apply relinked.of_steps SameButSeats.refl (fun _ _ _ => .trans)
  · intro b i _ l' _
    change SameButSeats b (SeatTree.setLinks b i l')
    unfold SeatTree.setLinks
    split
    next node slot =>
      refine ⟨IntentBook.bare_setNode_of_bare_eq slot rfl, rfl, fun _ => rfl, fun j untagged => ?_⟩
      have other : j ≠ i := by
        rintro rfl
        exact untagged node slot
      exact IntentBook.getElem?_setNode_of_ne other
    next => exact .refl b
  · intro b _ v _
    exact ⟨rfl, rfl, fun _ => rfl, fun _ _ => rfl⟩

end Polyleverage
