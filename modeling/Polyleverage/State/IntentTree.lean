import Polyleverage.RedBlack.Search
import Polyleverage.State.IntentBook

/-! # The order trees

The intents of each side form a red-black tree in the pool, best order first: the highest bid or the
lowest ask is leftmost, and within a price the oldest order is. The operations are the ones of linked
red-black trees at this pool. They never touch more of a node than its links.
-/

namespace Polyleverage

open RedBlack

/-- What an intent is sorted by. -/
structure OrderKey where
  priceFp : ℕ
  postSeq : ℕ
  id : ℕ
  deriving DecidableEq, Repr

namespace IntentNode

def key (node : IntentNode) : OrderKey := ⟨node.priceFp, node.postSeq, node.id⟩

def links (node : IntentNode) : Links := ⟨node.color, node.left, node.right, node.parent⟩

def withLinks (node : IntentNode) (l : Links) : IntentNode :=
  { node with color := l.color, left := l.left, right := l.right, parent := l.parent }

@[simp] theorem links_withLinks (node : IntentNode) (l : Links) : (node.withLinks l).links = l := rfl

@[simp] theorem key_withLinks (node : IntentNode) (l : Links) : (node.withLinks l).key = node.key := rfl

end IntentNode

namespace IntentTree

/-- Longs sort by descending price, shorts by ascending price. -/
def cmpKey (side : ℕ) (a b : OrderKey) : Ordering :=
  (if side = SIDE_LONG then compare b.priceFp a.priceFp else compare a.priceFp b.priceFp).then
    ((compare a.postSeq b.postSeq).then (compare a.id b.id))

theorem cmpKey_eq_iff {side : ℕ} {a b : OrderKey} : cmpKey side a b = .eq ↔ a = b := by
  rcases a with ⟨price, seq, id⟩
  rcases b with ⟨price', seq', id'⟩
  unfold cmpKey
  split <;> simp only [Ordering.then_eq_eq, compare_eq_iff_eq, OrderKey.mk.injEq, eq_comm (a := price')]

/-- The two directions of the price order. -/
private theorem transCmp_price (side : ℕ) :
    Std.TransCmp fun a b : OrderKey =>
      if side = SIDE_LONG then compare b.priceFp a.priceFp else compare a.priceFp b.priceFp := by
  by_cases long : side = SIDE_LONG
  · simp only [long, if_true]
    exact
      { eq_swap := (inferInstance : Std.OrientedCmp fun x y : ℕ => compare x y).eq_swap
        isLE_trans := fun ab bc => (inferInstance : Std.TransCmp fun x y : ℕ => compare x y).isLE_trans bc ab }
  · simp only [long, if_false]
    exact inferInstanceAs (Std.TransCmp (compareOn OrderKey.priceFp))

theorem transCmp_cmpKey (side : ℕ) : Std.TransCmp (cmpKey side) := by
  have price := transCmp_price side
  exact inferInstanceAs (Std.TransCmp (compareLex
    (fun a b : OrderKey => if side = SIDE_LONG then compare b.priceFp a.priceFp else compare a.priceFp b.priceFp)
    (compareLex (compareOn OrderKey.postSeq) (compareOn OrderKey.id))))

/-! ### Root access -/

def treeRoot (b : IntentBook) (side : ℕ) : Except ProgramError ℕ :=
  if side = SIDE_LONG then .ok b.header.longTreeRoot
  else if side = SIDE_SHORT then .ok b.header.shortTreeRoot
  else .error PolyleverageError.invalidInstructionData

def setTreeRoot (b : IntentBook) (side root : ℕ) : IntentBook :=
  if side = SIDE_LONG then { b with header := { b.header with longTreeRoot := root } }
  else if side = SIDE_SHORT then { b with header := { b.header with shortTreeRoot := root } }
  else b

def setLinks (b : IntentBook) (idx : ℕ) (l : Links) : IntentBook :=
  match b.nodes[idx]? with
  | some (.intent node) => b.setNode idx (.intent (node.withLinks l))
  | _ => b

section Writes

variable (b : IntentBook) (idx : ℕ) (l : Links)

@[simp] theorem header_setLinks : (setLinks b idx l).header = b.header := by
  unfold setLinks
  split <;> rfl

@[simp] theorem length_setLinks : (setLinks b idx l).nodes.length = b.nodes.length := by
  unfold setLinks
  split <;> simp

@[simp] theorem nodes_setTreeRoot (side v : ℕ) : (setTreeRoot b side v).nodes = b.nodes := by
  unfold setTreeRoot
  split
  · rfl
  · split <;> rfl

theorem intent_setLinks (j : ℕ) :
    (setLinks b idx l).intent j =
      if j = idx then (b.intent idx).map (IntentNode.withLinks · l) else b.intent j := by
  unfold setLinks
  split
  next node slot =>
    have inside := IntentBook.lt_length_of_getElem? slot
    by_cases same : j = idx
    · subst same
      simp only [IntentBook.intent, IntentBook.getElem?_setNode_self inside, slot, if_true]
      rfl
    · simp only [IntentBook.intent, IntentBook.getElem?_setNode_of_ne same, same, if_false]
  next other =>
    by_cases same : j = idx
    · subst same
      simp only [if_true, IntentBook.intent]
      split <;> simp_all [Except.map]
    · simp only [same, if_false]

end Writes

/-- The pool of one side's tree. -/
def pool (side : ℕ) : LinkedPool ProgramError IntentBook OrderKey where
  links b i := (b.intent i).map IntentNode.links
  setLinks := setLinks
  root b := treeRoot b side
  setRoot b v := setTreeRoot b side v
  key b i := (b.intent i).map IntentNode.key
  order := cmpKey side
  size b := b.nodes.length
  sentinelInserted := .invalidAccountData
  sentinelRemoved := PolyleverageError.intentNotFound
  missingChild := some .invalidAccountData
  duplicate := none
  links_setLinks := by
    intro b i l l' linked
    funext j
    rw [intent_setLinks]
    by_cases same : j = i
    · subst same
      rw [if_pos rfl, Function.update_self]
      cases found : b.intent j with
      | ok node => rfl
      | error e => simp [found, Except.map] at linked
    · rw [if_neg same, Function.update_of_ne same]
  root_setLinks := by
    intro b i l
    simp only [treeRoot, header_setLinks]
  key_setLinks := by
    intro b i l
    funext j
    rw [intent_setLinks]
    by_cases same : j = i
    · subst same
      rw [if_pos rfl]
      cases b.intent j <;> rfl
    · rw [if_neg same]
  size_setLinks := length_setLinks
  links_setRoot := by
    intro b v
    simp only [IntentBook.intent, nodes_setTreeRoot]
  root_setRoot := by
    intro b r v known
    unfold treeRoot setTreeRoot at *
    split
    · rfl
    · split
      · rfl
      · simp_all
  key_setRoot := by
    intro b v
    simp only [IntentBook.intent, nodes_setTreeRoot]
  size_setRoot := by
    intro b v
    simp only [nodes_setTreeRoot]
  key_of_links := by
    intro b i l linked
    cases found : b.intent i with
    | ok node => exact ⟨node.key, rfl⟩
    | error e => simp [found, Except.map] at linked
  lt_size := by
    intro b i l linked
    cases found : b.intent i with
    | ok node => exact IntentBook.lt_length_of_getElem? (IntentBook.intent_eq_ok.mp found)
    | error e => simp [found, Except.map] at linked
  order_trans := transCmp_cmpKey side

/-! ### The tree operations -/

def getLeft (side idx : ℕ) : BookM ℕ := (pool side).child .left idx

def getRight (side idx : ℕ) : BookM ℕ := (pool side).child .right idx

def rotateLeft (side x : ℕ) : BookM Unit := (pool side).rotate .left x

def rotateRight (side x : ℕ) : BookM Unit := (pool side).rotate .right x

def insertFixup (side z : ℕ) : BookM Unit := (pool side).insertFixup z

/-- Insert a populated node into the tree of a side. -/
def insert (side idx : ℕ) : BookM Unit := (pool side).insert idx

def transplant (side u v : ℕ) : BookM Unit := (pool side).transplant u v

def removeFixup (side x xParent : ℕ) : BookM Unit := (pool side).removeFixup x xParent

/-- Take a node out of the tree of a side. Its fields stay as they are. -/
def remove (side z : ℕ) : BookM Unit := (pool side).remove z

/-! ### Best-first traversal -/

def STACK_CAP : ℕ := 64

/-- The in-order walk. The visitor returns what it was looking for, or nothing to go on. The walk
pushes and pops every node once at most, which bounds it. -/
def walk {α : Type} (side : ℕ) (visitor : ℕ → IntentNode → Option α) :
    ℕ → List ℕ → ℕ → BookM (Option α)
  | 0, _, _ => Exec.abort
  | fuel + 1, stack, cur =>
    if cur ≠ NULL_IDX then do
      Exec.rejectIf (STACK_CAP ≤ stack.length) PolyleverageError.arithmeticOverflow
      let left ← getLeft side cur
      walk side visitor fuel (cur :: stack) left
    else
      match stack with
      | [] => pure none
      | top :: rest => do
        let node ← Exec.gets (IntentBook.intent · top)
        match visitor top node with
        | some found => pure (some found)
        | none => walk side visitor fuel rest node.right

/-- Visit the intents of a side, most aggressive price first, oldest first within a price. -/
def forEachBestFirst {α : Type} (side : ℕ) (visitor : ℕ → IntentNode → Option α) : BookM (Option α) := do
  let root ← Exec.gets (treeRoot · side)
  let b ← Exec.get
  walk side visitor (2 * b.nodes.length + 2) [] root

/-- The best intent of a side that has contracts left and is not expired. -/
def firstLive (side nowSlot : ℕ) : BookM (Option (ℕ × IntentNode)) :=
  forEachBestFirst side fun idx node =>
    if 0 < node.contractsRemaining ∧ nowSlot < node.expirationSlot then some (idx, node) else none

end IntentTree

end Polyleverage
