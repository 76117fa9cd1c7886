import Polyleverage.Invariants.Bare
import Mathlib.Data.Finset.Basic

/-! # Runs of tree operations

Any sequence of insertions and removals that a caller may ask for works on one order tree only and
leaves it a red-black tree, in its order, of exactly the nodes that are in.
-/

namespace Polyleverage

open RedBlack

namespace IntentTree

/-! ### The pool in terms of nodes -/

section Nodes

variable {side : ℕ} {b : IntentBook} {i : ℕ} {node : IntentNode}

theorem links_of_intent (slot : b.nodes[i]? = some (.intent node)) : (pool side).links b i = .ok node.links := by
  simp [pool, IntentBook.intent, slot, Except.map]

theorem key_of_intent (slot : b.nodes[i]? = some (.intent node)) : (pool side).key b i = .ok node.key := by
  simp [pool, IntentBook.intent, slot, Except.map]

theorem intent_of_links {l : Links} (linked : (pool side).links b i = .ok l) :
    ∃ node, b.nodes[i]? = some (.intent node) ∧ node.links = l := by
  change (b.intent i).map IntentNode.links = .ok l at linked
  cases found : b.intent i with
  | error e => simp [found, Except.map] at linked
  | ok n =>
    refine ⟨n, IntentBook.intent_eq_ok.mp found, ?_⟩
    simpa [found, Except.map] using linked

theorem intent_of_key {k : OrderKey} (known : (pool side).key b i = .ok k) :
    ∃ node, b.nodes[i]? = some (.intent node) ∧ node.key = k := by
  change (b.intent i).map IntentNode.key = .ok k at known
  cases found : b.intent i with
  | error e => simp [found, Except.map] at known
  | ok n =>
    refine ⟨n, IntentBook.intent_eq_ok.mp found, ?_⟩
    simpa [found, Except.map] using known

/-- The nodes of a tree are intents. -/
theorem intent_of_mem {w : RedBlack.Tree ℕ} (valid : (pool side).Valid b w) (member : i ∈ w.toList) :
    ∃ node, b.nodes[i]? = some (.intent node) := by
  obtain ⟨l, linked⟩ := valid.shape.stored.links_ok member
  obtain ⟨node, slot, -⟩ := intent_of_links linked
  exact ⟨node, slot⟩

/-- A tree stays what it is when its intents and its root do. -/
theorem valid_frame {b' : IntentBook} {w : RedBlack.Tree ℕ} (valid : (pool side).Valid b w)
    (same : ∀ j ∈ w.toList, b'.nodes[j]? = b.nodes[j]?) (root : treeRoot b' side = treeRoot b side) :
    (pool side).Valid b' w := by
  have intents : ∀ j ∈ w.toList, b'.intent j = b.intent j := by
    intro j member
    simp only [IntentBook.intent, same j member]
  apply valid.frame
  · intro j member
    change (b'.intent j).map _ = (b.intent j).map _
    rw [intents j member]
  · exact root
  · intro j member
    change (b'.intent j).map _ = (b.intent j).map _
    rw [intents j member]

/-- Slots with the same content and the same links hold the same node. -/
theorem node_eq_of_links {b' : IntentBook} (bare : b'.bare = b.bare)
    (links : (pool side).links b' i = (pool side).links b i) (slot : b.nodes[i]? = some (.intent node)) :
    b'.nodes[i]? = some (.intent node) := by
  rw [links_of_intent slot] at links
  obtain ⟨node', slot', same⟩ := intent_of_links links
  have content := IntentBook.bare_of_intent slot
  rw [← bare, IntentBook.bare_of_intent slot'] at content
  have agree : node'.withLinks noLinks = node.withLinks noLinks := by simpa using content
  have rebuilt : node' = node := by
    calc
      node' = (node'.withLinks noLinks).withLinks node'.links := rfl
      _ = (node.withLinks noLinks).withLinks node.links := by rw [agree, same]
      _ = node := rfl
  rw [slot', rebuilt]

end Nodes

/-! ### One operation -/

section Operations

variable {side : ℕ} {b : IntentBook} {w : RedBlack.Tree ℕ} {i : ℕ}

/-- Nodes with different ids have different keys. -/
theorem key_ne_of_id_ne {x y : IntentNode} (different : y.id ≠ x.id) : cmpKey side x.key y.key ≠ .eq := by
  intro same
  have keys := cmpKey_eq_iff.mp same
  exact different (congrArg OrderKey.id keys).symm

/-- Inserting an intent with an id of its own. -/
theorem insert_valid {node : IntentNode} (valid : (pool side).Valid b w) (present : i ≠ NULL_IDX)
    (slot : b.nodes[i]? = some (.intent node)) (out : i ∉ w.toList)
    (ids : ∀ j ∈ w.toList, ∀ other, b.nodes[j]? = some (.intent other) → other.id ≠ node.id) :
    ∃ b' w', (insert side i).run b = .ok () b' ∧ (pool side).Valid b' w' ∧ SameButTree side b b' ∧
      (∀ j, j ∈ w'.toList ↔ j = i ∨ j ∈ w.toList) ∧
      ∀ j node, j ∉ w'.toList → b.nodes[j]? = some (.intent node) → b'.nodes[j]? = some (.intent node) := by
  have new : ∀ j ∈ w.toList, ∀ y, (pool side).key b j = .ok y → (pool side).order node.key y ≠ .eq := by
    intro j member y known
    obtain ⟨other, slot', rfl⟩ := intent_of_key known
    exact key_ne_of_id_ne (ids j member other slot')
  obtain ⟨b', w', ran, valid', relinked, mem, off⟩ :=
    valid.insert present (links_of_intent slot) (key_of_intent slot) out new
  have same := sameButTree_of_relinked relinked
  refine ⟨b', w', ran, valid', same, mem, ?_⟩
  intro j node' outside slot'
  exact node_eq_of_links same.bare (off j outside) slot'

/-- Removing a node of the tree. -/
theorem remove_valid (valid : (pool side).Valid b w) (member : i ∈ w.toList) :
    ∃ b' w', (remove side i).run b = .ok () b' ∧ (pool side).Valid b' w' ∧ SameButTree side b b' ∧
      (∀ j, j ∈ w'.toList ↔ j ≠ i ∧ j ∈ w.toList) ∧
      ∀ j node, j ∉ w.toList → b.nodes[j]? = some (.intent node) → b'.nodes[j]? = some (.intent node) := by
  obtain ⟨b', w', ran, valid', relinked, mem, off⟩ := valid.remove member
  have same := sameButTree_of_relinked relinked
  refine ⟨b', w', ran, valid', same, mem, ?_⟩
  intro j node' outside slot'
  exact node_eq_of_links same.bare (off j outside) slot'

end Operations

/-! ### Sequences of operations -/

inductive TreeOp where
  | insert (idx : ℕ)
  | remove (idx : ℕ)
  deriving DecidableEq, Repr

namespace TreeOp

def perform (side : ℕ) : TreeOp → BookM Unit
  | insert idx => IntentTree.insert side idx
  | remove idx => IntentTree.remove side idx

def performAll (side : ℕ) : List TreeOp → BookM Unit
  | [] => pure ()
  | op :: ops => do
    op.perform side
    performAll side ops

/-- The inserted nodes without the removed ones. -/
def members (present : Finset ℕ) : TreeOp → Finset ℕ
  | insert idx => Insert.insert idx present
  | remove idx => present.erase idx

/-- What a caller may ask for: to insert an intent that is in neither tree and has an id of its own, and
to remove a node that is in. -/
def Permitted (b : IntentBook) (others present : Finset ℕ) : TreeOp → Prop
  | insert idx =>
    ∃ node, b.nodes[idx]? = some (.intent node) ∧ idx ∉ present ∧ idx ∉ others ∧
      ∀ j ∈ present, ∀ other, b.nodes[j]? = some (.intent other) → other.id ≠ node.id
  | remove idx => idx ∈ present

/-- Every operation is permitted when its turn comes. -/
def PermittedAll (b : IntentBook) (others : Finset ℕ) : Finset ℕ → List TreeOp → Prop
  | _, [] => True
  | present, op :: ops => op.Permitted b others present ∧ PermittedAll b others (op.members present) ops

/-- Permission looks at the content of the nodes only. -/
theorem Permitted.congr {b b' : IntentBook} {others present : Finset ℕ} {op : TreeOp}
    (permitted : op.Permitted b others present) (bare : b'.bare = b.bare) : op.Permitted b' others present := by
  cases op with
  | remove idx => exact permitted
  | insert idx =>
    obtain ⟨node, slot, out, apart, ids⟩ := permitted
    have content := IntentBook.bare_of_intent slot
    rw [← bare] at content
    obtain ⟨l, slot'⟩ := IntentBook.intent_of_bare content
    refine ⟨_, slot', out, apart, ?_⟩
    intro j member other known
    have content' := IntentBook.bare_of_intent known
    rw [bare] at content'
    obtain ⟨l', known'⟩ := IntentBook.intent_of_bare content'
    have apart' := ids j member _ known'
    exact apart'

theorem PermittedAll.congr {b b' : IntentBook} {others : Finset ℕ} {ops : List TreeOp} {present : Finset ℕ}
    (permitted : PermittedAll b others present ops) (bare : b'.bare = b.bare) :
    PermittedAll b' others present ops := by
  induction ops generalizing present with
  | nil => trivial
  | cons op ops ih => exact ⟨permitted.1.congr bare, ih permitted.2⟩

/-- One permitted operation. -/
theorem perform_valid {side : ℕ} {b : IntentBook} {w : RedBlack.Tree ℕ} {others present : Finset ℕ} {op : TreeOp}
    (sentinel : ∀ node, b.nodes[NULL_IDX]? ≠ some (.intent node)) (valid : (pool side).Valid b w)
    (members : ∀ j, j ∈ w.toList ↔ j ∈ present) (apart : Disjoint present others)
    (permitted : op.Permitted b others present) :
    ∃ b' w', (op.perform side).run b = .ok () b' ∧ (pool side).Valid b' w' ∧ SameButTree side b b' ∧
      (∀ j, j ∈ w'.toList ↔ j ∈ op.members present) ∧ Disjoint (op.members present) others ∧
      ∀ j ∈ others, ∀ node, b.nodes[j]? = some (.intent node) → b'.nodes[j]? = some (.intent node) := by
  cases op with
  | insert idx =>
    obtain ⟨node, slot, out, outOther, ids⟩ := permitted
    have present0 : idx ≠ NULL_IDX := by
      rintro rfl
      exact sentinel node slot
    obtain ⟨b', w', ran, valid', same, mem, off⟩ := insert_valid valid present0 slot
      (fun inside => out ((members idx).mp inside)) fun j inside => ids j ((members j).mp inside)
    have mem' : ∀ j, j ∈ w'.toList ↔ j ∈ Insert.insert idx present := by
      intro j
      rw [mem, members, Finset.mem_insert]
    have apart' : Disjoint (Insert.insert idx present) others :=
      Finset.disjoint_insert_left.mpr ⟨outOther, apart⟩
    refine ⟨b', w', ran, valid', same, mem', apart', ?_⟩
    intro j other node' slot'
    exact off j node' (fun inside => Finset.disjoint_left.mp apart' ((mem' j).mp inside) other) slot'
  | remove idx =>
    obtain ⟨b', w', ran, valid', same, mem, off⟩ := remove_valid valid ((members idx).mpr permitted)
    refine ⟨b', w', ran, valid', same, ?_, ?_, ?_⟩
    · intro j
      rw [mem, members]
      exact Finset.mem_erase.symm
    · exact Finset.disjoint_of_subset_left (Finset.erase_subset idx present) apart
    · intro j other node' slot'
      exact off j node' (fun inside => Finset.disjoint_left.mp apart ((members j).mp inside) other) slot'

/-- A sequence of permitted operations. -/
theorem performAll_valid {side : ℕ} {others : Finset ℕ} {ops : List TreeOp} {b : IntentBook} {w : RedBlack.Tree ℕ}
    {present : Finset ℕ} (sentinel : ∀ node, b.nodes[NULL_IDX]? ≠ some (.intent node))
    (valid : (pool side).Valid b w) (members : ∀ j, j ∈ w.toList ↔ j ∈ present)
    (apart : Disjoint present others) (permitted : PermittedAll b others present ops) :
    ∃ b' w', (performAll side ops).run b = .ok () b' ∧ (pool side).Valid b' w' ∧ SameButTree side b b' ∧
      (∀ j, j ∈ w'.toList ↔ j ∈ ops.foldl TreeOp.members present) ∧
      ∀ j ∈ others, ∀ node, b.nodes[j]? = some (.intent node) → b'.nodes[j]? = some (.intent node) := by
  induction ops generalizing b w present with
  | nil => exact ⟨b, w, rfl, valid, .refl side b, members, fun _ _ _ slot => slot⟩
  | cons op ops ih =>
    obtain ⟨b1, w1, ran1, valid1, same1, members1, apart1, off1⟩ :=
      perform_valid sentinel valid members apart permitted.1
    have sentinel1 : ∀ node, b1.nodes[NULL_IDX]? ≠ some (.intent node) := by
      intro node slot
      rw [same1.notIntent NULL_IDX sentinel] at slot
      exact sentinel node slot
    obtain ⟨b2, w2, ran2, valid2, same2, members2, off2⟩ :=
      ih sentinel1 valid1 members1 apart1 (permitted.2.congr same1.bare)
    refine ⟨b2, w2, ?_, valid2, same1.trans same2, members2, ?_⟩
    · rw [performAll, Exec.run_bind_of_ok ran1]
      exact ran2
    · intro j other node slot
      exact off2 j other node (off1 j other node slot)

/-- From an empty tree, every sequence of permitted operations returns and leaves a red-black tree of
exactly the nodes that are in. No content of a node changes, and the other side's tree is untouched. -/
theorem performAll_from_empty {side otherSide : ℕ} {ops : List TreeOp} {b : IntentBook} {other : RedBlack.Tree ℕ}
    (different : otherSide ≠ side) (sentinel : ∀ node, b.nodes[NULL_IDX]? ≠ some (.intent node))
    (empty : treeRoot b side = .ok NULL_IDX) (otherTree : (pool otherSide).Valid b other)
    (permitted : PermittedAll b other.toList.toFinset ∅ ops) :
    ∃ b' w, (performAll side ops).run b = .ok () b' ∧ (pool side).Valid b' w ∧
      (∀ j, j ∈ w.toList ↔ j ∈ ops.foldl TreeOp.members ∅) ∧ b'.bare = b.bare ∧
      (pool otherSide).Valid b' other ∧ ∀ j ∈ other.toList, b'.nodes[j]? = b.nodes[j]? := by
  obtain ⟨b', w, ran, valid, same, members, off⟩ := performAll_valid (w := .leaf) sentinel (LinkedPool.valid_leaf empty)
    (by simp) (Finset.disjoint_empty_left _) permitted
  have untouched : ∀ j ∈ other.toList, b'.nodes[j]? = b.nodes[j]? := by
    intro j member
    obtain ⟨node, slot⟩ := intent_of_mem otherTree member
    rw [slot, off j (List.mem_toFinset.mpr member) node slot]
  exact ⟨b', w, ran, valid, members, same.bare,
    valid_frame otherTree untouched (same.otherRoot otherSide different), untouched⟩

/-- Two bids that are in no tree yet. -/
def twoBids : IntentBook where
  header := (IntentBook.initIntentBook default 4 255 0).header
  nodes := [.free NULL_IDX, .intent (bid 1 600000), .intent (bid 2 500000), .free NULL_IDX]
where
  bid (id priceFp : ℕ) : IntentNode :=
    { side := SIDE_LONG, color := .red, flags := 0, left := NULL_IDX, right := NULL_IDX, parent := NULL_IDX
      priceFp, id, ownerSeat := NULL_IDX, contractsTotal := 1, contractsRemaining := 1, expirationSlot := 10
      postSeq := id, reservedCollateral := 1, feeBuffer := 0 }

theorem performAll_twoBids : ∃ b' w, (performAll SIDE_LONG [.insert 1, .insert 2, .remove 1]).run twoBids = .ok () b' ∧
    (pool SIDE_LONG).Valid b' w ∧
    (∀ j, j ∈ w.toList ↔ j ∈ [TreeOp.insert 1, .insert 2, .remove 1].foldl TreeOp.members ∅) ∧
    b'.bare = twoBids.bare ∧ (pool SIDE_SHORT).Valid b' .leaf ∧
    ∀ j ∈ (.leaf : RedBlack.Tree ℕ).toList, b'.nodes[j]? = twoBids.nodes[j]? :=
  performAll_from_empty (by decide) (by simp [twoBids, NULL_IDX]) rfl (LinkedPool.valid_leaf rfl) <| by
    have first : TreeOp.members ∅ (.insert 1) = {1} := by decide
    refine ⟨⟨_, rfl, by decide, by decide, by simp⟩, ⟨_, rfl, by decide, by decide, ?_⟩, ?_, trivial⟩
    · intro j member other slot
      rw [first, Finset.mem_singleton] at member
      subst member
      cases slot
      decide
    · change 1 ∈ _
      decide

end TreeOp

end IntentTree

end Polyleverage
