import Polyleverage.Invariants.BookMatch
import Polyleverage.RedBlack.Height

/-! # Best first

The walk visits the intents of a side in the order of its tree, and the tree is low enough for the stack
of the walk. So what the walk finds first is what no other intent of the side beats.
-/

namespace Polyleverage

open RedBlack

namespace IntentTree

variable {α : Type} {side : ℕ} {b : IntentBook}

/-- What the visitor finds in a slot. -/
def seen (b : IntentBook) (visitor : ℕ → IntentNode → Option α) (i : ℕ) : Option α :=
  match b.intent i with
  | .ok node => visitor i node
  | .error _ => none

theorem seen_of_intent {visitor : ℕ → IntentNode → Option α} {i : ℕ} {node : IntentNode}
    (slot : b.nodes[i]? = some (.intent node)) : seen b visitor i = visitor i node := by
  rw [seen, IntentBook.intent_eq_ok.mpr slot]

/-- At a node the walk goes down to the left, with the node on the stack. -/
theorem walk_push (visitor : ℕ → IntentNode → Option α) (fuel : ℕ) (stack : List ℕ) {cur : ℕ} (present : cur ≠ NULL_IDX) :
    walk side visitor (fuel + 1) stack cur = (do
      Exec.rejectIf (STACK_CAP ≤ stack.length) PolyleverageError.arithmeticOverflow
      let left ← getLeft side cur
      walk side visitor fuel (cur :: stack) left) :=
  if_pos present

/-- At the null slot the walk visits the node on the stack, and goes on to its right. -/
theorem walk_pop (visitor : ℕ → IntentNode → Option α) (fuel : ℕ) (top : ℕ) (stack : List ℕ) :
    walk side visitor (fuel + 1) (top :: stack) NULL_IDX = (do
      let node ← Exec.gets (IntentBook.intent · top)
      match visitor top node with
      | some found => pure (some found)
      | none => walk side visitor fuel stack node.right) := by
  rfl

/-- The walk through a subtree finds what is seen first in it, or goes on with the nodes above. It fails only when the
stack is too short for the subtree. -/
theorem run_walk_or_err (visitor : ℕ → IntentNode → Option α) {t : RedBlack.Tree ℕ} {path : List (Frame ℕ)}
    (shape : (pool side).Shape b (plug t path)) (fuel : ℕ) (stack : List ℕ) :
    ((walk side visitor (fuel + 2 * t.toList.length) stack t.top).run b =
      match t.toList.findSome? (seen b visitor) with
      | some found => .ok (some found) b
      | none => (walk side visitor fuel stack NULL_IDX).run b) ∨
    STACK_CAP < stack.length + t.height ∧
      ∃ e, (walk side visitor (fuel + 2 * t.toList.length) stack t.top).run b = .err e b := by
  induction t generalizing path fuel stack with
  | leaf => exact .inl rfl
  | node c l a r ihl ihr =>
    obtain ⟨present, linked, -⟩ := shape.parts.1
    obtain ⟨node, slot, links⟩ := intent_of_links linked
    have left : (pool side).Shape b (plug l (⟨.left, c, a, r⟩ :: path)) := shape
    have right : (pool side).Shape b (plug r (⟨.right, c, a, l⟩ :: path)) := shape
    have steps : fuel + 2 * (RedBlack.Tree.node c l a r).toList.length =
        (fuel + 2 * r.toList.length + 1 + 2 * l.toList.length) + 1 := by
      simp only [RedBlack.Tree.toList, List.length_append, List.length_cons]
      omega
    have descend : (getLeft side a).run b = .ok l.top b := LinkedPool.run_child .left present linked
    have pop : (Exec.gets (IntentBook.intent · a) : BookM IntentNode).run b = .ok node b := by
      rw [Exec.run_gets, IntentBook.intent_eq_ok.mpr slot]
    have next : node.right = r.top := congrArg Links.right links
    rw [steps, RedBlack.Tree.top_node, walk_push visitor _ _ present, Exec.run_bind, Exec.run_rejectIf, RedBlack.Tree.height_node]
    by_cases push : STACK_CAP ≤ stack.length
    · rw [if_pos push]
      exact .inr ⟨by omega, _, rfl⟩
    rw [if_neg push, Outcome.bind_ok, Exec.run_bind_of_ok descend]
    rcases ihl left (fuel + 2 * r.toList.length + 1) (a :: stack) with below | ⟨short, e, failed⟩
    swap
    · rw [List.length_cons] at short
      exact .inr ⟨by omega, e, failed⟩
    rw [below]
    simp only [RedBlack.Tree.toList, List.findSome?_append, List.findSome?_cons]
    cases l.toList.findSome? (seen b visitor) with
    | some found => exact .inl rfl
    | none =>
      rw [walk_pop, Exec.run_bind_of_ok pop]
      simp only [seen_of_intent slot, Option.none_or]
      cases visitor a node with
      | some found => exact .inl rfl
      | none =>
        simp only [next]
        refine (ihr right fuel stack).imp_right ?_
        rintro ⟨short, failed⟩
        exact ⟨by omega, failed⟩

/-- A walk leaves the book as it is and returns what is seen first, or fails because the tree is too high for its stack. -/
theorem run_forEachBestFirst_or_err (visitor : ℕ → IntentNode → Option α) {w : RedBlack.Tree ℕ} (valid : (pool side).Valid b w) :
    (forEachBestFirst side visitor).run b = .ok (w.toList.findSome? (seen b visitor)) b ∨
      STACK_CAP < w.height ∧ ∃ e, (forEachBestFirst side visitor).run b = .err e b := by
  have whole : (pool side).Shape b (plug w []) := valid.shape
  have size : w.toList.length ≤ b.nodes.length := valid.shape.length_le_size
  have enough : 2 * b.nodes.length + 2 = (2 * (b.nodes.length - w.toList.length) + 1) + 1 + 2 * w.toList.length := by omega
  have root : (Exec.gets (treeRoot · side) : BookM ℕ).run b = .ok w.top b := by
    have top : treeRoot b side = .ok w.top := valid.shape.root
    rw [Exec.run_gets, top]
  rw [forEachBestFirst, Exec.run_bind_of_ok root, Exec.run_bind_get, enough]
  rcases run_walk_or_err visitor whole (2 * (b.nodes.length - w.toList.length) + 1 + 1) [] with same | ⟨short, failed⟩
  · rw [same]
    cases w.toList.findSome? (seen b visitor) with
    | some found => exact .inl rfl
    | none => exact .inl rfl
  · rw [List.length_nil, Nat.zero_add] at short
    exact .inr ⟨short, failed⟩

/-- A walk returns what is seen first, and leaves the book as it is. -/
theorem run_forEachBestFirst (visitor : ℕ → IntentNode → Option α) {w : RedBlack.Tree ℕ} (valid : (pool side).Valid b w)
    (small : b.nodes.length < 2 ^ 32) :
    (forEachBestFirst side visitor).run b = .ok (w.toList.findSome? (seen b visitor)) b := by
  have size : w.toList.length ≤ b.nodes.length := valid.shape.length_le_size
  obtain ⟨n, balanced⟩ := valid.balanced
  have height : w.height ≤ 2 * (33 - 1) := balanced.height_le_of_length_lt (m := 33) (by omega)
  refine (run_forEachBestFirst_or_err visitor valid).resolve_right ?_
  rintro ⟨high, -⟩
  rw [STACK_CAP] at high
  omega

/-- A walk that returns has found what is seen first, whatever the size of the book. -/
theorem found_of_forEachBestFirst {visitor : ℕ → IntentNode → Option α} {w : RedBlack.Tree ℕ} {found : Option α}
    {b' : IntentBook} (valid : (pool side).Valid b w) (ran : (forEachBestFirst side visitor).run b = .ok found b') :
    found = w.toList.findSome? (seen b visitor) := by
  rcases run_forEachBestFirst_or_err visitor valid with same | ⟨-, e, failed⟩
  · rw [same] at ran
    cases ran
    rfl
  · rw [failed] at ran
    cases ran

end IntentTree

end Polyleverage
