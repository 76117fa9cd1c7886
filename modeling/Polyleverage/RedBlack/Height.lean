import Mathlib.Algebra.Ring.Nat
import Polyleverage.RedBlack.Stored

/-! # The height of a red-black tree

A balanced tree of `n` nodes is at most twice as high as its number of black nodes on a path, and that is
at most logarithmic in `n`. So a walk down and back up needs little room.
-/

namespace RedBlack

variable {α : Type}

namespace Tree

/-- The nodes on the longest path down. -/
def height : Tree α → ℕ
  | leaf => 0
  | node _ l _ r => max l.height r.height + 1

@[simp] theorem height_leaf : (leaf : Tree α).height = 0 := rfl

@[simp] theorem height_node (c : Color) (l : Tree α) (a : α) (r : Tree α) :
    (node c l a r).height = max l.height r.height + 1 := rfl

end Tree

namespace Balanced

variable {t : Tree α} {c : Color} {n : ℕ}

/-- At most every second node on a path is red. -/
theorem height_le (balanced : Balanced t c n) : t.height ≤ 2 * n + (if c = .red then 1 else 0) := by
  induction balanced with
  | leaf => simp
  | red hl hr ihl ihr =>
    simp only [Tree.height_node, if_true, reduceCtorEq, if_false] at *
    omega
  | @black l r a c c' n hl hr ihl ihr =>
    simp only [Tree.height_node, reduceCtorEq, if_false]
    have one : ∀ c : Color, (if c = .red then 1 else 0) ≤ 1 := fun c => by split <;> omega
    have := one c
    have := one c'
    omega

/-- Every path holds as many black nodes, so a high tree is a full one. -/
theorem two_pow_le (balanced : Balanced t c n) : 2 ^ n ≤ t.toList.length + 1 := by
  induction balanced with
  | leaf => simp
  | red hl hr ihl ihr =>
    simp only [Tree.toList, List.length_append, List.length_cons]
    omega
  | black hl hr ihl ihr =>
    simp only [Tree.toList, List.length_append, List.length_cons, Nat.pow_succ]
    omega

/-- A tree with a black root and less than `2 ^ m` nodes is lower than `2 * m`. -/
theorem height_le_of_length_lt {m : ℕ} (balanced : Balanced t .black n) (small : t.toList.length + 1 < 2 ^ m) :
    t.height ≤ 2 * (m - 1) := by
  have height := balanced.height_le
  have full := balanced.two_pow_le
  have lt : n < m := (Nat.pow_lt_pow_iff_right (by decide : 1 < 2)).mp (Nat.lt_of_le_of_lt full small)
  simp only [reduceCtorEq, if_false] at height
  omega

end Balanced

end RedBlack
