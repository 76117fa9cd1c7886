import Polyleverage.Exec.Basic
import Polyleverage.RedBlack.Tree
import Mathlib.Logic.Function.Basic

/-! # Red-black trees linked by indices

The nodes of a linked tree live in a pool and name each other by index. Index `0` is the null
sentinel: it reads as a black node without links, and writes to it do nothing, so it cannot remember
a parent. The pool says how the links, the root and the sort key of a node are read from the whole
state and how the links and the root are written back.

The programs below are the imperative algorithms, once for both directions. A loop is bounded by the
number of slots of the pool and aborts when it would run longer.
-/

namespace RedBlack

/-- The link fields of one node. -/
structure Links where
  color : Color
  left : ℕ
  right : ℕ
  parent : ℕ
  deriving DecidableEq, Repr

namespace Links

def child (d : Dir) (l : Links) : ℕ :=
  match d with
  | .left => l.left
  | .right => l.right

def setChild (d : Dir) (v : ℕ) (l : Links) : Links :=
  match d with
  | .left => { l with left := v }
  | .right => { l with right := v }

end Links

/-- The links of a node whose child on the side `d` is `near`. -/
def Dir.links (d : Dir) (color : Color) (near far parent : ℕ) : Links :=
  match d with
  | .left => ⟨color, near, far, parent⟩
  | .right => ⟨color, far, near, parent⟩

/-- How a linked tree with keys in `κ` is stored in the state `σ`. -/
structure LinkedPool (ε σ κ : Type) where
  links : σ → ℕ → Except ε Links
  setLinks : σ → ℕ → Links → σ
  root : σ → Except ε ℕ
  setRoot : σ → ℕ → σ
  key : σ → ℕ → Except ε κ
  order : κ → κ → Ordering
  /-- The number of slots. -/
  size : σ → ℕ
  /-- Inserting the sentinel. -/
  sentinelInserted : ε
  /-- Removing the sentinel, where that is an error. -/
  sentinelRemoved : ε
  /-- Rotating around a missing child, where that is checked. -/
  missingChild : Option ε
  /-- Inserting a key that is present, where that is checked. -/
  duplicate : Option ε
  links_setLinks : ∀ {s i l} l', links s i = .ok l →
    links (setLinks s i l') = Function.update (links s) i (.ok l')
  root_setLinks : ∀ s i l, root (setLinks s i l) = root s
  key_setLinks : ∀ s i l, key (setLinks s i l) = key s
  size_setLinks : ∀ s i l, size (setLinks s i l) = size s
  links_setRoot : ∀ s v, links (setRoot s v) = links s
  root_setRoot : ∀ {s r} v, root s = .ok r → root (setRoot s v) = .ok v
  key_setRoot : ∀ s v, key (setRoot s v) = key s
  size_setRoot : ∀ s v, size (setRoot s v) = size s
  key_of_links : ∀ {s i l}, links s i = .ok l → ∃ k, key s i = .ok k
  lt_size : ∀ {s i l}, links s i = .ok l → i < size s
  order_trans : Std.TransCmp order

namespace LinkedPool

variable {ε σ κ : Type} (P : LinkedPool ε σ κ)

def getRoot : Exec ε σ ℕ := Exec.gets P.root

def putRoot (v : ℕ) : Exec ε σ Unit := do
  let _ ← Exec.gets P.root
  Exec.modify (P.setRoot · v)

def child (d : Dir) (i : ℕ) : Exec ε σ ℕ :=
  if i = 0 then pure 0 else Exec.gets fun s => (P.links s i).map (Links.child d)

def parent (i : ℕ) : Exec ε σ ℕ :=
  if i = 0 then pure 0 else Exec.gets fun s => (P.links s i).map Links.parent

def color (i : ℕ) : Exec ε σ Color :=
  if i = 0 then pure .black else Exec.gets fun s => (P.links s i).map Links.color

/-- Rewrite the links of a node; the sentinel has none. -/
def update (i : ℕ) (f : Links → Links) : Exec ε σ Unit :=
  if i = 0 then pure ()
  else do
    let l ← Exec.gets (P.links · i)
    Exec.modify (P.setLinks · i (f l))

def setChild (d : Dir) (i v : ℕ) : Exec ε σ Unit := P.update i (Links.setChild d v)

def setParent (i v : ℕ) : Exec ε σ Unit := P.update i fun l => { l with parent := v }

def setColor (i : ℕ) (c : Color) : Exec ε σ Unit := P.update i fun l => { l with color := c }

/-- Let `above`, or the root when there is no node above, point to `y` where it pointed to `x`. -/
def relink (d : Dir) (above x y : ℕ) : Exec ε σ Unit :=
  if above = 0 then P.putRoot y
  else do
    let c ← P.child d above
    if c = x then P.setChild d above y else P.setChild d.flip above y

/-- Some trees refuse to rotate around a missing child. -/
def checkChild (y : ℕ) : Exec ε σ Unit :=
  match P.missingChild with
  | some e => Exec.rejectIf (y = 0) e
  | none => pure ()

/-- Rotate around `x`: its child opposite to `d` takes its place and gets `x` as child on side `d`. -/
def rotate (d : Dir) (x : ℕ) : Exec ε σ Unit := do
  let y ← P.child d.flip x
  P.checkChild y
  let inner ← P.child d y
  P.setChild d.flip x inner
  Exec.when (inner ≠ 0) (P.setParent inner x)
  let above ← P.parent x
  P.setParent y above
  P.relink d above x y
  P.setChild d y x
  P.setParent x y

/-- The side on which the descent goes on; an equal key goes right unless that is refused. -/
def turn (k existing : κ) : Except ε Dir :=
  match P.order k existing, P.duplicate with
  | .lt, _ => .ok .left
  | .eq, some e => .error e
  | _, _ => .ok .right

/-- Where a node with key `k` goes: the node above it and the side, from `r` down. -/
def descend (k : κ) : ℕ → ℕ → Exec ε σ (ℕ × Dir)
  | 0, _ => Exec.abort
  | fuel + 1, r => do
    let existing ← Exec.gets (P.key · r)
    let d ← Exec.ofExcept (P.turn k existing)
    let next ← P.child d r
    if next = 0 then pure (r, d) else descend k fuel next

/-- An inner `z` is first rotated outwards; its old parent takes its part. -/
def turnOutward (d : Dir) (z p : ℕ) : Exec ε σ ℕ := do
  let inner ← P.child d.flip p
  if z = inner then do
    P.rotate d p
    pure p
  else pure z

/-- One side of the insertion loop's body: the parent `p` of `z` is the child of `gp` on side `d`.
The result is the `z` of the next round. -/
def insertStep (d : Dir) (z p gp : ℕ) : Exec ε σ ℕ := do
  let uncle ← P.child d.flip gp
  let uncleColor ← P.color uncle
  if uncle ≠ 0 ∧ uncleColor = .red then do
    P.setColor p .black
    P.setColor uncle .black
    P.setColor gp .red
    pure gp
  else do
    let z ← P.turnOutward d z p
    let p ← P.parent z
    let gp ← P.parent p
    P.setColor p .black
    P.setColor gp .red
    P.rotate d.flip gp
    pure z

def insertLoop : ℕ → ℕ → Exec ε σ Unit
  | 0, _ => Exec.abort
  | fuel + 1, z => do
    let p ← P.parent z
    if p = 0 then pure ()
    else do
      let pc ← P.color p
      if pc = .black then pure ()
      else do
        let gp ← P.parent p
        let outer ← P.child .left gp
        let z ← P.insertStep (if p = outer then .left else .right) z p gp
        insertLoop fuel z

def insertFixup (z : ℕ) : Exec ε σ Unit := do
  let s ← Exec.get
  P.insertLoop (P.size s + 1) z
  let root ← P.getRoot
  Exec.when (root ≠ 0) (P.setColor root .black)

def insert (i : ℕ) : Exec ε σ Unit := do
  Exec.rejectIf (i = 0) P.sentinelInserted
  P.update i fun _ => ⟨.red, 0, 0, 0⟩
  let k ← Exec.gets (P.key · i)
  let root ← P.getRoot
  if root = 0 then do
    P.setColor i .black
    P.putRoot i
  else do
    let s ← Exec.get
    let (above, d) ← P.descend k (P.size s + 1) root
    P.setParent i above
    P.setChild d above i
    P.insertFixup i

/-- The node with key `k`, or the sentinel. -/
def findLoop (k : κ) : ℕ → ℕ → Exec ε σ ℕ
  | 0, _ => Exec.abort
  | fuel + 1, cur =>
    if cur = 0 then pure 0
    else do
      let existing ← Exec.gets (P.key · cur)
      match P.order k existing with
      | .lt => do findLoop k fuel (← P.child .left cur)
      | .gt => do findLoop k fuel (← P.child .right cur)
      | .eq => pure cur

def find (k : κ) : Exec ε σ ℕ := do
  let s ← Exec.get
  let root ← P.getRoot
  P.findLoop k (P.size s + 1) root

/-- The leftmost node below `i`. -/
def minimum : ℕ → ℕ → Exec ε σ ℕ
  | 0, _ => Exec.abort
  | fuel + 1, i =>
    if i = 0 then pure 0
    else do
      let l ← P.child .left i
      if l = 0 then pure i else minimum fuel l

/-- Put `v` in the place of `u`. -/
def transplant (u v : ℕ) : Exec ε σ Unit := do
  let above ← P.parent u
  P.relink .left above u v
  Exec.when (v ≠ 0) (P.setParent v above)

/-- A red sibling takes the place of the parent; the result is the sibling after that. -/
def raiseSibling (d : Dir) (xp w : ℕ) : Exec ε σ ℕ := do
  let wColor ← P.color w
  if wColor = .red then do
    P.setColor w .black
    P.setColor xp .red
    P.rotate d xp
    P.child d.flip xp
  else pure w

/-- Whether both children of `w` are black; the far one is looked at only when the near one is. -/
def childrenBlack (d : Dir) (w : ℕ) : Exec ε σ Bool := do
  let near ← P.child d w
  let nearColor ← P.color near
  if nearColor = .black then do
    let far ← P.child d.flip w
    let farColor ← P.color far
    pure (farColor = .black)
  else pure false

/-- A red near child of the sibling `w` is first rotated above it, when the far one is black. -/
def turnFar (d : Dir) (xp w : ℕ) : Exec ε σ ℕ := do
  let far ← P.child d.flip w
  let farColor ← P.color far
  if farColor = .black then do
    let near ← P.child d w
    P.setColor near .black
    P.setColor w .red
    P.rotate d.flip w
    P.child d.flip xp
  else pure w

/-- The last rotations of a removal: the sibling `w` has a red child. -/
def finishRemove (d : Dir) (xp w : ℕ) : Exec ε σ Unit := do
  let w ← P.turnFar d xp w
  let xpColor ← P.color xp
  P.setColor w xpColor
  P.setColor xp .black
  let far ← P.child d.flip w
  P.setColor far .black
  P.rotate d xp

/-- One side of the removal loop's body: `x` is the child of `xp` on side `d`. -/
def removeStep (d : Dir) (xp : ℕ) : Exec ε σ (Option (ℕ × ℕ)) := do
  let w ← P.child d.flip xp
  let w ← P.raiseSibling d xp w
  let both ← P.childrenBlack d w
  if both then do
    P.setColor w .red
    let above ← P.parent xp
    pure (some (xp, above))
  else do
    P.finishRemove d xp w
    pure none

/-- The removal loop returns the node to be painted black last. -/
def removeLoop : ℕ → ℕ → ℕ → Exec ε σ ℕ
  | 0, _, _ => Exec.abort
  | fuel + 1, x, xp => do
    let root ← P.getRoot
    if x = root then pure x
    else do
      let xc ← P.color x
      if xc = .red then pure x
      else do
        let l ← P.child .left xp
        let next ← P.removeStep (if x = l then .left else .right) xp
        match next with
        | some (x, xp) => removeLoop fuel x xp
        | none => P.getRoot

def removeFixup (x xp : ℕ) : Exec ε σ Unit := do
  let s ← Exec.get
  let x ← P.removeLoop (P.size s + 1) x xp
  Exec.when (x ≠ 0) (P.setColor x .black)

/-- The node above `x`; the sentinel does not know it, so it is given. -/
def parentOr (x given : ℕ) : Exec ε σ ℕ :=
  if x = 0 then pure given else P.parent x

/-- Splice out `z`, which has no other child than `x`. -/
def spliceOut (z x : ℕ) : Exec ε σ (ℕ × ℕ) := do
  let zp ← P.parent z
  P.transplant z x
  let xp ← P.parentOr x zp
  pure (x, xp)

/-- Take the successor `y` of `z` out of the right subtree of `z`, which it is given as its own. The
result is the node above the right child `x` of `y`. -/
def detachSuccessor (z right y x : ℕ) : Exec ε σ ℕ := do
  let yp ← P.parent y
  if yp = z then do
    Exec.when (x ≠ 0) (P.setParent x y)
    pure y
  else do
    let yr ← P.child .right y
    P.transplant y yr
    P.setChild .right y right
    P.setParent right y
    pure yp

/-- Put the successor `y` of `z` in its place. The result is the node that took the place of `y` and
the node above it. -/
def moveSuccessor (z left right y : ℕ) : Exec ε σ (ℕ × ℕ) := do
  let x ← P.child .right y
  let xp ← P.detachSuccessor z right y x
  P.transplant z y
  P.setChild .left y left
  P.setParent left y
  let zc ← P.color z
  P.setColor y zc
  pure (x, xp)

def remove (z : ℕ) : Exec ε σ Unit := do
  Exec.rejectIf (z = 0) P.sentinelRemoved
  let zColor ← P.color z
  let left ← P.child .left z
  let right ← P.child .right z
  if left = 0 then do
    let (x, xp) ← P.spliceOut z right
    Exec.when (zColor = .black) (P.removeFixup x xp)
  else if right = 0 then do
    let (x, xp) ← P.spliceOut z left
    Exec.when (zColor = .black) (P.removeFixup x xp)
  else do
    let s ← Exec.get
    let y ← P.minimum (P.size s + 1) right
    let yColor ← P.color y
    let (x, xp) ← P.moveSuccessor z left right y
    Exec.when (yColor = .black) (P.removeFixup x xp)

end LinkedPool

end RedBlack
