import Mathlib.Data.List.Basic
import Mathlib.Data.List.Perm.Basic

/-! # Red-black trees seen from inside

A tree with one subtree singled out is that subtree together with the frames on the way to the
root. The rebalancing loops of imperative red-black trees climb such a path, so they are functions
of the subtree and the frames. Left and right are handled once: a frame names the direction of its
hole, and a mirrored step is the same step in the other direction.
-/

namespace RedBlack

inductive Color where
  | red
  | black
  deriving DecidableEq, Repr

inductive Dir where
  | left
  | right
  deriving DecidableEq, Repr

def Dir.flip : Dir → Dir
  | .left => .right
  | .right => .left

@[simp] theorem Dir.flip_left : Dir.left.flip = .right := rfl

@[simp] theorem Dir.flip_right : Dir.right.flip = .left := rfl

@[simp] theorem Dir.flip_flip (d : Dir) : d.flip.flip = d := by cases d <;> rfl

inductive Tree (α : Type) where
  | leaf
  | node (color : Color) (left : Tree α) (key : α) (right : Tree α)
  deriving DecidableEq, Repr

/-- One step up from a hole: the node above it and the subtree on its other side. -/
structure Frame (α : Type) where
  dir : Dir
  color : Color
  key : α
  sibling : Tree α
  deriving DecidableEq, Repr

variable {α : Type}

/-- The node with `near` on the side `d` and `far` on the other. -/
def Dir.node (d : Dir) (color : Color) (near : Tree α) (key : α) (far : Tree α) : Tree α :=
  match d with
  | .left => .node color near key far
  | .right => .node color far key near

@[simp] theorem Dir.node_left (c : Color) (near : Tree α) (a : α) (far : Tree α) :
    Dir.left.node c near a far = .node c near a far := rfl

@[simp] theorem Dir.node_right (c : Color) (near : Tree α) (a : α) (far : Tree α) :
    Dir.right.node c near a far = .node c far a near := rfl

namespace Tree

@[simp] def toList : Tree α → List α
  | leaf => []
  | node _ l a r => l.toList ++ a :: r.toList

/-- Missing nodes count as black. -/
def color : Tree α → Color
  | leaf => .black
  | node c _ _ _ => c

def child (d : Dir) : Tree α → Tree α
  | leaf => leaf
  | node _ l _ r => match d with
    | .left => l
    | .right => r

def paint (c : Color) : Tree α → Tree α
  | leaf => leaf
  | node _ l a r => node c l a r

section
variable (c c' : Color) (d : Dir) (l r : Tree α) (a : α)

@[simp] theorem color_leaf : (leaf : Tree α).color = .black := rfl

@[simp] theorem color_node : (node c l a r).color = c := rfl

@[simp] theorem child_leaf : (leaf : Tree α).child d = leaf := rfl

@[simp] theorem child_left : (node c l a r).child .left = l := rfl

@[simp] theorem child_right : (node c l a r).child .right = r := rfl

@[simp] theorem paint_leaf : (leaf : Tree α).paint c = leaf := rfl

@[simp] theorem paint_node : (node c l a r).paint c' = node c' l a r := rfl

end

@[simp] theorem toList_paint (c : Color) (t : Tree α) : (t.paint c).toList = t.toList := by
  cases t <;> rfl

/-- Both children are black, or there is no node at all. -/
def blackChildren (t : Tree α) : Bool :=
  (t.child .left).color = .black && (t.child .right).color = .black

theorem blackChildren_iff (t : Tree α) (d : Dir) :
    t.blackChildren = true ↔ (t.child d).color = .black ∧ (t.child d.flip).color = .black := by
  cases d <;> simp [blackChildren, and_comm]

end Tree

@[simp] theorem child_dirNode (d : Dir) (c : Color) (near : Tree α) (a : α) (far : Tree α) :
    (d.node c near a far).child d = near := by cases d <;> rfl

@[simp] theorem child_flip_dirNode (d : Dir) (c : Color) (near : Tree α) (a : α) (far : Tree α) :
    (d.node c near a far).child d.flip = far := by cases d <;> rfl

@[simp] theorem color_dirNode (d : Dir) (c : Color) (near : Tree α) (a : α) (far : Tree α) :
    (d.node c near a far).color = c := by cases d <;> rfl

@[simp] theorem paint_dirNode (d : Dir) (c c' : Color) (near : Tree α) (a : α) (far : Tree α) :
    (d.node c near a far).paint c' = d.node c' near a far := by cases d <;> rfl

/-- Seen from the other direction, near and far change places. -/
theorem node_flip (d : Dir) (c : Color) (near : Tree α) (a : α) (far : Tree α) :
    d.flip.node c near a far = d.node c far a near := by cases d <;> rfl

/-- Every node is its two children seen from a chosen direction. -/
theorem node_eq (d : Dir) (c : Color) (l : Tree α) (a : α) (r : Tree α) :
    Tree.node c l a r = d.node c ((Tree.node c l a r).child d) a ((Tree.node c l a r).child d.flip) := by
  cases d <;> rfl

def Frame.fill (f : Frame α) (t : Tree α) : Tree α := f.dir.node f.color t f.key f.sibling

/-- Put a tree back under its frames. -/
@[simp] def plug : Tree α → List (Frame α) → Tree α
  | t, [] => t
  | t, f :: k => plug (f.fill t) k

/-- The sibling of a focus is a focus with the roles exchanged. -/
theorem plug_sibling (t : Tree α) (d : Dir) (c : Color) (a : α) (s : Tree α) (k : List (Frame α)) :
    plug s (⟨d.flip, c, a, t⟩ :: k) = plug t (⟨d, c, a, s⟩ :: k) := by
  simp only [plug, Frame.fill, node_flip]

theorem plug_append (t : Tree α) (k k' : List (Frame α)) : plug t (k ++ k') = plug (plug t k) k' := by
  induction k generalizing t with
  | nil => rfl
  | cons f k ih => exact ih _

/-- The keys in order before the hole. -/
@[simp] def keysBefore : List (Frame α) → List α
  | [] => []
  | ⟨.left, _, _, _⟩ :: k => keysBefore k
  | ⟨.right, _, a, s⟩ :: k => keysBefore k ++ (s.toList ++ [a])

/-- The keys in order after the hole. -/
@[simp] def keysAfter : List (Frame α) → List α
  | [] => []
  | ⟨.left, _, a, s⟩ :: k => a :: s.toList ++ keysAfter k
  | ⟨.right, _, _, _⟩ :: k => keysAfter k

theorem toList_plug (t : Tree α) (k : List (Frame α)) :
    (plug t k).toList = keysBefore k ++ (t.toList ++ keysAfter k) := by
  induction k generalizing t with
  | nil => simp
  | cons f k ih =>
    obtain ⟨d, c, a, s⟩ := f
    cases d <;> simp [ih, Frame.fill]

/-- Trees with the same keys in order have the same keys in order under any frames. -/
theorem toList_plug_congr {t t' : Tree α} (k : List (Frame α)) (same : t.toList = t'.toList) :
    (plug t k).toList = (plug t' k).toList := by
  rw [toList_plug, toList_plug, same]

/-! ### Balance -/

/-- `Balanced t c n`: no red node has a red child, every path down holds `n` black nodes, and the
root has color `c`. -/
inductive Balanced : Tree α → Color → ℕ → Prop where
  | leaf : Balanced .leaf .black 0
  | red {l r : Tree α} {a : α} {n : ℕ} :
      Balanced l .black n → Balanced r .black n → Balanced (.node .red l a r) .red n
  | black {l r : Tree α} {a : α} {c c' : Color} {n : ℕ} :
      Balanced l c n → Balanced r c' n → Balanced (.node .black l a r) .black (n + 1)

namespace Balanced

theorem color_eq {t : Tree α} {c : Color} {n : ℕ} (balanced : Balanced t c n) : t.color = c := by
  cases balanced <;> rfl

theorem redNode (d : Dir) {near far : Tree α} {a : α} {n : ℕ} (hn : Balanced near .black n)
    (hf : Balanced far .black n) : Balanced (d.node .red near a far) .red n := by
  cases d
  · exact .red hn hf
  · exact .red hf hn

theorem blackNode (d : Dir) {near far : Tree α} {a : α} {c c' : Color} {n : ℕ}
    (hn : Balanced near c n) (hf : Balanced far c' n) :
    Balanced (d.node .black near a far) .black (n + 1) := by
  cases d
  · exact .black hn hf
  · exact .black hf hn

/-- The children of a balanced red node. -/
theorem of_red {l r : Tree α} {a : α} {c : Color} {n : ℕ} (balanced : Balanced (.node .red l a r) c n)
    (d : Dir) : Balanced ((Tree.node .red l a r).child d) .black n := by
  cases balanced with
  | red hl hr =>
    cases d
    · exact hl
    · exact hr

/-- The children of a balanced black node are one black node lower. -/
theorem of_black {l r : Tree α} {a : α} {c : Color} {n : ℕ}
    (balanced : Balanced (.node .black l a r) c (n + 1)) (d : Dir) :
    Balanced ((Tree.node .black l a r).child d) ((Tree.node .black l a r).child d).color n := by
  cases balanced with
  | black hl hr =>
    cases d
    · exact hl.color_eq ▸ hl
    · exact hr.color_eq ▸ hr

theorem paint_black_of_red {t : Tree α} {n : ℕ} (balanced : Balanced t .red n) :
    Balanced (t.paint .black) .black (n + 1) := by
  cases balanced with
  | red hl hr => exact .black hl hr

theorem paint_black {t : Tree α} {n : ℕ} (balanced : Balanced t .black n) : t.paint .black = t := by
  cases balanced <;> rfl

end Balanced

/-- The frames accept a subtree with root color `c` and black height `n`: filling the hole with one
gives a balanced tree with a black root. -/
def Fits : List (Frame α) → Color → ℕ → Prop
  | [], c, _ => c = .black
  | ⟨_, .red, _, s⟩ :: k, c, n => c = .black ∧ Balanced s .black n ∧ Fits k .red n
  | ⟨_, .black, _, s⟩ :: k, _, n => (∃ c', Balanced s c' n) ∧ Fits k .black (n + 1)

namespace Fits

theorem plug {t : Tree α} {k : List (Frame α)} {c : Color} {n : ℕ} (fits : Fits k c n)
    (balanced : Balanced t c n) : ∃ m, Balanced (plug t k) .black m := by
  induction k generalizing t c n with
  | nil => exact ⟨n, fits ▸ balanced⟩
  | cons f k ih =>
    obtain ⟨d, _ | _, a, s⟩ := f
    · obtain ⟨rfl, hs, hk⟩ := fits
      exact ih hk (.redNode d balanced hs)
    · obtain ⟨⟨c', hs⟩, hk⟩ := fits
      exact ih hk (.blackNode d balanced hs)

/-- A hole that takes a red root takes a black one of the same height. -/
theorem black_of_red {k : List (Frame α)} {n : ℕ} (fits : Fits k .red n) : Fits k .black n := by
  cases k with
  | nil => rfl
  | cons f k =>
    obtain ⟨d, _ | _, a, s⟩ := f
    · exact ⟨rfl, fits.2⟩
    · exact fits

theorem black {k : List (Frame α)} {c : Color} {n : ℕ} (fits : Fits k c n) : Fits k .black n := by
  cases c with
  | red => exact fits.black_of_red
  | black => exact fits

/-- Opening a balanced tree at a subtree leaves frames that fit that subtree. -/
theorem of_plug {t : Tree α} {k : List (Frame α)} {m : ℕ}
    (balanced : Balanced (RedBlack.plug t k) .black m) : ∃ c n, Balanced t c n ∧ Fits k c n := by
  induction k generalizing t with
  | nil => exact ⟨.black, m, balanced, rfl⟩
  | cons f k ih =>
    obtain ⟨c, n, filled, fits⟩ := ih balanced
    obtain ⟨d, cf, a, s⟩ := f
    cases d
    all_goals
      cases filled with
      | red hl hr => exact ⟨.black, n, by assumption, rfl, by assumption, fits⟩
      | black hl hr => exact ⟨_, _, by assumption, ⟨_, by assumption⟩, fits⟩

end Fits

/-- No red frame is the outermost one. -/
def BlackRoot : List (Frame α) → Prop
  | [] => True
  | [f] => f.color = .black
  | _ :: f :: k => BlackRoot (f :: k)

theorem BlackRoot.tail {f : Frame α} {k : List (Frame α)} (dark : BlackRoot (f :: k)) : BlackRoot k := by
  cases k with
  | nil => trivial
  | cons g k => exact dark

theorem Fits.blackRoot {k : List (Frame α)} {c : Color} {n : ℕ} (fits : Fits k c n) : BlackRoot k := by
  induction k generalizing c n with
  | nil => trivial
  | cons f k ih =>
    obtain ⟨d, _ | _, a, s⟩ := f
    · cases k with
      | nil => exact absurd fits.2.2 (by simp [Fits])
      | cons g k => exact ih fits.2.2
    · cases k with
      | nil => rfl
      | cons g k => exact ih fits.2

/-! ### Insertion -/

/-- The last rotations of an insertion: the red focus below a red parent below a black grandparent,
whose other child is black. -/
def insertRotate (d d' : Dir) (t : Tree α) (p : α) (s : Tree α) (g : α) (u : Tree α) : Tree α :=
  if d = d' then d'.node .black t p (d'.node .red s g u)
  else match t with
    | .leaf => d'.node .black (d.node .red .leaf p s) g u
    | .node c l z r =>
      d'.node .black (d'.node .red s p ((Tree.node c l z r).child d')) z
        (d'.node .red ((Tree.node c l z r).child d'.flip) g u)

/-- Repair a red focus upwards: recolor while the parent and its sibling are red, rotate once when
only the parent is red, and paint the root black. -/
def insertFixup : Tree α → List (Frame α) → Tree α
  | t, ⟨d, .red, p, s⟩ :: ⟨d', _, g, u⟩ :: k =>
    if u.color = .red then
      insertFixup (d'.node .red (d.node .black t p s) g (u.paint .black)) k
    else (plug (insertRotate d d' t p s g u) k).paint .black
  | t, k => (plug t k).paint .black

theorem toList_insertRotate (d d' : Dir) (c : Color) (t : Tree α) (p : α) (s : Tree α) (g : α) (u : Tree α) :
    (insertRotate d d' t p s g u).toList = (d'.node c (d.node .red t p s) g u).toList := by
  cases d <;> cases d' <;> cases t <;> simp [insertRotate]

@[simp] theorem toList_insertFixup (t : Tree α) (k : List (Frame α)) :
    (insertFixup t k).toList = (plug t k).toList := by
  induction t, k using insertFixup.induct with
  | case1 t d p s d' c g u k uncle ih =>
    rw [insertFixup, if_pos uncle, ih]
    exact toList_plug_congr k (by cases d <;> cases d' <;> simp [Frame.fill])
  | case2 t d p s d' c g u k uncle =>
    rw [insertFixup, if_neg uncle, Tree.toList_paint]
    exact toList_plug_congr k (toList_insertRotate d d' c t p s g u)
  | case3 t k single =>
    rw [insertFixup.eq_2 t k single, Tree.toList_paint]

theorem balanced_insertRotate (d d' : Dir) {t s u : Tree α} (p g : α) {n : ℕ} (ht : Balanced t .red n)
    (hs : Balanced s .black n) (hu : Balanced u .black n) :
    Balanced (insertRotate d d' t p s g u) .black (n + 1) := by
  unfold insertRotate
  split
  · exact .blackNode d' ht (.redNode d' hs hu)
  · cases ht with
    | red hl hr =>
      exact .blackNode d' (.redNode d' hs ((Balanced.red hl hr).of_red d'))
        (.redNode d' ((Balanced.red hl hr).of_red d'.flip) hu)

/-- A red focus in frames that take a black subtree of its height is repaired to a balanced tree. -/
theorem balanced_insertFixup {t : Tree α} {k : List (Frame α)} {n : ℕ} (balanced : Balanced t .red n)
    (fits : Fits k .black n) : ∃ m, Balanced (insertFixup t k) .black m := by
  induction t, k using insertFixup.induct generalizing n with
  | case1 t d p s d' c g u k uncle ih =>
    obtain ⟨-, hs, rest⟩ := fits
    cases c with
    | red => exact absurd rest.1 (by decide)
    | black =>
      obtain ⟨⟨c', hu⟩, hk⟩ := rest
      obtain rfl := hu.color_eq.symm.trans uncle
      rw [insertFixup, if_pos uncle]
      exact ih (.redNode d' (.blackNode d balanced hs) hu.paint_black_of_red) hk
  | case2 t d p s d' c g u k uncle =>
    obtain ⟨-, hs, rest⟩ := fits
    cases c with
    | red => exact absurd rest.1 (by decide)
    | black =>
      obtain ⟨⟨c', hu⟩, hk⟩ := rest
      have dark : c' = .black := by
        have := hu.color_eq
        cases c' <;> simp_all
      subst dark
      rw [insertFixup, if_neg uncle]
      obtain ⟨m, whole⟩ := hk.plug (balanced_insertRotate d d' p g balanced hs hu)
      exact ⟨m, whole.paint_black.symm ▸ whole⟩
  | case3 t k single =>
    rw [insertFixup.eq_2 t k single]
    match k, fits with
    | [], _ => exact ⟨n + 1, balanced.paint_black_of_red⟩
    | [⟨d, .red, p, s⟩], fits => exact absurd fits.2.2 (by simp [Fits])
    | ⟨d, .red, p, s⟩ :: ⟨d', c, g, u⟩ :: k, _ => exact (single d p s d' c g u k rfl).elim
    | ⟨d, .black, p, s⟩ :: k, fits =>
      have fits' : Fits (⟨d, .black, p, s⟩ :: k) .red n := fits
      obtain ⟨m, whole⟩ := fits'.plug balanced
      exact ⟨m, whole.paint_black.symm ▸ whole⟩

/-! ### Removal -/

/-- The last rotations of a removal: the focus lacks one black node and its sibling has a red child. -/
def removeRotate (d : Dir) (c : Color) (t : Tree α) (p : α) (w : Tree α) : Tree α :=
  match w with
  | .leaf => d.node c t p w
  | .node cw l a r =>
    let near := (Tree.node cw l a r).child d
    let far := (Tree.node cw l a r).child d.flip
    if far.color = .red then d.node c (d.node .black t p near) a (far.paint .black)
    else match near with
      | .leaf => d.node c t p w
      | .node cn nl z nr =>
        d.node c (d.node .black t p ((Tree.node cn nl z nr).child d)) z
          (d.node .black ((Tree.node cn nl z nr).child d.flip) a far)

/-- Repair below a red sibling `w`: it takes the place of the parent `p`, which is red now and whose
new sibling is the near child of `w`. -/
def removeBelowRed (d : Dir) (t : Tree α) (p : α) (w : Tree α) (k : List (Frame α)) : Tree α :=
  match w with
  | .leaf => plug (d.node .black t p .leaf) k
  | .node cw l a r =>
    let below := (Tree.node cw l a r).child d
    let above := ⟨d, .black, a, (Tree.node cw l a r).child d.flip⟩ :: k
    if below.blackChildren then plug (d.node .black t p (below.paint .red)) above
    else (plug (removeRotate d .red t p below) above).paint .black

/-- Repair a focus that lacks one black node, upwards. -/
def removeFixup : Tree α → List (Frame α) → Tree α
  | t, [] => t.paint .black
  | t, ⟨d, c, p, w⟩ :: k =>
    if t.color = .red then plug (t.paint .black) (⟨d, c, p, w⟩ :: k)
    else if w.color = .red then removeBelowRed d t p w k
    else if w.blackChildren then removeFixup (d.node c t p (w.paint .red)) k
    else (plug (removeRotate d c t p w) k).paint .black

theorem toList_removeRotate (d : Dir) (c : Color) (t : Tree α) (p : α) (w : Tree α) :
    (removeRotate d c t p w).toList = (d.node c t p w).toList := by
  cases w with
  | leaf => rfl
  | node cw l a r =>
    unfold removeRotate
    dsimp only
    split
    · cases d <;> simp
    · split
      · rfl
      next cn nl z nr near =>
        cases d <;> simp_all

theorem toList_removeBelowRed (d : Dir) (c : Color) (t : Tree α) (p : α) (w : Tree α) (k : List (Frame α)) :
    (removeBelowRed d t p w k).toList = (plug (d.node c t p w) k).toList := by
  cases w with
  | leaf => exact toList_plug_congr k (by cases d <;> simp)
  | node cw l a r =>
    unfold removeBelowRed
    dsimp only
    split
    · exact toList_plug_congr k (by cases d <;> simp [Frame.fill])
    · rw [Tree.toList_paint, toList_plug_congr _ (toList_removeRotate d .red t p _)]
      exact toList_plug_congr k (by cases d <;> simp [Frame.fill])

@[simp] theorem toList_removeFixup (t : Tree α) (k : List (Frame α)) :
    (removeFixup t k).toList = (plug t k).toList := by
  induction t, k using removeFixup.induct with
  | case1 t => simp [removeFixup]
  | case2 t d c p w k red =>
    rw [removeFixup, if_pos red]
    exact toList_plug_congr _ (t.toList_paint .black)
  | case3 t d c p w k black red =>
    rw [removeFixup, if_neg black, if_pos red]
    exact toList_removeBelowRed d c t p w k
  | case4 t d c p w k black notRed both ih =>
    rw [removeFixup, if_neg black, if_neg notRed, if_pos both, ih]
    exact toList_plug_congr k (by cases d <;> simp [Frame.fill])
  | case5 t d c p w k black notRed one =>
    rw [removeFixup, if_neg black, if_neg notRed, if_neg one, Tree.toList_paint]
    exact toList_plug_congr k (toList_removeRotate d c t p w)

/-- A focus of black height `n` where `n + 1` is wanted, up to painting a red root black. -/
def Deficient (t : Tree α) (n : ℕ) : Prop :=
  Balanced t .black n ∨ (t.color = .red ∧ Balanced (t.paint .black) .black (n + 1))

theorem Deficient.of_balanced {t : Tree α} {c : Color} {n : ℕ} (balanced : Balanced t c n) :
    Deficient t n := by
  cases c with
  | red => exact .inr ⟨balanced.color_eq, balanced.paint_black_of_red⟩
  | black => exact .inl balanced

theorem balanced_removeRotate (d : Dir) (c : Color) {t w : Tree α} (p : α) {n : ℕ}
    (ht : Balanced t .black n) (hw : Balanced w .black (n + 1)) (one : w.blackChildren = false) :
    Balanced (removeRotate d c t p w) c (if c = .red then n + 1 else n + 2) := by
  obtain ⟨l, a, r, rfl⟩ : ∃ l a r, w = .node .black l a r := by
    cases hw with
    | black => exact ⟨_, _, _, rfl⟩
  have hnear := hw.of_black d
  have hfar := hw.of_black d.flip
  have build : ∀ {near far : Tree α} (a : α), Balanced near .black (n + 1) → Balanced far .black (n + 1) →
      Balanced (d.node c near a far) c (if c = .red then n + 1 else n + 2) := by
    intro near far a hn hf
    cases c with
    | red => exact .redNode d hn hf
    | black => exact .blackNode d hn hf
  unfold removeRotate
  dsimp only
  split
  next far =>
    rw [far] at hfar
    exact build a (.blackNode d ht hnear) hfar.paint_black_of_red
  next far =>
    have near : ((Tree.node .black l a r).child d).color = .red := by
      by_contra dark
      have dark' : ((Tree.node .black l a r).child d).color = .black := by
        cases color : ((Tree.node .black l a r).child d).color <;> simp_all
      have far' : ((Tree.node .black l a r).child d.flip).color = .black := by
        cases color : ((Tree.node .black l a r).child d.flip).color <;> simp_all
      rw [(Tree.blackChildren_iff _ d).mpr ⟨dark', far'⟩] at one
      exact absurd one (by decide)
    rw [near] at hnear
    split
    next empty => simp [empty] at near
    next cn nl z nr shape =>
      rw [shape] at hnear near
      obtain rfl : cn = .red := near
      exact build z (.blackNode d ht (hnear.of_red d)) (.blackNode d (hnear.of_red d.flip) hfar)

/-- Painting a black node red keeps its height when both children are black. -/
theorem Balanced.paint_red {w : Tree α} {n : ℕ} (balanced : Balanced w .black (n + 1))
    (both : w.blackChildren = true) : Balanced (w.paint .red) .red n := by
  cases balanced with
  | black hl hr =>
    obtain ⟨left, right⟩ := (Tree.blackChildren_iff _ .left).mp both
    obtain rfl := hl.color_eq.symm.trans left
    obtain rfl := hr.color_eq.symm.trans right
    exact .red hl hr

theorem balanced_removeBelowRed (d : Dir) {t w : Tree α} (p : α) {k : List (Frame α)} {n : ℕ}
    (ht : Balanced t .black n) (hw : Balanced w .red (n + 1)) (fits : Fits k .black (n + 2)) :
    ∃ m, Balanced (removeBelowRed d t p w k) .black m := by
  obtain ⟨l, a, r, rfl⟩ : ∃ l a r, w = .node .red l a r := by
    cases hw with
    | red => exact ⟨_, _, _, rfl⟩
  have below := hw.of_red d
  have above : ∀ c, Fits (⟨d, .black, a, (Tree.node .red l a r).child d.flip⟩ :: k) c (n + 1) :=
    fun _ => ⟨⟨_, hw.of_red d.flip⟩, fits⟩
  unfold removeBelowRed
  dsimp only
  split
  next both => exact (above .black).plug (.blackNode d ht (below.paint_red both))
  next one =>
    obtain ⟨m, whole⟩ := (above .red).plug (balanced_removeRotate d .red p ht below (by simpa using one))
    exact ⟨m, whole.paint_black.symm ▸ whole⟩

/-- What the frame above a deficient focus says about the sibling, when that is not red. -/
theorem Fits.black_sibling {d : Dir} {c : Color} {p : α} {w : Tree α} {k : List (Frame α)} {n : ℕ}
    (fits : Fits (⟨d, c, p, w⟩ :: k) .black (n + 1)) (notRed : ¬ w.color = .red) :
    Balanced w .black (n + 1) ∧ Fits k c (if c = .red then n + 1 else n + 2) := by
  cases c with
  | red => exact ⟨fits.2.1, fits.2.2⟩
  | black =>
    obtain ⟨⟨c', hw⟩, hk⟩ := fits
    cases c' with
    | red => exact (notRed hw.color_eq).elim
    | black => exact ⟨hw, hk⟩

/-- A deficient focus in frames that want one more black node is repaired to a balanced tree. -/
theorem balanced_removeFixup {t : Tree α} {k : List (Frame α)} {n : ℕ} (deficient : Deficient t n)
    (fits : Fits k .black (n + 1)) : ∃ m, Balanced (removeFixup t k) .black m := by
  induction t, k using removeFixup.induct generalizing n with
  | case1 t =>
    rw [removeFixup]
    rcases deficient with balanced | ⟨-, balanced⟩
    · exact ⟨n, balanced.paint_black.symm ▸ balanced⟩
    · exact ⟨n + 1, balanced⟩
  | case2 t d c p w k red =>
    rw [removeFixup, if_pos red]
    rcases deficient with balanced | ⟨-, balanced⟩
    · exact absurd (balanced.color_eq.symm.trans red) (by decide)
    · exact fits.plug balanced
  | case3 t d c p w k black red =>
    have ht : Balanced t .black n := deficient.resolve_right (fun painted => black painted.1)
    rw [removeFixup, if_neg black, if_pos red]
    cases c with
    | red => simp [fits.2.1.color_eq] at red
    | black =>
      obtain ⟨⟨c', hw⟩, hk⟩ := fits
      obtain rfl := hw.color_eq.symm.trans red
      exact balanced_removeBelowRed d p ht hw hk
  | case4 t d c p w k black notRed both ih =>
    have ht : Balanced t .black n := deficient.resolve_right (fun painted => black painted.1)
    obtain ⟨hw, hk⟩ := fits.black_sibling notRed
    have joined : Balanced (d.node .black t p (w.paint .red)) .black (n + 1) :=
      .blackNode d ht (hw.paint_red both)
    rw [removeFixup, if_neg black, if_neg notRed, if_pos both]
    cases c with
    | red =>
      refine ih (.inr ⟨color_dirNode .., ?_⟩) hk.black
      rw [paint_dirNode]
      exact joined
    | black => exact ih (.inl joined) hk
  | case5 t d c p w k black notRed one =>
    have ht : Balanced t .black n := deficient.resolve_right (fun painted => black painted.1)
    obtain ⟨hw, hk⟩ := fits.black_sibling notRed
    rw [removeFixup, if_neg black, if_neg notRed, if_neg one]
    obtain ⟨m, whole⟩ := hk.plug (balanced_removeRotate d c p ht hw (by simpa using one))
    exact ⟨m, whole.paint_black.symm ▸ whole⟩

/-- The frames down to the leftmost node, that node's color and key, and its right subtree. -/
def leftmost : Tree α → List (Frame α) → Option (Color × α × Tree α × List (Frame α))
  | .leaf, _ => none
  | .node c .leaf a r, k => some (c, a, r, k)
  | .node c (.node c' l b r') a r, k => leftmost (.node c' l b r') (⟨.left, c, a, r⟩ :: k)

/-- Put `t` where a node of color `c` was, and repair when that node was black. -/
def splice (c : Color) (t : Tree α) (k : List (Frame α)) : Tree α :=
  if c = .black then removeFixup t k else plug t k

/-- Remove the root of a subtree: splice out a node with a missing child, or move the key and the
color of the successor up and splice that out. -/
def removeAt (c : Color) (l r : Tree α) (k : List (Frame α)) : Tree α :=
  match l with
  | .leaf => splice c r k
  | .node cl ll al rl =>
    match leftmost r [] with
    | none => splice c (.node cl ll al rl) k
    | some (cy, y, x, path) => splice cy x (path ++ ⟨.right, c, y, .node cl ll al rl⟩ :: k)

@[simp] theorem toList_splice (c : Color) (t : Tree α) (k : List (Frame α)) :
    (splice c t k).toList = (plug t k).toList := by
  unfold splice
  split <;> simp

theorem leftmost_eq_none {t : Tree α} {k : List (Frame α)} (none : leftmost t k = none) : t = .leaf := by
  induction t, k using leftmost.induct with
  | case1 k => rfl
  | case2 c a r k => cases none
  | case3 c c' l b r' a r k ih => exact nomatch ih none

/-- The leftmost node opens its tree: it has no left child, and it sits below its frames. -/
theorem leftmost_plug {t : Tree α} {k path : List (Frame α)} {c : Color} {y : α} {x : Tree α}
    (found : leftmost t k = some (c, y, x, path)) : plug (.node c .leaf y x) path = plug t k := by
  induction t, k using leftmost.induct with
  | case1 k => simp [leftmost] at found
  | case2 c a r k => cases found; rfl
  | case3 c c' l b r' a r k ih => exact ih found

theorem leftmost_keys {t : Tree α} {k path : List (Frame α)} {c : Color} {y : α} {x : Tree α}
    (found : leftmost t k = some (c, y, x, path)) :
    keysBefore path = keysBefore k ∧
      t.toList ++ keysAfter k = y :: (x.toList ++ keysAfter path) := by
  induction t, k using leftmost.induct with
  | case1 k => simp [leftmost] at found
  | case2 c a r k => cases found; simp
  | case3 c c' l b r' a r k ih =>
    obtain ⟨before, after⟩ := ih found
    exact ⟨before, by simpa using after⟩

theorem leftmost_fits {t : Tree α} {k path above : List (Frame α)} {c ct : Color} {y : α} {x : Tree α}
    {n : ℕ} (found : leftmost t k = some (c, y, x, path)) (balanced : Balanced t ct n)
    (fits : Fits (k ++ above) ct n) :
    ∃ m, Balanced (.node c .leaf y x) c m ∧ Fits (path ++ above) c m := by
  induction t, k using leftmost.induct generalizing ct n with
  | case1 k => simp [leftmost] at found
  | case2 c a r k =>
    cases found
    obtain rfl := balanced.color_eq
    exact ⟨n, balanced, fits⟩
  | case3 c c' l b r' a r k ih =>
    cases balanced with
    | red hl hr => exact ih found hl ⟨rfl, hr, fits⟩
    | black hl hr => exact ih found hl ⟨⟨_, hr⟩, fits⟩

theorem toList_removeAt (c : Color) (l r : Tree α) (k : List (Frame α)) :
    (removeAt c l r k).toList = keysBefore k ++ (l.toList ++ (r.toList ++ keysAfter k)) := by
  cases l with
  | leaf => simp [removeAt, toList_plug]
  | node cl ll al rl =>
    simp only [removeAt]
    split
    next alone => simp [toList_plug, leftmost_eq_none alone]
    next cy y x path found =>
      obtain ⟨before, after⟩ := leftmost_keys found
      simp only [keysBefore, keysAfter, List.append_nil] at before after
      simp [plug_append, Frame.fill, toList_plug, before, after]

theorem balanced_splice {c : Color} {t : Tree α} {k : List (Frame α)} {y : α} {n : ℕ}
    (balanced : Balanced (.node c .leaf y t) c n) (fits : Fits k c n) :
    ∃ m, Balanced (splice c t k) .black m := by
  cases balanced with
  | red hl hr => exact fits.black.plug hr
  | black hl hr =>
    cases hl
    exact balanced_removeFixup (.of_balanced hr) fits

theorem balanced_removeAt {c : Color} {l r : Tree α} {a : α} {k : List (Frame α)} {n : ℕ}
    (balanced : Balanced (.node c l a r) c n) (fits : Fits k c n) :
    ∃ m, Balanced (removeAt c l r k) .black m := by
  cases l with
  | leaf => exact balanced_splice balanced fits
  | node cl ll al rl =>
    simp only [removeAt]
    split
    next alone =>
      obtain rfl := leftmost_eq_none alone
      refine balanced_splice (y := a) ?_ fits
      cases balanced with
      | red hl hr => exact .red hr hl
      | black hl hr => exact .black hr hl
    next cy y x path found =>
      obtain ⟨m, opened, above⟩ : ∃ m, Balanced (.node cy .leaf y x) cy m ∧
          Fits (path ++ ⟨.right, c, y, .node cl ll al rl⟩ :: k) cy m := by
        cases balanced with
        | red hl hr => exact leftmost_fits found hr ⟨rfl, hl, fits⟩
        | black hl hr => exact leftmost_fits found hr ⟨⟨_, hl⟩, fits⟩
      exact balanced_splice opened above

/-! ### Order -/

variable (precedes : α → α → Bool)

/-- The frames from the place where a new key belongs up to the root. -/
def insertPath (a : α) : Tree α → List (Frame α) → List (Frame α)
  | .leaf, k => k
  | .node c l b r, k =>
    if precedes a b then insertPath a l (⟨.left, c, b, r⟩ :: k)
    else insertPath a r (⟨.right, c, b, l⟩ :: k)

def insert (a : α) (t : Tree α) : Tree α :=
  insertFixup (.node .red .leaf a .leaf) (insertPath precedes a t [])

theorem plug_insertPath (a : α) (t : Tree α) (k : List (Frame α)) :
    plug .leaf (insertPath precedes a t k) = plug t k := by
  induction t generalizing k with
  | leaf => rfl
  | node c l b r ihl ihr =>
    rw [insertPath]
    split
    · exact ihl _
    · exact ihr _

theorem insertPath_fits (a : α) {t : Tree α} {k : List (Frame α)} {c : Color} {n : ℕ}
    (balanced : Balanced t c n) (fits : Fits k c n) : Fits (insertPath precedes a t k) .black 0 := by
  induction balanced generalizing k with
  | leaf => exact fits
  | red hl hr ihl ihr =>
    rw [insertPath]
    split
    · exact ihl ⟨rfl, hr, fits⟩
    · exact ihr ⟨rfl, hl, fits⟩
  | black hl hr ihl ihr =>
    rw [insertPath]
    split
    · exact ihl ⟨⟨_, hr⟩, fits⟩
    · exact ihr ⟨⟨_, hl⟩, fits⟩

theorem balanced_insert (a : α) {t : Tree α} {n : ℕ} (balanced : Balanced t .black n) :
    ∃ m, Balanced (insert precedes a t) .black m :=
  balanced_insertFixup (.red .leaf .leaf) (insertPath_fits precedes a balanced rfl)

theorem toList_insert (a : α) (t : Tree α) :
    (insert precedes a t).toList =
      keysBefore (insertPath precedes a t []) ++ a :: keysAfter (insertPath precedes a t []) := by
  simp [insert, toList_plug]

theorem keys_insertPath (a : α) (t : Tree α) :
    keysBefore (insertPath precedes a t []) ++ keysAfter (insertPath precedes a t []) = t.toList := by
  have opened := congrArg Tree.toList (plug_insertPath precedes a t [])
  simpa [toList_plug] using opened

/-- Insertion adds the key and nothing else. -/
theorem toList_insert_perm (a : α) (t : Tree α) :
    List.Perm (insert precedes a t).toList (a :: t.toList) := by
  rw [toList_insert, ← keys_insertPath precedes a t]
  exact List.perm_middle

/-- The keys stand in strictly increasing order. -/
def Ordered (t : Tree α) : Prop := t.toList.Pairwise fun a b => precedes a b = true

variable {precedes}

/-- Every key before the insertion point precedes the new key, and the new key precedes every key
after it, when the new key is comparable to all of them. -/
theorem insertPath_separates {a : α} {t : Tree α} {k : List (Frame α)}
    (trans : ∀ x y z, precedes x y → precedes y z → precedes x z) (ordered : Ordered precedes t)
    (total : ∀ b ∈ t.toList, ¬ precedes a b → precedes b a)
    (low : ∀ b ∈ keysBefore k, precedes b a) (high : ∀ b ∈ keysAfter k, precedes a b) :
    (∀ b ∈ keysBefore (insertPath precedes a t k), precedes b a) ∧
      (∀ b ∈ keysAfter (insertPath precedes a t k), precedes a b) := by
  induction t generalizing k with
  | leaf => exact ⟨low, high⟩
  | node c l b r ihl ihr =>
    rw [Ordered, Tree.toList, List.pairwise_append] at ordered
    obtain ⟨hl, hbr, across⟩ := ordered
    obtain ⟨hb, hr⟩ := List.pairwise_cons.mp hbr
    rw [insertPath]
    split
    next less =>
      refine ihl hl (fun x member => total x (by simp [member])) low ?_
      intro x member
      simp only [keysAfter, List.cons_append, List.mem_cons, List.mem_append] at member
      rcases member with rfl | inside | above
      · exact less
      · exact trans _ _ _ less (hb x inside)
      · exact high x above
    next notLess =>
      have greater : precedes b a := total b (by simp) notLess
      refine ihr hr (fun x member => total x (by simp [member])) ?_ high
      intro x member
      simp only [keysBefore, List.mem_append, List.mem_singleton] at member
      rcases member with above | inside | rfl
      · exact low x above
      · exact trans _ _ _ (across x inside b (by simp)) greater
      · exact greater

theorem ordered_insert {a : α} {t : Tree α}
    (trans : ∀ x y z, precedes x y → precedes y z → precedes x z) (ordered : Ordered precedes t)
    (total : ∀ b ∈ t.toList, ¬ precedes a b → precedes b a) : Ordered precedes (insert precedes a t) := by
  obtain ⟨low, high⟩ := insertPath_separates trans ordered total (k := []) (by simp) (by simp)
  rw [Ordered, ← keys_insertPath precedes a t, List.pairwise_append] at ordered
  obtain ⟨before, after, across⟩ := ordered
  rw [Ordered, toList_insert, List.pairwise_append]
  refine ⟨before, List.pairwise_cons.mpr ⟨high, after⟩, ?_⟩
  intro x hx y hy
  rcases List.mem_cons.mp hy with rfl | hy
  · exact low x hx
  · exact across x hx y hy

/-- Removing the root of an opened subtree keeps the order of the other keys. -/
theorem ordered_removeAt {c : Color} {l r : Tree α} {a : α} {k : List (Frame α)}
    (ordered : Ordered precedes (plug (.node c l a r) k)) : Ordered precedes (removeAt c l r k) := by
  rw [Ordered, toList_plug] at ordered
  rw [Ordered, toList_removeAt]
  refine ordered.sublist ?_
  simp

end RedBlack
