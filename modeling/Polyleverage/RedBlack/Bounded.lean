import Polyleverage.Exec.Upholding
import Polyleverage.RedBlack.Linked

/-! # Which indices a linked tree stores

The tree programs store only indices that they found or were given. So an invariant that bounds the stored
indices, and that a write of bounded indices keeps, is kept by every program that is given bounded ones, and
the indices that it returns are bounded.
-/

namespace RedBlack

namespace LinkedPool

open Exec

variable {ε σ κ : Type} {P : LinkedPool ε σ κ} {I : σ → Prop} {B : ℕ → Prop}

/-- The invariant bounds all stored indices, and asks no more of them. -/
structure Bounds (P : LinkedPool ε σ κ) (I : σ → Prop) (B : ℕ → Prop) : Prop where
  zero : B 0
  links : ∀ {s i l}, I s → P.links s i = .ok l → B l.left ∧ B l.right ∧ B l.parent
  root : ∀ {s r}, I s → P.root s = .ok r → B r
  setLinks : ∀ {s i l l'}, I s → P.links s i = .ok l → B l'.left → B l'.right → B l'.parent → I (P.setLinks s i l')
  setRoot : ∀ {s r v}, I s → P.root s = .ok r → B v → I (P.setRoot s v)

/-- What a program does besides returning a value. -/
abbrev Does (I : σ → Prop) (m : Exec ε σ Unit) : Prop := Upholds I (fun _ => True) m

variable (bounds : P.Bounds I B)
include bounds

/-! ### Reading and writing -/

theorem Bounds.child (d : Dir) (i : ℕ) : Upholds I B (P.child d i) := by
  refine upholds_ite (fun _ => upholds_pure bounds.zero) fun _ => upholds_gets fun s v inside read => ?_
  obtain ⟨l, linked, rfl⟩ : ∃ l, P.links s i = .ok l ∧ l.child d = v := by
    cases linked : P.links s i with
    | error e => simp [linked, Except.map] at read
    | ok l => exact ⟨l, rfl, Except.ok.inj (by rwa [linked] at read)⟩
  obtain ⟨left, right, -⟩ := bounds.links inside linked
  cases d
  · exact left
  · exact right

theorem Bounds.parent (i : ℕ) : Upholds I B (P.parent i) := by
  refine upholds_ite (fun _ => upholds_pure bounds.zero) fun _ => upholds_gets fun s v inside read => ?_
  cases linked : P.links s i with
  | error e => simp [linked, Except.map] at read
  | ok l =>
    rw [linked] at read
    cases read
    exact (bounds.links inside linked).2.2

omit bounds in
theorem upholds_color (i : ℕ) : Upholds I (fun _ => True) (P.color i) := by
  unfold color
  exact upholds_of_keeping _

theorem Bounds.getRoot : Upholds I B P.getRoot := upholds_gets fun _ _ inside read => bounds.root inside read

theorem Bounds.putRoot {v : ℕ} (bound : B v) : Does I (P.putRoot v) := by
  constructor
  · intro s inside t left
    rcases left_bind_check left with rfl | ⟨r, rooted, left⟩
    · exact inside
    · cases left
      exact bounds.setRoot inside rooted bound
  · exact fun _ _ _ _ _ => trivial

/-- Links are rewritten with bounded ones. -/
theorem Bounds.update (i : ℕ) {f : Links → Links}
    (step : ∀ l : Links, B l.left → B l.right → B l.parent → B (f l).left ∧ B (f l).right ∧ B (f l).parent) :
    Does I (P.update i f) := by
  refine upholds_ite (fun _ => upholds_pure trivial) fun _ => ?_
  constructor
  · intro s inside t left
    rcases left_bind_check left with rfl | ⟨l, linked, left⟩
    · exact inside
    · cases left
      obtain ⟨left, right, parent⟩ := bounds.links inside linked
      obtain ⟨left', right', parent'⟩ := step l left right parent
      exact bounds.setLinks inside linked left' right' parent'
  · exact fun _ _ _ _ _ => trivial

theorem Bounds.setChild (d : Dir) (i : ℕ) {v : ℕ} (bound : B v) : Does I (P.setChild d i v) := by
  refine bounds.update i fun l left right parent => ?_
  cases d
  · exact ⟨bound, right, parent⟩
  · exact ⟨left, bound, parent⟩

theorem Bounds.setParent (i : ℕ) {v : ℕ} (bound : B v) : Does I (P.setParent i v) :=
  bounds.update i fun _ left right _ => ⟨left, right, bound⟩

theorem Bounds.setColor (i : ℕ) (c : Color) : Does I (P.setColor i c) :=
  bounds.update i fun _ left right parent => ⟨left, right, parent⟩

/-! ### Rotations -/

theorem Bounds.relink (d : Dir) (above x : ℕ) {y : ℕ} (bound : B y) : Does I (P.relink d above x y) := by
  refine upholds_ite (fun _ => bounds.putRoot bound) fun _ => upholds_bind (bounds.child d above) fun c _ => ?_
  exact upholds_ite (fun _ => bounds.setChild d above bound) fun _ => bounds.setChild d.flip above bound

omit bounds in
theorem upholds_checkChild (y : ℕ) : Does I (P.checkChild y) := by
  unfold checkChild
  split
  · exact upholds_of_keeping _
  · exact upholds_of_keeping _

theorem Bounds.rotate (d : Dir) {x : ℕ} (bound : B x) : Does I (P.rotate d x) := by
  refine upholds_bind (bounds.child d.flip x) fun y child => upholds_bind (upholds_checkChild y) fun _ _ => ?_
  refine upholds_bind (bounds.child d y) fun inner grandchild =>
    upholds_bind (bounds.setChild d.flip x grandchild) fun _ _ => ?_
  refine upholds_bind (upholds_when fun _ => bounds.setParent inner bound) fun _ _ => ?_
  refine upholds_bind (bounds.parent x) fun above outer => upholds_bind (bounds.setParent y outer) fun _ _ => ?_
  refine upholds_bind (bounds.relink d above x child) fun _ _ => upholds_bind (bounds.setChild d y bound) fun _ _ => ?_
  exact bounds.setParent x child

/-! ### Insertion -/

theorem Bounds.descend (k : κ) (fuel : ℕ) {r : ℕ} (bound : B r) :
    Upholds I (fun place => B place.1) (P.descend k fuel r) := by
  induction fuel generalizing r with
  | zero => exact upholds_abort
  | succ fuel ih =>
    refine upholds_bind (upholds_of_keeping _) fun existing _ => upholds_bind (upholds_of_keeping _) fun d _ => ?_
    refine upholds_bind (bounds.child d r) fun next below => ?_
    exact upholds_ite (fun _ => upholds_pure bound) fun _ => ih below

theorem Bounds.turnOutward (d : Dir) {z p : ℕ} (bound : B z) (outer : B p) : Upholds I B (P.turnOutward d z p) := by
  refine upholds_bind (bounds.child d.flip p) fun inner _ => upholds_ite (fun _ => ?_) fun _ => upholds_pure bound
  exact upholds_bind (bounds.rotate d outer) fun _ _ => upholds_pure outer

theorem Bounds.insertStep (d : Dir) {z p gp : ℕ} (bound : B z) (outer : B p) (top : B gp) :
    Upholds I B (P.insertStep d z p gp) := by
  refine upholds_bind (bounds.child d.flip gp) fun uncle _ => upholds_bind (upholds_color uncle) fun _ _ => ?_
  refine upholds_ite (fun _ => ?_) fun _ => ?_
  · refine upholds_bind (bounds.setColor p .black) fun _ _ => upholds_bind (bounds.setColor uncle .black) fun _ _ => ?_
    exact upholds_bind (bounds.setColor gp .red) fun _ _ => upholds_pure top
  · refine upholds_bind (bounds.turnOutward d bound outer) fun z bound => upholds_bind (bounds.parent z) fun p _ => ?_
    refine upholds_bind (bounds.parent p) fun gp top => upholds_bind (bounds.setColor p .black) fun _ _ => ?_
    refine upholds_bind (bounds.setColor gp .red) fun _ _ => upholds_bind (bounds.rotate d.flip top) fun _ _ => ?_
    exact upholds_pure bound

theorem Bounds.insertLoop (fuel : ℕ) {z : ℕ} (bound : B z) : Does I (P.insertLoop fuel z) := by
  induction fuel generalizing z with
  | zero => exact upholds_abort
  | succ fuel ih =>
    refine upholds_bind (bounds.parent z) fun p outer => upholds_ite (fun _ => upholds_pure trivial) fun _ => ?_
    refine upholds_bind (upholds_color p) fun pc _ => upholds_ite (fun _ => upholds_pure trivial) fun _ => ?_
    refine upholds_bind (bounds.parent p) fun gp top => upholds_bind (bounds.child .left gp) fun edge _ => ?_
    exact upholds_bind (bounds.insertStep _ bound outer top) fun z bound => ih bound

theorem Bounds.insertFixup {z : ℕ} (bound : B z) : Does I (P.insertFixup z) := by
  refine upholds_bind upholds_get fun s _ => upholds_bind (bounds.insertLoop _ bound) fun _ _ => ?_
  exact upholds_bind bounds.getRoot fun root _ => upholds_when fun _ => bounds.setColor root .black

theorem Bounds.insert {i : ℕ} (bound : B i) : Does I (P.insert i) := by
  refine upholds_bind (upholds_of_keeping _) fun _ _ => ?_
  refine upholds_bind (bounds.update i fun _ _ _ _ => ⟨bounds.zero, bounds.zero, bounds.zero⟩) fun _ _ => ?_
  refine upholds_bind (upholds_of_keeping _) fun k _ => upholds_bind bounds.getRoot fun root rooted => ?_
  refine upholds_ite (fun _ => upholds_bind (bounds.setColor i .black) fun _ _ => bounds.putRoot bound) fun _ => ?_
  refine upholds_bind upholds_get fun s _ => upholds_bind (bounds.descend k _ rooted) fun place outer => ?_
  refine upholds_bind (bounds.setParent i outer) fun _ _ => upholds_bind (bounds.setChild _ _ bound) fun _ _ => ?_
  exact bounds.insertFixup bound

/-! ### Lookup -/

theorem Bounds.findLoop (k : κ) (fuel : ℕ) {cur : ℕ} (bound : B cur) : Upholds I B (P.findLoop k fuel cur) := by
  induction fuel generalizing cur with
  | zero => exact upholds_abort
  | succ fuel ih =>
    refine upholds_ite (fun _ => upholds_pure bounds.zero) fun _ =>
      upholds_bind (upholds_of_keeping _) fun existing _ => ?_
    split
    · exact upholds_bind (bounds.child .left cur) fun next below => ih below
    · exact upholds_bind (bounds.child .right cur) fun next below => ih below
    · exact upholds_pure bound

theorem Bounds.find (k : κ) : Upholds I B (P.find k) :=
  upholds_bind upholds_get fun _ _ => upholds_bind bounds.getRoot fun _ rooted => bounds.findLoop k _ rooted

/-! ### Removal -/

theorem Bounds.minimum (fuel : ℕ) {i : ℕ} (bound : B i) : Upholds I B (P.minimum fuel i) := by
  induction fuel generalizing i with
  | zero => exact upholds_abort
  | succ fuel ih =>
    refine upholds_ite (fun _ => upholds_pure bounds.zero) fun _ => upholds_bind (bounds.child .left i) fun l below =>
      ?_
    exact upholds_ite (fun _ => upholds_pure bound) fun _ => ih below

theorem Bounds.transplant (u : ℕ) {v : ℕ} (bound : B v) : Does I (P.transplant u v) := by
  refine upholds_bind (bounds.parent u) fun above outer => upholds_bind (bounds.relink .left above u bound) fun _ _ =>
    ?_
  exact upholds_when fun _ => bounds.setParent v outer

theorem Bounds.raiseSibling (d : Dir) {xp w : ℕ} (outer : B xp) (bound : B w) :
    Upholds I B (P.raiseSibling d xp w) := by
  refine upholds_bind (upholds_color w) fun _ _ => upholds_ite (fun _ => ?_) fun _ => upholds_pure bound
  refine upholds_bind (bounds.setColor w .black) fun _ _ => upholds_bind (bounds.setColor xp .red) fun _ _ => ?_
  exact upholds_bind (bounds.rotate d outer) fun _ _ => bounds.child d.flip xp

theorem Bounds.childrenBlack (d : Dir) (w : ℕ) : Upholds I (fun _ => True) (P.childrenBlack d w) := by
  refine upholds_bind (bounds.child d w) fun near _ => upholds_bind (upholds_color near) fun _ _ => ?_
  refine upholds_ite (fun _ => ?_) fun _ => upholds_pure trivial
  exact upholds_bind (bounds.child d.flip w) fun far _ => upholds_bind (upholds_color far) fun _ _ =>
    upholds_pure trivial

theorem Bounds.turnFar (d : Dir) (xp : ℕ) {w : ℕ} (bound : B w) : Upholds I B (P.turnFar d xp w) := by
  refine upholds_bind (bounds.child d.flip w) fun far _ => upholds_bind (upholds_color far) fun _ _ => ?_
  refine upholds_ite (fun _ => ?_) fun _ => upholds_pure bound
  refine upholds_bind (bounds.child d w) fun near _ => upholds_bind (bounds.setColor near .black) fun _ _ => ?_
  refine upholds_bind (bounds.setColor w .red) fun _ _ => upholds_bind (bounds.rotate d.flip bound) fun _ _ => ?_
  exact bounds.child d.flip xp

theorem Bounds.finishRemove (d : Dir) {xp w : ℕ} (outer : B xp) (bound : B w) : Does I (P.finishRemove d xp w) := by
  refine upholds_bind (bounds.turnFar d xp bound) fun w _ => upholds_bind (upholds_color xp) fun xpColor _ => ?_
  refine upholds_bind (bounds.setColor w xpColor) fun _ _ => upholds_bind (bounds.setColor xp .black) fun _ _ => ?_
  refine upholds_bind (bounds.child d.flip w) fun far _ => upholds_bind (bounds.setColor far .black) fun _ _ => ?_
  exact bounds.rotate d outer

theorem Bounds.removeStep (d : Dir) {xp : ℕ} (outer : B xp) :
    Upholds I (fun next => ∀ x above, next = some (x, above) → B x ∧ B above) (P.removeStep d xp) := by
  refine upholds_bind (bounds.child d.flip xp) fun w bound =>
    upholds_bind (bounds.raiseSibling d outer bound) fun w bound => ?_
  refine upholds_bind (bounds.childrenBlack d w) fun both _ => upholds_ite (fun _ => ?_) fun _ => ?_
  · refine upholds_bind (bounds.setColor w .red) fun _ _ => upholds_bind (bounds.parent xp) fun above top =>
    upholds_pure ?_
    rintro _ _ ⟨⟩
    exact ⟨outer, top⟩
  · refine upholds_bind (bounds.finishRemove d outer bound) fun _ _ => upholds_pure ?_
    rintro _ _ ⟨⟩

theorem Bounds.removeLoop (fuel : ℕ) {x xp : ℕ} (bound : B x) (outer : B xp) :
    Upholds I B (P.removeLoop fuel x xp) := by
  induction fuel generalizing x xp with
  | zero => exact upholds_abort
  | succ fuel ih =>
    refine upholds_bind bounds.getRoot fun root _ => upholds_ite (fun _ => upholds_pure bound) fun _ => ?_
    refine upholds_bind (upholds_color x) fun xc _ => upholds_ite (fun _ => upholds_pure bound) fun _ => ?_
    refine upholds_bind (bounds.child .left xp) fun l _ => upholds_bind (bounds.removeStep _ outer) fun next known => ?_
    split
    · exact ih (known _ _ rfl).1 (known _ _ rfl).2
    · exact bounds.getRoot

theorem Bounds.removeFixup {x xp : ℕ} (bound : B x) (outer : B xp) : Does I (P.removeFixup x xp) := by
  refine upholds_bind upholds_get fun s _ => upholds_bind (bounds.removeLoop _ bound outer) fun x _ => ?_
  exact upholds_when fun _ => bounds.setColor x .black

/-- Two bounded indices. -/
def Both (B : ℕ → Prop) (place : ℕ × ℕ) : Prop := B place.1 ∧ B place.2

theorem Bounds.spliceOut (z : ℕ) {x : ℕ} (bound : B x) : Upholds I (Both B) (P.spliceOut z x) := by
  refine upholds_bind (bounds.parent z) fun zp outer => upholds_bind (bounds.transplant z bound) fun _ _ => ?_
  refine upholds_bind ?_ fun xp above => upholds_pure ⟨bound, above⟩
  exact upholds_ite (fun _ => upholds_pure outer) fun _ => bounds.parent x

theorem Bounds.detachSuccessor (z : ℕ) {right y : ℕ} (x : ℕ) (far : B right) (bound : B y) :
    Upholds I B (P.detachSuccessor z right y x) := by
  refine upholds_bind (bounds.parent y) fun yp outer => upholds_ite (fun _ => ?_) fun _ => ?_
  · exact upholds_bind (upholds_when fun _ => bounds.setParent x bound) fun _ _ => upholds_pure bound
  · refine upholds_bind (bounds.child .right y) fun yr below => upholds_bind (bounds.transplant y below) fun _ _ => ?_
    refine upholds_bind (bounds.setChild .right y far) fun _ _ => ?_
    exact upholds_bind (bounds.setParent right bound) fun _ _ => upholds_pure outer

theorem Bounds.moveSuccessor (z : ℕ) {left right y : ℕ} (near : B left) (far : B right) (bound : B y) :
    Upholds I (Both B) (P.moveSuccessor z left right y) := by
  refine upholds_bind (bounds.child .right y) fun x below => ?_
  refine upholds_bind (bounds.detachSuccessor z x far bound) fun xp above => ?_
  refine upholds_bind (bounds.transplant z bound) fun _ _ => upholds_bind (bounds.setChild .left y near) fun _ _ => ?_
  refine upholds_bind (bounds.setParent left bound) fun _ _ => upholds_bind (upholds_color z) fun zc _ => ?_
  exact upholds_bind (bounds.setColor y zc) fun _ _ => upholds_pure ⟨below, above⟩

theorem Bounds.remove (z : ℕ) : Does I (P.remove z) := by
  have fixup : ∀ (condition : Prop) [Decidable condition] (place : ℕ × ℕ), Both B place →
      Does I (Exec.when condition (P.removeFixup place.1 place.2)) := by
    rintro condition _ place ⟨bound, outer⟩
    exact upholds_when fun _ => bounds.removeFixup bound outer
  refine upholds_bind (upholds_of_keeping _) fun _ _ => upholds_bind (upholds_color z) fun zColor _ => ?_
  refine upholds_bind (bounds.child .left z) fun left near => upholds_bind (bounds.child .right z) fun right far => ?_
  refine upholds_ite (fun _ => upholds_bind (bounds.spliceOut z far) fun place both => fixup _ place both) fun _ => ?_
  refine upholds_ite (fun _ => upholds_bind (bounds.spliceOut z near) fun place both => fixup _ place both) fun _ => ?_
  refine upholds_bind upholds_get fun s _ => upholds_bind (bounds.minimum _ far) fun y bound => ?_
  refine upholds_bind (upholds_color y) fun yColor _ => ?_
  exact upholds_bind (bounds.moveSuccessor z near far bound) fun place both => fixup _ place both

end LinkedPool

end RedBlack
