import Polyleverage.Exec.Commuting
import Polyleverage.RedBlack.Linked

/-! # What the tree programs do not see

A change of the state that touches neither the links nor the root may be made before a removal or after it.
-/

namespace RedBlack

namespace LinkedPool

open Exec

variable {ε σ κ : Type} {P : LinkedPool ε σ κ} {f : σ → σ}

/-- A change of the state that leaves the tree alone. -/
class Unseen (P : LinkedPool ε σ κ) (f : σ → σ) : Prop where
  links : ∀ s, P.links (f s) = P.links s
  root : ∀ s, P.root (f s) = P.root s
  size : ∀ s, P.size (f s) = P.size s
  setLinks : ∀ s i l, P.setLinks (f s) i l = f (P.setLinks s i l)
  setRoot : ∀ s v, P.setRoot (f s) v = f (P.setRoot s v)

variable [unseen : Unseen P f]

instance (i : ℕ) : Commutes f (Exec.gets (P.links · i)) := commutes_gets fun s => by rw [unseen.links]

instance : Commutes f P.getRoot := commutes_gets unseen.root

instance (v : ℕ) : Commutes f (P.putRoot v) := by
  have reads : Commutes f (Exec.gets P.root) := commutes_gets unseen.root
  have writes : Commutes f (Exec.modify (P.setRoot · v) : Exec ε σ Unit) := commutes_modify fun s => unseen.setRoot s v
  unfold putRoot
  infer_instance

instance (d : Dir) (i : ℕ) : Commutes f (P.child d i) := by
  have reads : Commutes f (Exec.gets fun s => (P.links s i).map (Links.child d)) :=
    commutes_gets fun s => by rw [unseen.links]
  unfold child
  infer_instance

instance (i : ℕ) : Commutes f (P.parent i) := by
  have reads : Commutes f (Exec.gets fun s => (P.links s i).map Links.parent) := commutes_gets fun s => by rw [unseen.links]
  unfold parent
  infer_instance

instance (i : ℕ) : Commutes f (P.color i) := by
  have reads : Commutes f (Exec.gets fun s => (P.links s i).map Links.color) := commutes_gets fun s => by rw [unseen.links]
  unfold color
  infer_instance

instance (i : ℕ) (g : Links → Links) : Commutes f (P.update i g) := by
  have writes : ∀ l, Commutes f (Exec.modify (P.setLinks · i (g l)) : Exec ε σ Unit) := fun l =>
    commutes_modify fun s => unseen.setLinks s i (g l)
  unfold update
  infer_instance

instance (d : Dir) (i v : ℕ) : Commutes f (P.setChild d i v) := inferInstanceAs (Commutes f (P.update i _))

instance (i v : ℕ) : Commutes f (P.setParent i v) := inferInstanceAs (Commutes f (P.update i _))

instance (i : ℕ) (c : Color) : Commutes f (P.setColor i c) := inferInstanceAs (Commutes f (P.update i _))

instance (d : Dir) (above x y : ℕ) : Commutes f (P.relink d above x y) := by
  unfold relink
  infer_instance

instance (y : ℕ) : Commutes f (P.checkChild y) := by
  unfold checkChild
  split <;> infer_instance

instance (d : Dir) (x : ℕ) : Commutes f (P.rotate d x) := by
  unfold rotate
  repeat with_reducible refine commutes_bind inferInstance fun _ => ?_
  infer_instance

instance (fuel i : ℕ) : Commutes f (P.minimum fuel i) := by
  induction fuel generalizing i with
  | zero => exact inferInstanceAs (Commutes f Exec.abort)
  | succ fuel ih =>
    unfold minimum
    infer_instance

instance (u v : ℕ) : Commutes f (P.transplant u v) := by
  unfold transplant
  infer_instance

instance (d : Dir) (xp w : ℕ) : Commutes f (P.raiseSibling d xp w) := by
  unfold raiseSibling
  infer_instance

instance (d : Dir) (w : ℕ) : Commutes f (P.childrenBlack d w) := by
  unfold childrenBlack
  infer_instance

instance (d : Dir) (xp w : ℕ) : Commutes f (P.turnFar d xp w) := by
  unfold turnFar
  repeat with_reducible refine commutes_bind inferInstance fun _ => ?_
  infer_instance

instance (d : Dir) (xp w : ℕ) : Commutes f (P.finishRemove d xp w) := by
  unfold finishRemove
  infer_instance

instance (d : Dir) (xp : ℕ) : Commutes f (P.removeStep d xp) := by
  unfold removeStep
  infer_instance

instance (fuel x xp : ℕ) : Commutes f (P.removeLoop fuel x xp) := by
  induction fuel generalizing x xp with
  | zero => exact inferInstanceAs (Commutes f Exec.abort)
  | succ fuel ih =>
    unfold removeLoop
    have next : ∀ o : Option (ℕ × ℕ), Commutes f
        (match o with
          | some (x, xp) => P.removeLoop fuel x xp
          | none => P.getRoot) := by
      rintro (_ | ⟨x, xp⟩) <;> infer_instance
    infer_instance

instance (x xp : ℕ) : Commutes f (P.removeFixup x xp) :=
  commutes_bind_get (fun s => by rw [unseen.size]) fun _ => inferInstance

instance (z x : ℕ) : Commutes f (P.spliceOut z x) := by
  unfold spliceOut parentOr
  infer_instance

instance (z right y x : ℕ) : Commutes f (P.detachSuccessor z right y x) := by
  unfold detachSuccessor
  infer_instance

instance (z left right y : ℕ) : Commutes f (P.moveSuccessor z left right y) := by
  unfold moveSuccessor
  repeat with_reducible refine commutes_bind inferInstance fun _ => ?_
  infer_instance

instance (z : ℕ) : Commutes f (P.remove z) := by
  have fixup : ∀ (c : Color) (place : ℕ × ℕ), Commutes f
      (match place with | (x, xp) => Exec.when (c = .black) (P.removeFixup x xp)) := fun c place => by
    cases place
    infer_instance
  have inner : ∀ left right : ℕ, Commutes f (do
      let s ← Exec.get
      let y ← P.minimum (P.size s + 1) right
      let yColor ← P.color y
      let (x, xp) ← P.moveSuccessor z left right y
      Exec.when (yColor = .black) (P.removeFixup x xp)) := fun left right =>
    commutes_bind_get (fun s => by rw [unseen.size]) fun s => inferInstance
  unfold remove
  infer_instance

end LinkedPool

end RedBlack
