import Polyleverage.RedBlack.Linked

/-! # What the tree programs may write

However a tree program ends, and whatever it started from, it has only replaced the links of linked
nodes and the root. Everything a client keeps besides them survives every program.
-/

namespace RedBlack

namespace LinkedPool

variable {ε σ κ : Type} (P : LinkedPool ε σ κ)

/-- The second state is the first one with some links and the root rewritten. -/
inductive Relinked : σ → σ → Prop where
  | refl (s : σ) : Relinked s s
  | setLinks {s s' : σ} {i : ℕ} {l : Links} (l' : Links) (before : Relinked s s')
      (linked : P.links s' i = .ok l) : Relinked s (P.setLinks s' i l')
  | setRoot {s s' : σ} {r : ℕ} (v : ℕ) (before : Relinked s s') (rooted : P.root s' = .ok r) :
      Relinked s (P.setRoot s' v)

variable {P}

theorem Relinked.trans {s t u : σ} (first : P.Relinked s t) (next : P.Relinked t u) : P.Relinked s u := by
  induction next with
  | refl => exact first
  | setLinks l' _ linked ih => exact .setLinks l' ih linked
  | setRoot v _ rooted ih => exact .setRoot v ih rooted

instance : Std.Refl P.Relinked := ⟨.refl⟩

instance : IsTrans σ P.Relinked := ⟨fun _ _ _ => .trans⟩

/-- A relation that every single write respects holds across every rewriting. -/
theorem Relinked.of_steps {R : σ → σ → Prop} (refl : ∀ s, R s s) (trans : ∀ s t u, R s t → R t u → R s u)
    (links : ∀ s i l l', P.links s i = .ok l → R s (P.setLinks s i l'))
    (root : ∀ s r v, P.root s = .ok r → R s (P.setRoot s v)) {s s' : σ} (relinked : P.Relinked s s') :
    R s s' := by
  induction relinked with
  | refl => exact refl _
  | setLinks l' _ linked ih => exact trans _ _ _ ih (links _ _ _ l' linked)
  | setRoot v _ rooted ih => exact trans _ _ _ ih (root _ _ v rooted)

theorem Relinked.key {s s' : σ} (relinked : P.Relinked s s') : P.key s' = P.key s :=
  relinked.of_steps (R := fun s s' => P.key s' = P.key s) (fun _ => rfl) (fun _ _ _ ab bc => bc.trans ab)
    (fun s i _ l' _ => P.key_setLinks s i l') (fun s _ v _ => P.key_setRoot s v)

theorem Relinked.size {s s' : σ} (relinked : P.Relinked s s') : P.size s' = P.size s :=
  relinked.of_steps (R := fun s s' => P.size s' = P.size s) (fun _ => rfl) (fun _ _ _ ab bc => bc.trans ab)
    (fun s i _ l' _ => P.size_setLinks s i l') (fun s _ v _ => P.size_setRoot s v)

open Exec

theorem keeps_child (d : Dir) (i : ℕ) : Keeps P.Relinked (P.child d i) := by
  unfold child
  split
  · exact keeps_pure _
  · exact keeps_gets _

theorem keeps_parent (i : ℕ) : Keeps P.Relinked (P.parent i) := by
  unfold parent
  split
  · exact keeps_pure _
  · exact keeps_gets _

theorem keeps_color (i : ℕ) : Keeps P.Relinked (P.color i) := by
  unfold color
  split
  · exact keeps_pure _
  · exact keeps_gets _

theorem keeps_update (i : ℕ) (f : Links → Links) : Keeps P.Relinked (P.update i f) := by
  intro s t left
  unfold update at left
  split at left
  · cases left
    exact .refl s
  · rw [run_bind, run_gets] at left
    cases linked : P.links s i with
    | error e =>
      rw [linked] at left
      cases left
      exact .refl s
    | ok l =>
      rw [linked] at left
      cases left
      exact .setLinks _ (.refl s) linked

theorem keeps_setChild (d : Dir) (i v : ℕ) : Keeps P.Relinked (P.setChild d i v) := keeps_update i _

theorem keeps_setParent (i v : ℕ) : Keeps P.Relinked (P.setParent i v) := keeps_update i _

theorem keeps_setColor (i : ℕ) (c : Color) : Keeps P.Relinked (P.setColor i c) := keeps_update i _

theorem keeps_getRoot : Keeps P.Relinked P.getRoot := keeps_gets _

theorem keeps_putRoot (v : ℕ) : Keeps P.Relinked (P.putRoot v) := by
  intro s t left
  rw [putRoot, run_bind, run_gets] at left
  cases rooted : P.root s with
  | error e =>
    rw [rooted] at left
    cases left
    exact .refl s
  | ok r =>
    rw [rooted] at left
    cases left
    exact .setRoot v (.refl s) rooted

theorem keeps_relink (d : Dir) (above x y : ℕ) : Keeps P.Relinked (P.relink d above x y) := by
  unfold relink
  split
  · exact keeps_putRoot y
  · refine keeps_bind (keeps_child d above) fun c => ?_
    split
    · exact keeps_setChild d above y
    · exact keeps_setChild d.flip above y

theorem keeps_checkChild (y : ℕ) : Keeps P.Relinked (P.checkChild y) := by
  unfold checkChild
  split
  · exact keeps_rejectIf _ _
  · exact keeps_pure _

theorem keeps_rotate (d : Dir) (x : ℕ) : Keeps P.Relinked (P.rotate d x) := by
  refine keeps_bind (keeps_child d.flip x) fun y => keeps_bind (keeps_checkChild y) fun _ => ?_
  refine keeps_bind (keeps_child d y) fun inner => keeps_bind (keeps_setChild d.flip x inner) fun _ => ?_
  refine keeps_bind (keeps_when fun _ => keeps_setParent inner x) fun _ => ?_
  refine keeps_bind (keeps_parent x) fun above => keeps_bind (keeps_setParent y above) fun _ => ?_
  refine keeps_bind (keeps_relink d above x y) fun _ => keeps_bind (keeps_setChild d y x) fun _ => ?_
  exact keeps_setParent x y

theorem keeps_descend (k : κ) (fuel r : ℕ) : Keeps P.Relinked (P.descend k fuel r) := by
  induction fuel generalizing r with
  | zero => exact keeps_abort
  | succ fuel ih =>
    refine keeps_bind (keeps_gets _) fun existing => keeps_bind (keeps_ofExcept _) fun d => ?_
    refine keeps_bind (keeps_child d r) fun next => ?_
    split
    · exact keeps_pure _
    · exact ih next

theorem keeps_turnOutward (d : Dir) (z p : ℕ) : Keeps P.Relinked (P.turnOutward d z p) := by
  refine keeps_bind (keeps_child d.flip p) fun inner => ?_
  split
  · exact keeps_bind (keeps_rotate d p) fun _ => keeps_pure _
  · exact keeps_pure _

theorem keeps_insertStep (d : Dir) (z p gp : ℕ) : Keeps P.Relinked (P.insertStep d z p gp) := by
  refine keeps_bind (keeps_child d.flip gp) fun uncle => keeps_bind (keeps_color uncle) fun _ => ?_
  split
  · refine keeps_bind (keeps_setColor p .black) fun _ => keeps_bind (keeps_setColor uncle .black) fun _ => ?_
    exact keeps_bind (keeps_setColor gp .red) fun _ => keeps_pure _
  · refine keeps_bind (keeps_turnOutward d z p) fun z => keeps_bind (keeps_parent z) fun p => ?_
    refine keeps_bind (keeps_parent p) fun gp => keeps_bind (keeps_setColor p .black) fun _ => ?_
    refine keeps_bind (keeps_setColor gp .red) fun _ => keeps_bind (keeps_rotate d.flip gp) fun _ => ?_
    exact keeps_pure _

theorem keeps_insertLoop (fuel z : ℕ) : Keeps P.Relinked (P.insertLoop fuel z) := by
  induction fuel generalizing z with
  | zero => exact keeps_abort
  | succ fuel ih =>
    refine keeps_bind (keeps_parent z) fun p => ?_
    split
    · exact keeps_pure _
    · refine keeps_bind (keeps_color p) fun pc => ?_
      split
      · exact keeps_pure _
      · refine keeps_bind (keeps_parent p) fun gp => keeps_bind (keeps_child .left gp) fun outer => ?_
        exact keeps_bind (keeps_insertStep _ z p gp) fun z => ih z

theorem keeps_insertFixup (z : ℕ) : Keeps P.Relinked (P.insertFixup z) := by
  refine keeps_bind keeps_get fun s => keeps_bind (keeps_insertLoop _ z) fun _ => ?_
  exact keeps_bind keeps_getRoot fun root => keeps_when fun _ => keeps_setColor root .black

theorem keeps_insert (i : ℕ) : Keeps P.Relinked (P.insert i) := by
  refine keeps_bind (keeps_rejectIf _ _) fun _ => keeps_bind (keeps_update i _) fun _ => ?_
  refine keeps_bind (keeps_gets _) fun k => keeps_bind keeps_getRoot fun root => ?_
  split
  · exact keeps_bind (keeps_setColor i .black) fun _ => keeps_putRoot i
  · refine keeps_bind keeps_get fun s => keeps_bind (keeps_descend k _ root) fun place => ?_
    refine keeps_bind (keeps_setParent i _) fun _ => keeps_bind (keeps_setChild _ _ i) fun _ => ?_
    exact keeps_insertFixup i

theorem keeps_findLoop (k : κ) (fuel cur : ℕ) : Keeps P.Relinked (P.findLoop k fuel cur) := by
  induction fuel generalizing cur with
  | zero => exact keeps_abort
  | succ fuel ih =>
    unfold findLoop
    split
    · exact keeps_pure _
    · refine keeps_bind (keeps_gets _) fun existing => ?_
      split
      · exact keeps_bind (keeps_child .left cur) fun next => ih next
      · exact keeps_bind (keeps_child .right cur) fun next => ih next
      · exact keeps_pure _

theorem keeps_find (k : κ) : Keeps P.Relinked (P.find k) :=
  keeps_bind keeps_get fun _ => keeps_bind keeps_getRoot fun root => keeps_findLoop k _ root

theorem keeps_minimum (fuel i : ℕ) : Keeps P.Relinked (P.minimum fuel i) := by
  induction fuel generalizing i with
  | zero => exact keeps_abort
  | succ fuel ih =>
    unfold minimum
    split
    · exact keeps_pure _
    · refine keeps_bind (keeps_child .left i) fun l => ?_
      split
      · exact keeps_pure _
      · exact ih l

theorem keeps_transplant (u v : ℕ) : Keeps P.Relinked (P.transplant u v) := by
  refine keeps_bind (keeps_parent u) fun above => keeps_bind (keeps_relink .left above u v) fun _ => ?_
  exact keeps_when fun _ => keeps_setParent v above

theorem keeps_raiseSibling (d : Dir) (xp w : ℕ) : Keeps P.Relinked (P.raiseSibling d xp w) := by
  refine keeps_bind (keeps_color w) fun wColor => ?_
  split
  · refine keeps_bind (keeps_setColor w .black) fun _ => keeps_bind (keeps_setColor xp .red) fun _ => ?_
    exact keeps_bind (keeps_rotate d xp) fun _ => keeps_child d.flip xp
  · exact keeps_pure _

theorem keeps_childrenBlack (d : Dir) (w : ℕ) : Keeps P.Relinked (P.childrenBlack d w) := by
  refine keeps_bind (keeps_child d w) fun near => keeps_bind (keeps_color near) fun _ => ?_
  split
  · exact keeps_bind (keeps_child d.flip w) fun far => keeps_bind (keeps_color far) fun _ => keeps_pure _
  · exact keeps_pure _

theorem keeps_turnFar (d : Dir) (xp w : ℕ) : Keeps P.Relinked (P.turnFar d xp w) := by
  refine keeps_bind (keeps_child d.flip w) fun far => keeps_bind (keeps_color far) fun _ => ?_
  split
  · refine keeps_bind (keeps_child d w) fun near => keeps_bind (keeps_setColor near .black) fun _ => ?_
    refine keeps_bind (keeps_setColor w .red) fun _ => keeps_bind (keeps_rotate d.flip w) fun _ => ?_
    exact keeps_child d.flip xp
  · exact keeps_pure _

theorem keeps_finishRemove (d : Dir) (xp w : ℕ) : Keeps P.Relinked (P.finishRemove d xp w) := by
  refine keeps_bind (keeps_turnFar d xp w) fun w => keeps_bind (keeps_color xp) fun xpColor => ?_
  refine keeps_bind (keeps_setColor w xpColor) fun _ => keeps_bind (keeps_setColor xp .black) fun _ => ?_
  refine keeps_bind (keeps_child d.flip w) fun far => keeps_bind (keeps_setColor far .black) fun _ => ?_
  exact keeps_rotate d xp

theorem keeps_removeStep (d : Dir) (xp : ℕ) : Keeps P.Relinked (P.removeStep d xp) := by
  refine keeps_bind (keeps_child d.flip xp) fun w => keeps_bind (keeps_raiseSibling d xp w) fun w => ?_
  refine keeps_bind (keeps_childrenBlack d w) fun both => ?_
  split
  · exact keeps_bind (keeps_setColor w .red) fun _ => keeps_bind (keeps_parent xp) fun _ => keeps_pure _
  · exact keeps_bind (keeps_finishRemove d xp w) fun _ => keeps_pure _

theorem keeps_removeLoop (fuel x xp : ℕ) : Keeps P.Relinked (P.removeLoop fuel x xp) := by
  induction fuel generalizing x xp with
  | zero => exact keeps_abort
  | succ fuel ih =>
    refine keeps_bind keeps_getRoot fun root => ?_
    split
    · exact keeps_pure _
    · refine keeps_bind (keeps_color x) fun xc => ?_
      split
      · exact keeps_pure _
      · refine keeps_bind (keeps_child .left xp) fun l => keeps_bind (keeps_removeStep _ xp) fun next => ?_
        split
        · exact ih _ _
        · exact keeps_getRoot

theorem keeps_removeFixup (x xp : ℕ) : Keeps P.Relinked (P.removeFixup x xp) := by
  refine keeps_bind keeps_get fun s => keeps_bind (keeps_removeLoop _ x xp) fun x => ?_
  exact keeps_when fun _ => keeps_setColor x .black

theorem keeps_spliceOut (z x : ℕ) : Keeps P.Relinked (P.spliceOut z x) := by
  refine keeps_bind (keeps_parent z) fun zp => keeps_bind (keeps_transplant z x) fun _ => ?_
  refine keeps_bind ?_ fun xp => keeps_pure _
  unfold parentOr
  split
  · exact keeps_pure _
  · exact keeps_parent x

theorem keeps_detachSuccessor (z right y x : ℕ) : Keeps P.Relinked (P.detachSuccessor z right y x) := by
  refine keeps_bind (keeps_parent y) fun yp => ?_
  split
  · exact keeps_bind (keeps_when fun _ => keeps_setParent x y) fun _ => keeps_pure _
  · refine keeps_bind (keeps_child .right y) fun yr => keeps_bind (keeps_transplant y yr) fun _ => ?_
    refine keeps_bind (keeps_setChild .right y right) fun _ => ?_
    exact keeps_bind (keeps_setParent right y) fun _ => keeps_pure _

theorem keeps_moveSuccessor (z left right y : ℕ) : Keeps P.Relinked (P.moveSuccessor z left right y) := by
  refine keeps_bind (keeps_child .right y) fun x => ?_
  refine keeps_bind (keeps_detachSuccessor z right y x) fun xp => ?_
  refine keeps_bind (keeps_transplant z y) fun _ => keeps_bind (keeps_setChild .left y left) fun _ => ?_
  refine keeps_bind (keeps_setParent left y) fun _ => keeps_bind (keeps_color z) fun zc => ?_
  exact keeps_bind (keeps_setColor y zc) fun _ => keeps_pure _

theorem keeps_remove (z : ℕ) : Keeps P.Relinked (P.remove z) := by
  refine keeps_bind (keeps_rejectIf _ _) fun _ => keeps_bind (keeps_color z) fun zColor => ?_
  refine keeps_bind (keeps_child .left z) fun left => keeps_bind (keeps_child .right z) fun right => ?_
  split
  · exact keeps_bind (keeps_spliceOut z right) fun place => keeps_when fun _ => keeps_removeFixup _ _
  split
  · exact keeps_bind (keeps_spliceOut z left) fun place => keeps_when fun _ => keeps_removeFixup _ _
  · refine keeps_bind keeps_get fun s => keeps_bind (keeps_minimum _ right) fun y => ?_
    refine keeps_bind (keeps_color y) fun yColor => ?_
    exact keeps_bind (keeps_moveSuccessor z left right y) fun place => keeps_when fun _ => keeps_removeFixup _ _

end LinkedPool

end RedBlack
