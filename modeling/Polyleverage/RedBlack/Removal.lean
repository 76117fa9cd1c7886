import Polyleverage.RedBlack.Rotation

/-! # Removal from a linked tree

A node with a missing child is spliced out; otherwise its successor is taken out of its place and
put into the place of the node. Where a black node went missing the loop repairs the tree from the
focus upwards, as `removeFixup` does on trees.
-/

namespace RedBlack

namespace LinkedPool

variable {ε σ κ α : Type} {P : LinkedPool ε σ κ}

/-! ### Replacing subtrees -/

theorem when_setParent (i v : ℕ) : Exec.when (i ≠ 0) (P.setParent i v) = P.setParent i v := by
  unfold Exec.when
  split
  · rfl
  next zero => rw [not_not.mp zero, setParent, update, if_pos rfl]

/-- A subtree of the focus takes the place of the focus. -/
theorem run_transplant {s : σ} {t v : Tree ℕ} {k : List (Frame ℕ)} {q : ℕ} (shape : P.Shape s (plug t k))
    (present : t ≠ .leaf) (stored : Stored (P.links s) q v) (nodup : v.toList.Nodup)
    (inside : ∀ i ∈ v.toList, i ∈ t.toList) :
    ∃ s', (P.transplant t.top v.top).run s = .ok () s' ∧ P.Shape s' (plug v k) ∧
      ∀ i ∉ v.toList, i ∉ pathKeys k → P.links s' i = P.links s i := by
  obtain ⟨-, path⟩ := shape.parts
  obtain ⟨-, kNodup, disjoint⟩ := nodup_plug.mp shape.nodup
  have t0 : t.top ≠ 0 := by
    cases t with
    | leaf => exact (present rfl).elim
    | node c l a r => exact shape.parts.1.1
  have root : P.root s = .ok (rootOf t.top k) := shape.root.trans (by rw [top_plug])
  obtain ⟨s1, ran1, path1, root1, off1⟩ :=
    run_relink .left v.top path root kNodup t0 (disjoint (Tree.top_mem t0))
  have stored1 : Stored (P.links s1) q v := stored.congr fun i member => off1 i (disjoint (inside i member))
  obtain ⟨s2, ran2, stored2, off2, root2⟩ := run_adopt (above k) stored1 nodup
  obtain ⟨_, ranParent, -, -, -⟩ := turns_parent (P := P) present k s shape
  refine ⟨s2, ?_, ⟨?_, stored_plug.mpr ⟨stored2, ?_⟩, ?_⟩, fun i out outK => ?_⟩
  · have reads : (P.parent t.top).run s = .ok (above k) s := by
      cases t with
      | leaf => exact (present rfl).elim
      | node c l a r => exact run_parent shape.parts.1.1 shape.parts.1.2.1
    rw [transplant, Exec.run_bind_of_ok reads, Exec.run_bind_of_ok ran1]
    exact ran2
  · exact nodup_plug.mpr ⟨nodup, kNodup, fun i member => disjoint (inside i member)⟩
  · exact path1.congr fun i member => off2 i fun out => disjoint (inside i out) member
  · rw [root2, root1, top_plug]
  · rw [off2 i out, off1 i outK]

/-- The node `z` with one missing child is spliced out; its other child takes its place. -/
theorem turns_spliceOut (d : Dir) (c : Color) (z : ℕ) (t : Tree ℕ) (k : List (Frame ℕ)) :
    P.Turns (P.spliceOut z t.top) (plug (d.node c .leaf z t) k) (t.top, above k) (plug t k) := by
  intro s shape
  have node : d.node c .leaf z t ≠ .leaf := by cases d <;> simp
  obtain ⟨z0, here, -, stored⟩ := stored_dirNode.mp shape.parts.1
  have inner := nodup_dirNode.mp (nodup_plug.mp shape.nodup).1
  have inside : ∀ i ∈ t.toList, i ∈ (d.node c .leaf z t).toList := fun i member =>
    mem_dirNode.mpr (.inr (.inr member))
  obtain ⟨s', ran, shape', off⟩ := run_transplant shape node stored inner.2.1 inside
  rw [top_dirNode] at ran
  refine ⟨s', ?_, shape', fun i member => ?_, fun i outside => ?_⟩
  · have reads : (P.parent z).run s = .ok (above k) s := by rw [run_parent z0 here, parent_links]
    have parent : (P.parentOr t.top (above k)).run s' = .ok (above k) s' := by
      unfold parentOr
      split
      · rfl
      next t0 =>
        cases t with
        | leaf => exact (t0 rfl).elim
        | node ct l a r => exact run_parent shape'.parts.1.1 shape'.parts.1.2.1
    rw [spliceOut, Exec.run_bind_of_ok reads, Exec.run_bind_of_ok ran, Exec.run_bind_of_ok parent]
    rfl
  · exact mem_plug.mpr ((mem_plug.mp member).imp (inside i) id)
  · exact off i (fun member => outside (mem_plug.mpr (.inl (inside i member))))
      (fun member => outside (mem_plug.mpr (.inr member)))

/-- The descent to the leftmost node. -/
theorem run_minimum {s : σ} {t : Tree ℕ} {k path above : List (Frame ℕ)} {c : Color} {y : ℕ} {x : Tree ℕ}
    (found : leftmost t k = some (c, y, x, path)) (shape : P.Shape s (plug t above)) {fuel : ℕ}
    (enough : t.toList.length ≤ fuel) : (P.minimum fuel t.top).run s = .ok y s := by
  induction t, k using leftmost.induct generalizing fuel above with
  | case1 k => simp [leftmost] at found
  | case2 c' a r k =>
    cases found
    obtain ⟨fuel, rfl⟩ : ∃ n, fuel = n + 1 := ⟨fuel - 1, by simp at enough; omega⟩
    obtain ⟨a0, here, -⟩ := shape.parts.1
    rw [minimum, Tree.top_node, if_neg a0, Exec.run_bind_of_ok (run_child .left a0 here)]
    rfl
  | case3 c' cl l b r' a r k ih =>
    obtain ⟨fuel, rfl⟩ : ∃ n, fuel = n + 1 := ⟨fuel - 1, by simp at enough; omega⟩
    obtain ⟨a0, here, -⟩ := shape.parts.1
    have below : P.Shape s (plug (.node cl l b r') (⟨.left, c', a, r⟩ :: above)) := shape
    have b0 : b ≠ 0 := below.parts.1.1
    rw [minimum, Tree.top_node, if_neg a0, Exec.run_bind_of_ok (run_child .left a0 here)]
    show (if b = 0 then pure a else P.minimum fuel b).run s = .ok y s
    rw [if_neg b0]
    have shorter : (Tree.node cl l b r').toList.length ≤ fuel := by simp at enough ⊢; omega
    exact ih found below shorter

/-- A node `y` outside the tree, with the right subtree `r` below it, takes the place of `z`: it gets
the left subtree, the color and the parent of `z`. -/
theorem run_replaceNode {s : σ} {k : List (Frame ℕ)} {c cy : Color} {z y zr yl yp : ℕ} {l r : Tree ℕ} (a : α)
    (z0 : z ≠ 0) (lz : P.links s z = .ok ⟨c, l.top, zr, above k⟩) (y0 : y ≠ 0)
    (ly : P.links s y = .ok ⟨cy, yl, r.top, yp⟩) (sl : Stored (P.links s) z l) (sr : Stored (P.links s) y r)
    (path : StoredPath (P.links s) z k) (root : P.root s = .ok (rootOf z k))
    (nodup : (plug (.node c l y r) k).toList.Nodup) (out : z ∉ (plug (.node c l y r) k).toList) :
    ∃ s', (do
        P.transplant z y
        P.setChild .left y l.top
        P.setParent l.top y
        let zc ← P.color z
        P.setColor y zc
        pure a).run s = .ok a s' ∧ P.Shape s' (plug (.node c l y r) k) ∧
      ∀ i ∉ (plug (.node c l y r) k).toList, P.links s' i = P.links s i := by
  obtain ⟨inner, kNodup, disjoint⟩ := nodup_plug.mp nodup
  obtain ⟨lNodup, -, yl', yr', lr⟩ := (nodup_dirNode (d := .left)).mp inner
  have zy : z ≠ y := fun same => out (mem_plug.mpr (.inl (by simp [same])))
  have zl : z ∉ l.toList := fun member => out (mem_plug.mpr (.inl (by simp [member])))
  have zk : z ∉ pathKeys k := fun member => out (mem_plug.mpr (.inr member))
  have yk : y ∉ pathKeys k := disjoint (by simp)
  have lk : ∀ i ∈ l.toList, i ∉ pathKeys k := fun i member => disjoint (by simp [member])
  have rk : ∀ i ∈ r.toList, i ∉ pathKeys k := fun i member => disjoint (by simp [member])
  obtain ⟨s1, ran1, path1, root1, off1⟩ := run_relink .left y path root kNodup z0 zk
  obtain ⟨s2, ran2, sets2⟩ := setParent_sets (P := P) (above k) y0 ((off1 y yk).trans ly)
  obtain ⟨s3, ran3, sets3⟩ := setChild_sets (P := P) .left l.top y0 sets2.here
  have sl3 : Stored (P.links s3) z l := sl.congr fun i member => by
    have iy : i ≠ y := fun same => yl' (same ▸ member)
    rw [sets3.off i iy, sets2.off i iy, off1 i (lk i member)]
  obtain ⟨s4, ran4, sl4, off4, root4⟩ := run_adopt y sl3 lNodup
  rw [when_setParent] at ran4
  have lz4 : P.links s4 z = .ok ⟨c, l.top, zr, above k⟩ := by
    rw [off4 z zl, sets3.off z zy, sets2.off z zy, off1 z zk, lz]
  have ly4 : P.links s4 y = _ := (off4 y yl').trans sets3.here
  obtain ⟨s5, ran5, sets5⟩ := setColor_sets (P := P) c y0 ly4
  have off5 : ∀ i, i ≠ y → i ∉ l.toList → i ∉ pathKeys k → P.links s5 i = P.links s i := fun i iy il ik => by
    rw [sets5.off i iy, off4 i il, sets3.off i iy, sets2.off i iy, off1 i ik]
  refine ⟨s5, ?_, ⟨nodup, stored_plug.mpr ⟨⟨y0, ?_, ?_, ?_⟩, ?_⟩, ?_⟩, fun i outside => ?_⟩
  · have parent : (P.parent z).run s = .ok (above k) s := run_parent z0 lz
    have replace : (P.transplant z y).run s = .ok () s2 := by
      rw [transplant, Exec.run_bind_of_ok parent, Exec.run_bind_of_ok ran1, when_setParent, ran2]
    rw [Exec.run_bind_of_ok replace, Exec.run_bind_of_ok ran3, Exec.run_bind_of_ok ran4,
      Exec.run_bind_of_ok (run_color z0 lz4), Exec.run_bind_of_ok ran5]
    rfl
  · exact sets5.here
  · exact sl4.congr fun i member => sets5.off i fun same => yl' (same ▸ member)
  · exact sr.congr fun i member => off5 i (fun same => yr' (same ▸ member))
      (fun inL => lr inL member) (rk i member)
  · refine path1.congr fun i member => ?_
    have iy : i ≠ y := fun same => yk (same ▸ member)
    rw [sets5.off i iy, off4 i fun inL => lk i inL member, sets3.off i iy, sets2.off i iy]
  · rw [sets5.root, root4, sets3.root, sets2.root, root1, top_plug]
    rfl
  · simp only [mem_plug, not_or, Tree.toList, List.mem_append, List.mem_cons] at outside
    exact off5 i outside.1.2.1 outside.1.1 outside.2

/-- Taking the leftmost node out of the right subtree and putting it in the place of the root leaves
out exactly the root. -/
theorem successor_keys {c cy : Color} {l r x : Tree α} {z y : α} {path k : List (Frame α)}
    (found : leftmost r [] = some (cy, y, x, path)) :
    List.Perm (plug (.node c l z r) k).toList (z :: (plug (.node c l y (plug x path)) k).toList) := by
  obtain ⟨before, after⟩ := leftmost_keys found
  simp only [keysBefore, keysAfter, List.append_nil] at before after
  simp only [toList_plug, Tree.toList, before, after, List.nil_append, List.append_assoc, List.cons_append]
  simpa only [List.append_assoc] using
    @List.perm_middle _ z (keysBefore k ++ l.toList) (y :: (x.toList ++ (keysAfter path ++ keysAfter k)))

/-- The successor is out of its place, has the right subtree below it, and the rest is untouched. -/
structure Detached (P : LinkedPool ε σ κ) (s : σ) (c : Color) (l : Tree ℕ) (z y : ℕ) (r : Tree ℕ)
    (k : List (Frame ℕ)) : Prop where
  node : ∃ zr, P.links s z = .ok ⟨c, l.top, zr, above k⟩
  successor : ∃ cy yl yp, P.links s y = .ok ⟨cy, yl, r.top, yp⟩
  left : Stored (P.links s) z l
  right : Stored (P.links s) y r
  path : StoredPath (P.links s) z k
  root : P.root s = .ok (rootOf z k)

/-- The successor is the right child: it keeps its own right subtree. -/
theorem run_detachSuccessor_next {s : σ} {c cy : Color} {l x : Tree ℕ} {z y : ℕ} {k : List (Frame ℕ)}
    (shape : P.Shape s (plug (.node c l z (.node cy .leaf y x)) k)) :
    ∃ s', (P.detachSuccessor z y y x.top).run s = .ok y s' ∧ P.Detached s' c l z y x k ∧
      ∀ i ∉ x.toList, P.links s' i = P.links s i := by
  obtain ⟨inner, -, disjoint⟩ := nodup_plug.mp shape.nodup
  obtain ⟨⟨-, lz, sl, y0, ly, -, sx⟩, kPath⟩ := shape.parts
  obtain ⟨-, rNodup, zl, zr, lr⟩ := (nodup_dirNode (d := .left)).mp inner
  obtain ⟨-, xNodup, -, yx, -⟩ := (nodup_dirNode (d := .left)).mp rNodup
  obtain ⟨s', ran, sx', off, root⟩ := run_adopt y sx xNodup
  refine ⟨s', ?_, ⟨⟨y, ?_⟩, ⟨cy, 0, z, ?_⟩, ?_, sx', ?_, ?_⟩, off⟩
  · have parent : (P.parent y).run s = .ok z s := run_parent y0 ly
    rw [detachSuccessor, Exec.run_bind_of_ok parent, if_pos rfl, Exec.run_bind_of_ok ran]
    rfl
  · exact (off z fun member => zr (by simp [member])).trans lz
  · exact (off y yx).trans ly
  · exact sl.congr fun i member => off i fun inX => lr member (by simp [inX])
  · exact kPath.congr fun i member => off i fun inX => disjoint (by simp [inX]) member
  · rw [root, shape.root, top_plug]
    rfl

theorem mem_node_right {c : Color} {l r : Tree α} {a i : α} (member : i ∈ r.toList) :
    i ∈ (Tree.node c l a r).toList :=
  List.mem_append.mpr (.inr (List.mem_cons_of_mem a member))

/-- The successor is deeper: its right child takes its place, and it gets the right subtree. -/
theorem run_detachSuccessor_deep {s : σ} {c cy : Color} {l x : Tree ℕ} {z y : ℕ} {f : Frame ℕ}
    {path k : List (Frame ℕ)}
    (shape : P.Shape s (plug (.node cy .leaf y x) (f :: path ++ ⟨.right, c, z, l⟩ :: k))) :
    ∃ s', (P.detachSuccessor z (plug (.node cy .leaf y x) (f :: path)).top y x.top).run s = .ok f.key s' ∧
      P.Detached s' c l z y (plug x (f :: path)) k ∧
      ∀ i ∉ (plug (.node cy .leaf y x) (f :: path ++ ⟨.right, c, z, l⟩ :: k)).toList,
        P.links s' i = P.links s i := by
  obtain ⟨⟨y0, ly, -, sx⟩, -⟩ := shape.parts
  obtain ⟨inner, outer, disjoint⟩ := nodup_plug.mp shape.nodup
  obtain ⟨-, xNodup, -, yx, -⟩ := (nodup_dirNode (d := .left)).mp inner
  have yOut : y ∉ pathKeys (f :: path ++ ⟨.right, c, z, l⟩ :: k) := disjoint (by simp)
  have fz : f.key ≠ z := by
    rw [List.cons_append, nodup_pathKeys_cons] at outer
    intro same
    exact outer.2.2.2.1 (mem_pathKeys_append.mpr (.inr (mem_pathKeys_cons.mpr (.inl same))))
  obtain ⟨s1, ran1, shape1, off1⟩ :=
    run_transplant shape (by simp) sx xNodup fun i member => by simp [member]
  rw [Tree.top_node] at ran1
  have ly1 : P.links s1 y = .ok ⟨cy, 0, x.top, f.key⟩ := (off1 y yx yOut).trans ly
  obtain ⟨s2, ran2, sets2⟩ := setChild_sets (P := P) .right (plug (.node cy .leaf y x) (f :: path)).top y0 ly1
  have sameTop : (plug (.node cy .leaf y x) (f :: path)).top = (plug x (f :: path)).top := by
    rw [top_plug, top_plug]
    rfl
  have yRest : y ∉ (plug x (f :: path ++ ⟨.right, c, z, l⟩ :: k)).toList := fun member =>
    (mem_plug.mp member).elim yx yOut
  have shape2 : P.Shape s2 (plug (.node c l z (plug x (f :: path))) k) := by
    have kept := shape1.frame (fun i member => sets2.off i fun same => yRest (same ▸ member)) sets2.root
    rw [plug_append] at kept
    exact kept
  obtain ⟨⟨-, lz2, sl2, sr2⟩, kPath2⟩ := shape2.parts
  obtain ⟨inner2, -, disjoint2⟩ := nodup_plug.mp shape2.nodup
  obtain ⟨-, rNodup, -, zr, lr⟩ := (nodup_dirNode (d := .left)).mp inner2
  obtain ⟨s3, ran3, sr3, off3, root3⟩ := run_adopt y sr2 rNodup
  rw [when_setParent] at ran3
  have yr : y ∉ (plug x (f :: path)).toList := fun member =>
    (mem_plug.mp member).elim yx fun inK => yOut (mem_pathKeys_append.mpr (.inl inK))
  refine ⟨s3, ?_, ⟨⟨_, (off3 z zr).trans lz2⟩, ⟨cy, 0, f.key, ?_⟩, ?_, sr3, ?_, ?_⟩, fun i outside => ?_⟩
  · have parent : (P.parent y).run s = .ok f.key s := run_parent y0 ly
    have right : (P.child .right y).run s = .ok x.top s := run_child .right y0 ly
    rw [detachSuccessor, Exec.run_bind_of_ok parent, if_neg fz, Exec.run_bind_of_ok right,
      Exec.run_bind_of_ok ran1, Exec.run_bind_of_ok ran2, sameTop, Exec.run_bind_of_ok ran3]
    rfl
  · rw [off3 y yr, sets2.here, sameTop]
    rfl
  · exact sl2.congr fun i member => off3 i fun inR => lr member inR
  · exact kPath2.congr fun i member => off3 i fun inR => disjoint2 (mem_node_right inR) member
  · rw [root3, shape2.root, top_plug]
    rfl
  · have outX : i ∉ x.toList := fun member => outside (mem_plug.mpr (.inl (by simp [member])))
    have outK : i ∉ pathKeys (f :: path ++ ⟨.right, c, z, l⟩ :: k) := fun member =>
      outside (mem_plug.mpr (.inr member))
    have iy : i ≠ y := fun same => outside (mem_plug.mpr (.inl (by simp [same])))
    have outR : i ∉ (plug x (f :: path)).toList := fun member =>
      (mem_plug.mp member).elim outX fun inK => outK (mem_pathKeys_append.mpr (.inl inK))
    rw [off3 i outR, sets2.off i iy, off1 i outX outK]

/-- The successor `y` of `z`, which is leftmost in the right subtree of `z`, takes the place of `z`. -/
theorem turns_moveSuccessor {c cy : Color} {l r x : Tree ℕ} {z y : ℕ} {path k : List (Frame ℕ)}
    (found : leftmost r [] = some (cy, y, x, path)) :
    P.Turns (P.moveSuccessor z l.top r.top y) (plug (.node c l z r) k)
      (x.top, above (path ++ ⟨.right, c, y, l⟩ :: k)) (plug x (path ++ ⟨.right, c, y, l⟩ :: k)) := by
  intro s shape
  have keys := successor_keys (c := c) (l := l) (z := z) (k := k) found
  have opened : plug (.node cy .leaf y x) path = r := leftmost_plug found
  have wholeY : plug (.node cy .leaf y x) (path ++ ⟨.right, c, z, l⟩ :: k) = plug (.node c l z r) k := by
    rw [plug_append, opened]
    rfl
  have moved : plug x (path ++ ⟨.right, c, y, l⟩ :: k) = plug (.node c l y (plug x path)) k := by
    rw [plug_append]
    rfl
  have sub : ∀ i ∈ (plug (.node c l y (plug x path)) k).toList, i ∈ (plug (.node c l z r) k).toList :=
    fun i member => keys.mem_iff.mpr (List.mem_cons_of_mem z member)
  obtain ⟨out, nodup⟩ := List.nodup_cons.mp (keys.nodup_iff.mp shape.nodup)
  have z0 := shape.mem_ne_zero (keys.mem_iff.mpr (List.mem_cons_self ..))
  obtain ⟨s1, ran1, detached, off1⟩ : ∃ s1, (P.detachSuccessor z r.top y x.top).run s =
      .ok (above (path ++ ⟨.right, c, y, l⟩ :: k)) s1 ∧ P.Detached s1 c l z y (plug x path) k ∧
      ∀ i ∉ (plug (.node c l z r) k).toList, P.links s1 i = P.links s i := by
    cases path with
    | nil =>
      subst opened
      obtain ⟨s1, ran, detached, off⟩ := run_detachSuccessor_next shape
      refine ⟨s1, ran, detached, fun i outside => off i fun member => outside ?_⟩
      exact mem_plug.mpr (.inl (by simp [member]))
    | cons f path =>
      rw [← wholeY] at shape
      obtain ⟨s1, ran, detached, off⟩ := run_detachSuccessor_deep shape
      rw [opened] at ran
      exact ⟨s1, ran, detached, fun i outside => off i (wholeY ▸ outside)⟩
  obtain ⟨zr, lz⟩ := detached.node
  obtain ⟨cy', yl, yp, ly⟩ := detached.successor
  have y0 : y ≠ 0 := shape.mem_ne_zero (sub y (mem_plug.mpr (.inl (by simp))))
  obtain ⟨s2, ran2, shape2, off2⟩ :=
    run_replaceNode (P := P) (x.top, above (path ++ ⟨.right, c, y, l⟩ :: k)) z0 lz y0 ly detached.left
      detached.right detached.path detached.root nodup out
  refine ⟨s2, ?_, moved ▸ shape2, fun i member => sub i (moved ▸ member), fun i outside => ?_⟩
  · have readX : (P.child .right y).run s = .ok x.top s := by
      rw [← wholeY] at shape
      exact run_child .right shape.parts.1.1 shape.parts.1.2.1
    rw [moveSuccessor, Exec.run_bind_of_ok readX, Exec.run_bind_of_ok ran1]
    exact ran2
  · rw [off2 i fun member => outside (sub i member), off1 i outside]

/-! ### The loop -/

/-- Reading a child of the sibling. -/
theorem turns_child_sibling (d' d : Dir) (c : Color) (t : Tree ℕ) (p : ℕ) (w : Tree ℕ) (k : List (Frame ℕ)) :
    P.Turns (P.child d' w.top) (plug t (⟨d, c, p, w⟩ :: k)) (w.child d').top (plug t (⟨d, c, p, w⟩ :: k)) := by
  rw [← plug_sibling]
  exact turns_child d' w _

/-- Reading the color of a child of the sibling. -/
theorem turns_color_nephew (d' d : Dir) (c : Color) (t : Tree ℕ) (p : ℕ) (w : Tree ℕ) (k : List (Frame ℕ)) :
    P.Turns (P.color (w.child d').top) (plug t (⟨d, c, p, w⟩ :: k)) (w.child d').color
      (plug t (⟨d, c, p, w⟩ :: k)) := by
  cases w with
  | leaf => exact .of_read fun _ _ => rfl
  | node cw l a r =>
    have opened := turns_color (P := P) ((Tree.node cw l a r).child d')
      (⟨d', cw, a, (Tree.node cw l a r).child d'.flip⟩ :: ⟨d.flip, c, p, t⟩ :: k)
    rw [plug, Frame.fill, ← node_eq, plug_sibling] at opened
    exact opened

theorem turns_childrenBlack (d : Dir) (c : Color) (t : Tree ℕ) (p : ℕ) (w : Tree ℕ) (k : List (Frame ℕ)) :
    P.Turns (P.childrenBlack d w.top) (plug t (⟨d, c, p, w⟩ :: k)) w.blackChildren
      (plug t (⟨d, c, p, w⟩ :: k)) := by
  have both := w.blackChildren_iff d
  refine (turns_child_sibling d d c t p w k).bind ((turns_color_nephew d d c t p w k).bind ?_)
  split
  next near =>
    refine (turns_child_sibling d.flip d c t p w k).bind ((turns_color_nephew d.flip d c t p w k).bind ?_)
    have same : decide ((w.child d.flip).color = .black) = w.blackChildren := by
      rw [Bool.eq_iff_iff, decide_eq_true_eq, both]
      simp [near]
    rw [same]
    exact .pure _ _
  next near =>
    have same : w.blackChildren = false := by
      rw [Bool.eq_false_iff, ne_eq, both]
      exact fun holds => near holds.1
    rw [same]
    exact .pure _ _

/-- A sibling without red children turns red, and the focus moves up. -/
theorem turns_recolor (d : Dir) (c : Color) (t : Tree ℕ) (p : ℕ) (w : Tree ℕ) (k : List (Frame ℕ)) :
    P.Turns (do
        P.setColor w.top .red
        let above ← P.parent p
        pure (some (p, above)))
      (plug t (⟨d, c, p, w⟩ :: k)) (some (p, above k)) (plug (d.node c t p (w.paint .red)) k) := by
  have paint := turns_setColor (P := P) .red w (⟨d.flip, c, p, t⟩ :: k)
  rw [plug_sibling, plug_sibling] at paint
  have parent := turns_parent (P := P) (t := d.node c t p (w.paint .red)) (by cases d <;> simp) k
  rw [top_dirNode] at parent
  exact paint.bind (parent.bind (.pure _ _))

/-- The rotation around the parent that ends the repair, once the far child of the sibling is red. -/
theorem turns_finish_rotate (d : Dir) (c cw : Color) (t : Tree ℕ) (p : ℕ) (near : Tree ℕ) (a : ℕ)
    (far : Tree ℕ) (k : List (Frame ℕ)) :
    P.Turns (do
        let xpColor ← P.color p
        P.setColor a xpColor
        P.setColor p .black
        let far ← P.child d.flip a
        P.setColor far .black
        P.rotate d p)
      (plug t (⟨d, c, p, d.node cw near a far⟩ :: k)) ()
      (plug (d.node c (d.node .black t p near) a (far.paint .black)) k) := by
  have color := turns_color (P := P) (d.node c t p (d.node cw near a far)) k
  rw [top_dirNode, color_dirNode] at color
  have paint := turns_setColor (P := P) c (d.node cw near a far) (⟨d.flip, c, p, t⟩ :: k)
  rw [top_dirNode, paint_dirNode, plug_sibling, plug_sibling] at paint
  have paintParent := turns_setColor (P := P) .black (d.node c t p (d.node c near a far)) k
  rw [top_dirNode, paint_dirNode] at paintParent
  have child := turns_child_sibling (P := P) d.flip d .black t p (d.node c near a far) k
  rw [top_dirNode, child_flip_dirNode] at child
  have paintFar := turns_setColor (P := P) .black far (⟨d.flip, c, a, near⟩ :: ⟨d.flip, .black, p, t⟩ :: k)
  simp only [plug, Frame.fill, node_flip] at paintFar
  refine color.bind (paint.bind (paintParent.bind (child.bind (paintFar.bind ?_))))
  exact turns_rotate d .black c t near (far.paint .black) p a k

/-- A red near child of the sibling is rotated into the place of the sibling. -/
theorem turns_turnFar_near (d : Dir) (c cw cn : Color) (t : Tree ℕ) (p : ℕ) (nn : Tree ℕ) (z : ℕ)
    (nf : Tree ℕ) (a : ℕ) {far : Tree ℕ} (dark : far.color = .black) (k : List (Frame ℕ)) :
    P.Turns (P.turnFar d p a) (plug t (⟨d, c, p, d.node cw (d.node cn nn z nf) a far⟩ :: k)) z
      (plug t (⟨d, c, p, d.node .black nn z (d.node .red nf a far)⟩ :: k)) := by
  have readFar := turns_child_sibling (P := P) d.flip d c t p (d.node cw (d.node cn nn z nf) a far) k
  have farColor := turns_color_nephew (P := P) d.flip d c t p (d.node cw (d.node cn nn z nf) a far) k
  have readNear := turns_child_sibling (P := P) d d c t p (d.node cw (d.node cn nn z nf) a far) k
  rw [top_dirNode, child_flip_dirNode] at readFar
  rw [child_flip_dirNode, dark] at farColor
  rw [top_dirNode, child_dirNode, top_dirNode] at readNear
  have paintNear := turns_setColor (P := P) .black (d.node cn nn z nf) (⟨d, cw, a, far⟩ :: ⟨d.flip, c, p, t⟩ :: k)
  rw [top_dirNode, paint_dirNode] at paintNear
  have paint := turns_setColor (P := P) .red (d.node cw (d.node .black nn z nf) a far) (⟨d.flip, c, p, t⟩ :: k)
  rw [top_dirNode, paint_dirNode] at paint
  have rotate := turns_rotate (P := P) d.flip .red .black far nf nn a z (⟨d.flip, c, p, t⟩ :: k)
  simp only [node_flip] at rotate
  have sibling := turns_child (P := P) d.flip (d.node c t p (d.node .black nn z (d.node .red nf a far))) k
  rw [top_dirNode, child_flip_dirNode, top_dirNode] at sibling
  simp only [plug, Frame.fill, node_flip] at paintNear paint rotate
  refine readFar.bind (farColor.bind ?_)
  rw [if_pos rfl]
  exact readNear.bind (paintNear.bind (paint.bind (rotate.bind sibling)))

theorem turns_finishRemove {d : Dir} {c : Color} {t : Tree ℕ} {p : ℕ} {w : Tree ℕ} {k : List (Frame ℕ)}
    (one : w.blackChildren = false) :
    P.Turns (P.finishRemove d p w.top) (plug t (⟨d, c, p, w⟩ :: k)) ()
      (plug (removeRotate d c t p w) k) := by
  have far := turns_child_sibling (P := P) d.flip d c t p w k
  have farColor := turns_color_nephew (P := P) d.flip d c t p w k
  cases w with
  | leaf => simp [Tree.blackChildren] at one
  | node cw l a r =>
    have both := (Tree.node cw l a r).blackChildren_iff d
    rw [one] at both
    by_cases red : ((Tree.node cw l a r).child d.flip).color = .red
    · have turn : P.Turns (P.turnFar d p (Tree.node cw l a r).top)
          (plug t (⟨d, c, p, .node cw l a r⟩ :: k)) a (plug t (⟨d, c, p, .node cw l a r⟩ :: k)) := by
        refine far.bind (farColor.bind ?_)
        rw [red, if_neg (by decide)]
        exact .pure _ _
      refine turn.bind ?_
      have finish := turns_finish_rotate (P := P) d c cw t p ((Tree.node cw l a r).child d) a
        ((Tree.node cw l a r).child d.flip) k
      rw [← node_eq] at finish
      simp only [removeRotate, if_pos red]
      exact finish
    · have black : ((Tree.node cw l a r).child d.flip).color = .black := by
        cases color : ((Tree.node cw l a r).child d.flip).color <;> simp_all
      cases nearTree : (Tree.node cw l a r).child d with
      | leaf => simp [nearTree, black] at both
      | node cn nl z nr =>
        have shape : Tree.node cw l a r = d.node cw (d.node cn ((Tree.node cn nl z nr).child d) z
            ((Tree.node cn nl z nr).child d.flip)) a ((Tree.node cw l a r).child d.flip) := by
          rw [← node_eq d cn, ← nearTree, ← node_eq d cw]
        have turn := turns_turnFar_near (P := P) d c cw cn t p ((Tree.node cn nl z nr).child d) z
          ((Tree.node cn nl z nr).child d.flip) a black k
        rw [← shape] at turn
        refine turn.bind ?_
        have finish := turns_finish_rotate (P := P) d c .black t p ((Tree.node cn nl z nr).child d) z
          (d.node .red ((Tree.node cn nl z nr).child d.flip) a ((Tree.node cw l a r).child d.flip)) k
        rw [paint_dirNode] at finish
        simp only [removeRotate, if_neg red, nearTree]
        exact finish

/-- The red sibling `w` of the focus takes the place of the parent. -/
theorem turns_raiseSibling_red (d : Dir) (c : Color) (t : Tree ℕ) (p : ℕ) (below : Tree ℕ) (a : ℕ)
    (far : Tree ℕ) (k : List (Frame ℕ)) :
    P.Turns (P.raiseSibling d p a) (plug t (⟨d, c, p, d.node .red below a far⟩ :: k)) below.top
      (plug t (⟨d, .red, p, below⟩ :: ⟨d, .black, a, far⟩ :: k)) := by
  have color := turns_color (P := P) (d.node .red below a far) (⟨d.flip, c, p, t⟩ :: k)
  rw [top_dirNode, color_dirNode, plug_sibling] at color
  have paint := turns_setColor (P := P) .black (d.node .red below a far) (⟨d.flip, c, p, t⟩ :: k)
  rw [top_dirNode, paint_dirNode, plug_sibling, plug_sibling] at paint
  have paintParent := turns_setColor (P := P) .red (d.node c t p (d.node .black below a far)) k
  rw [top_dirNode, paint_dirNode] at paintParent
  have rotate := turns_rotate (P := P) d .red .black t below far p a k
  have sibling := turns_child (P := P) d.flip (d.node .red t p below) (⟨d, .black, a, far⟩ :: k)
  rw [top_dirNode, child_flip_dirNode] at sibling
  refine color.bind ?_
  rw [if_pos rfl]
  exact paint.bind (paintParent.bind (rotate.bind sibling))

theorem turns_raiseSibling_black (d : Dir) (c : Color) (t : Tree ℕ) (p : ℕ) {w : Tree ℕ}
    (notRed : ¬ w.color = .red) (k : List (Frame ℕ)) :
    P.Turns (P.raiseSibling d p w.top) (plug t (⟨d, c, p, w⟩ :: k)) w.top (plug t (⟨d, c, p, w⟩ :: k)) := by
  have color := turns_color (P := P) w (⟨d.flip, c, p, t⟩ :: k)
  rw [plug_sibling] at color
  refine color.bind ?_
  rw [if_neg notRed]
  exact .pure _ _

/-- One round of the loop: `w` is the sibling of the focus after a red one has been raised. -/
theorem turns_removeStep {d : Dir} {c c' : Color} {t : Tree ℕ} {p : ℕ} {w w' : Tree ℕ} {k k' : List (Frame ℕ)}
    (raise : P.Turns (P.raiseSibling d p w.top) (plug t (⟨d, c, p, w⟩ :: k)) w'.top
      (plug t (⟨d, c', p, w'⟩ :: k'))) :
    (w'.blackChildren = true → P.Turns (P.removeStep d p) (plug t (⟨d, c, p, w⟩ :: k))
        (some (p, above k')) (plug (d.node c' t p (w'.paint .red)) k')) ∧
      (w'.blackChildren = false → P.Turns (P.removeStep d p) (plug t (⟨d, c, p, w⟩ :: k)) none
        (plug (removeRotate d c' t p w') k')) := by
  have sibling := turns_child (P := P) d.flip (d.node c t p w) k
  rw [top_dirNode, child_flip_dirNode] at sibling
  have both := turns_childrenBlack (P := P) d c' t p w' k'
  constructor
  · intro dark
    refine sibling.bind (raise.bind (both.bind ?_))
    rw [dark, if_pos rfl]
    exact turns_recolor d c' t p w' k'
  · intro light
    refine sibling.bind (raise.bind (both.bind ?_))
    rw [light, if_neg (by decide)]
    exact (turns_finishRemove light).bind (.pure _ _)

/-- The loop ends at the root and at a red focus. -/
theorem turns_removeLoop_exit {t : Tree ℕ} {k : List (Frame ℕ)} (done : k = [] ∨ t.color = .red) (fuel xp : ℕ) :
    P.Turns (P.removeLoop (fuel + 1) t.top xp) (plug t k) t.top (plug t k) := by
  refine (turns_getRoot _).bind ?_
  split
  · exact .pure _ _
  next notRoot =>
    refine (turns_color t k).bind ?_
    rcases done with rfl | red
    · exact (notRoot rfl).elim
    · rw [if_pos red]
      exact .pure _ _

/-- One round of the loop at a black focus below a frame. -/
theorem turns_removeLoop_round {d : Dir} {c : Color} {t : Tree ℕ} {p : ℕ} {w : Tree ℕ} {k : List (Frame ℕ)}
    {fuel : ℕ} {next : Option (ℕ × ℕ)} {w' w'' : Tree ℕ} {x : ℕ} (black : ¬ t.color = .red)
    (distinct : t.top = w.top → d = .left)
    (step : P.Turns (P.removeStep d p) (plug t (⟨d, c, p, w⟩ :: k)) next w')
    (rest : P.Turns (match next with
      | some (x, xp) => P.removeLoop fuel x xp
      | none => P.getRoot) w' x w'') :
    P.Turns (P.removeLoop (fuel + 1) t.top p) (plug t (⟨d, c, p, w⟩ :: k)) x w'' := by
  refine .of_shape fun s shape => ?_
  have left := turns_child (P := P) .left (d.node c t p w) k
  have side := dir_of_left d c p distinct
  rw [top_dirNode] at left
  refine (turns_getRoot _).bind ?_
  rw [if_neg shape.top_ne_root]
  refine (turns_color t _).bind ?_
  rw [if_neg black]
  refine left.bind ?_
  rw [side]
  exact step.bind rest

/-- A black focus below a black sibling without red children: the focus moves up. -/
theorem turns_removeLoop_recolor (d : Dir) {c : Color} {t : Tree ℕ} {p : ℕ} {w : Tree ℕ}
    {k : List (Frame ℕ)} {fuel : ℕ} {w' : Tree ℕ} {x : ℕ} (black : ¬ t.color = .red)
    (notRed : ¬ w.color = .red) (both : w.blackChildren = true)
    (rest : P.Turns (P.removeLoop fuel p (above k)) (plug (d.node c t p (w.paint .red)) k) x w') :
    P.Turns (P.removeLoop (fuel + 1) t.top p) (plug t (⟨d, c, p, w⟩ :: k)) x w' := by
  have step (d : Dir) := (turns_removeStep (turns_raiseSibling_black (P := P) d c t p notRed k)).1 both
  by_cases leaves : t = .leaf ∧ w = .leaf
  · obtain ⟨rfl, rfl⟩ := leaves
    -- both children are missing, so the source looks at the left one, wherever the focus is
    have left := turns_removeLoop_round black (fun _ => rfl) (step .left)
      (show P.Turns (P.removeLoop fuel p (above k)) (plug (Dir.left.node c .leaf p .leaf) k) x w' by
        cases d <;> exact rest)
    cases d <;> exact left
  · refine .of_shape fun s shape => turns_removeLoop_round black (fun same => ?_) (step d) rest
    by_cases missing : w = .leaf
    · exact (shape.top_ne_sibling (fun empty => leaves ⟨empty, missing⟩) same).elim
    · exact (shape.top_ne_of_sibling missing same).elim

/-- A black focus whose repair ends with rotations. -/
theorem turns_removeLoop_rotate {d : Dir} {c c' : Color} {t : Tree ℕ} {p : ℕ} {w w' : Tree ℕ}
    {k k' : List (Frame ℕ)} (fuel : ℕ) (black : ¬ t.color = .red) (present : w ≠ .leaf)
    (raise : P.Turns (P.raiseSibling d p w.top) (plug t (⟨d, c, p, w⟩ :: k)) w'.top
      (plug t (⟨d, c', p, w'⟩ :: k'))) (one : w'.blackChildren = false) :
    P.Turns (P.removeLoop (fuel + 1) t.top p) (plug t (⟨d, c, p, w⟩ :: k))
      (plug (removeRotate d c' t p w') k').top (plug (removeRotate d c' t p w') k') := by
  refine .of_shape fun s shape => ?_
  exact turns_removeLoop_round black (fun same => (shape.top_ne_of_sibling present same).elim)
    ((turns_removeStep raise).2 one) (turns_getRoot _)

/-- The loop climbs as `removeFixup` does and leaves one node to be painted black. -/
theorem turns_removeLoop {t : Tree ℕ} {k : List (Frame ℕ)} {fuel : ℕ} (enough : k.length < fuel) :
    ∃ t' k', plug (t'.paint .black) k' = RedBlack.removeFixup t k ∧
      P.Turns (P.removeLoop fuel t.top (above k)) (plug t k) t'.top (plug t' k') := by
  obtain ⟨fuel, rfl⟩ := Nat.exists_eq_succ_of_ne_zero (Nat.ne_zero_of_lt enough)
  induction t, k using RedBlack.removeFixup.induct generalizing fuel with
  | case1 t => exact ⟨t, [], rfl, turns_removeLoop_exit (.inl rfl) fuel _⟩
  | case2 t d c p w k red =>
    refine ⟨t, ⟨d, c, p, w⟩ :: k, ?_, turns_removeLoop_exit (.inr red) fuel _⟩
    rw [RedBlack.removeFixup, if_pos red]
  | case3 t d c p w k black red =>
    obtain ⟨fuel, rfl⟩ : ∃ n, fuel = n + 1 := ⟨fuel - 1, by simp only [List.length_cons] at enough; omega⟩
    cases w with
    | leaf => simp at red
    | node cw l a r =>
      obtain rfl : cw = .red := red
      have raise := turns_raiseSibling_red (P := P) d c t p ((Tree.node .red l a r).child d) a
        ((Tree.node .red l a r).child d.flip) k
      rw [← node_eq] at raise
      rw [RedBlack.removeFixup, if_neg black, Tree.color_node, if_pos rfl, removeBelowRed]
      by_cases both : ((Tree.node .red l a r).child d).blackChildren = true
      · refine ⟨d.node .red t p (((Tree.node .red l a r).child d).paint .red),
          ⟨d, .black, a, (Tree.node .red l a r).child d.flip⟩ :: k, ?_, .of_shape fun s shape => ?_⟩
        · rw [paint_dirNode, if_pos both]
        · rw [top_dirNode]
          refine turns_removeLoop_round black
            (fun same => (shape.top_ne_of_sibling (by simp) same).elim)
            ((turns_removeStep raise).1 both) ?_
          have exit := turns_removeLoop_exit (P := P) (t := d.node .red t p (((Tree.node .red l a r).child d).paint .red))
            (k := ⟨d, .black, a, (Tree.node .red l a r).child d.flip⟩ :: k) (.inr (color_dirNode ..)) fuel a
          rw [top_dirNode] at exit
          exact exit
      · refine ⟨_, [], ?_, turns_removeLoop_rotate (fuel + 1) black (by simp) raise (by simpa using both)⟩
        rw [if_neg both]
        rfl
  | case4 t d c p w k black notRed both ih =>
    obtain ⟨fuel, rfl⟩ : ∃ n, fuel = n + 1 := ⟨fuel - 1, by simp only [List.length_cons] at enough; omega⟩
    obtain ⟨t', k', same, rest⟩ := ih fuel (by simp only [List.length_cons] at enough; omega)
    rw [top_dirNode] at rest
    refine ⟨t', k', ?_, turns_removeLoop_recolor d black notRed both rest⟩
    rw [same, RedBlack.removeFixup, if_neg black, if_neg notRed, if_pos both]
  | case5 t d c p w k black notRed one =>
    have present : w ≠ .leaf := by
      rintro rfl
      exact one (by simp [Tree.blackChildren])
    refine ⟨_, [], ?_, turns_removeLoop_rotate fuel black present
      (turns_raiseSibling_black (P := P) d c t p notRed k) (by simpa using one)⟩
    rw [RedBlack.removeFixup, if_neg black, if_neg notRed, if_neg one]
    rfl

theorem turns_removeFixup (t : Tree ℕ) (k : List (Frame ℕ)) :
    P.Turns (P.removeFixup t.top (above k)) (plug t k) () (RedBlack.removeFixup t k) := by
  refine .get fun s shape => ?_
  obtain ⟨t', k', same, loop⟩ := turns_removeLoop (P := P) (t := t) (Nat.lt_succ_of_le shape.path_le_size)
  refine loop.bind (.of_shape fun s' shape' => ?_)
  rw [← same]
  cases t' with
  | leaf => exact .pure _ _
  | node c l a r =>
    rw [Exec.when, if_pos (shape'.mem_ne_zero (mem_plug.mpr (.inl (by simp))))]
    exact turns_setColor .black (.node c l a r) k'

/-! ### Removal -/

theorem turns_fixIfBlack (c : Color) (t : Tree ℕ) (k : List (Frame ℕ)) :
    P.Turns (Exec.when (c = .black) (P.removeFixup t.top (above k))) (plug t k) () (splice c t k) := by
  cases c with
  | red => exact .pure _ _
  | black => exact turns_removeFixup t k

/-- Removing a node of a stored tree removes its index. -/
theorem turns_remove (c : Color) (l : Tree ℕ) (z : ℕ) (r : Tree ℕ) (k : List (Frame ℕ)) :
    P.Turns (P.remove z) (plug (.node c l z r) k) () (removeAt c l r k) := by
  refine .of_shape fun s shape => ?_
  have z0 : z ≠ 0 := shape.parts.1.1
  have color := turns_color (P := P) (.node c l z r) k
  have left := turns_child (P := P) .left (.node c l z r) k
  have right := turns_child (P := P) .right (.node c l z r) k
  have accept : P.Turns (Exec.rejectIf (z = 0) P.sentinelRemoved) (plug (.node c l z r) k) ()
      (plug (.node c l z r) k) := by
    rw [Exec.rejectIf, if_neg z0]
    exact .pure _ _
  refine accept.bind (color.bind (left.bind (right.bind ?_)))
  rw [Tree.child_left, Tree.child_right]
  cases l with
  | leaf =>
    rw [Tree.top_leaf, if_pos rfl]
    refine (turns_spliceOut .left c z r k).bind ?_
    exact turns_fixIfBlack c r k
  | node cl ll al rl =>
    have l0 : (Tree.node cl ll al rl).top ≠ 0 := shape.parts.1.2.2.1.1
    rw [if_neg l0]
    unfold removeAt
    cases found : leftmost r [] with
    | none =>
      obtain rfl := leftmost_eq_none found
      rw [Tree.top_leaf, if_pos rfl]
      refine (turns_spliceOut .right c z (.node cl ll al rl) k).bind ?_
      exact turns_fixIfBlack c _ k
    | some opened =>
      obtain ⟨cy, y, x, path⟩ := opened
      have r0 : r.top ≠ 0 := by
        cases r with
        | leaf => simp [leftmost] at found
        | node cr lr ar rr => exact shape.parts.1.2.2.2.1
      rw [if_neg r0]
      refine .get fun s' shape' => ?_
      have short : r.toList.length ≤ P.size s' + 1 := by
        have nodes := shape'.length_le_size
        simp only [toList_plug, Tree.toList, List.length_append, List.length_cons] at nodes
        omega
      have minimum : P.Turns (P.minimum (P.size s' + 1) r.top) (plug (.node c (.node cl ll al rl) z r) k) y
          (plug (.node c (.node cl ll al rl) z r) k) :=
        .of_read fun s stored =>
          have below : P.Shape s (plug r (⟨.right, c, z, .node cl ll al rl⟩ :: k)) := stored
          run_minimum found below short
      have colorY := turns_color (P := P) (.node cy .leaf y x) (path ++ ⟨.right, c, z, .node cl ll al rl⟩ :: k)
      rw [plug_append, leftmost_plug found] at colorY
      refine minimum.bind (colorY.bind ((turns_moveSuccessor found).bind ?_))
      exact turns_fixIfBlack cy x _

end LinkedPool

end RedBlack
