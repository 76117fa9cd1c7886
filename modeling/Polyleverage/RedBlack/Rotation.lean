import Polyleverage.RedBlack.Stored

/-! # Reading, painting, rotating and replacing in a stored tree

Every program here works at an opened place of a stored tree: a subtree under its frames. The
frames above it are the same before and after.
-/

namespace RedBlack

namespace LinkedPool

variable {ε σ κ α : Type} {P : LinkedPool ε σ κ}

/-! ### One node -/

/-- `s'` is `s` with the links of node `i` replaced by `l`. -/
structure Sets (P : LinkedPool ε σ κ) (s s' : σ) (i : ℕ) (l : Links) : Prop where
  here : P.links s' i = .ok l
  off : ∀ j ≠ i, P.links s' j = P.links s j
  root : P.root s' = P.root s
  key : P.key s' = P.key s

theorem update_sets {s : σ} {i : ℕ} {l : Links} (f : Links → Links) (present : i ≠ 0)
    (linked : P.links s i = .ok l) : ∃ s', (P.update i f).run s = .ok () s' ∧ P.Sets s s' i (f l) := by
  refine ⟨P.setLinks s i (f l), ?_, ?_, ?_, P.root_setLinks s i (f l), P.key_setLinks s i (f l)⟩
  · rw [update, if_neg present, Exec.run_bind, Exec.run_gets, linked]
    rfl
  · rw [P.links_setLinks _ linked, Function.update_self]
  · intro j other
    rw [P.links_setLinks _ linked, Function.update_of_ne other]

theorem setChild_sets {s : σ} {i : ℕ} {l : Links} (d : Dir) (v : ℕ) (present : i ≠ 0)
    (linked : P.links s i = .ok l) :
    ∃ s', (P.setChild d i v).run s = .ok () s' ∧ P.Sets s s' i (l.setChild d v) :=
  update_sets _ present linked

theorem setParent_sets {s : σ} {i : ℕ} {l : Links} (v : ℕ) (present : i ≠ 0)
    (linked : P.links s i = .ok l) :
    ∃ s', (P.setParent i v).run s = .ok () s' ∧ P.Sets s s' i { l with parent := v } :=
  update_sets _ present linked

theorem setColor_sets {s : σ} {i : ℕ} {l : Links} (c : Color) (present : i ≠ 0)
    (linked : P.links s i = .ok l) :
    ∃ s', (P.setColor i c).run s = .ok () s' ∧ P.Sets s s' i { l with color := c } :=
  update_sets _ present linked

theorem run_child {s : σ} {i : ℕ} {l : Links} (d : Dir) (present : i ≠ 0)
    (linked : P.links s i = .ok l) : (P.child d i).run s = .ok (l.child d) s := by
  rw [child, if_neg present, Exec.run_gets, linked]
  rfl

theorem run_parent {s : σ} {i : ℕ} {l : Links} (present : i ≠ 0) (linked : P.links s i = .ok l) :
    (P.parent i).run s = .ok l.parent s := by
  rw [parent, if_neg present, Exec.run_gets, linked]
  rfl

theorem run_color {s : σ} {i : ℕ} {l : Links} (present : i ≠ 0) (linked : P.links s i = .ok l) :
    (P.color i).run s = .ok l.color s := by
  rw [color, if_neg present, Exec.run_gets, linked]
  rfl

theorem run_getRoot {s : σ} {r : ℕ} (root : P.root s = .ok r) : P.getRoot.run s = .ok r s := by
  rw [getRoot, Exec.run_gets, root]

theorem run_putRoot {s : σ} {r : ℕ} (v : ℕ) (root : P.root s = .ok r) :
    (P.putRoot v).run s = .ok () (P.setRoot s v) := by
  rw [putRoot, Exec.run_bind, Exec.run_gets, root]
  rfl

/-! ### Reading -/

theorem turns_child (d : Dir) (t : Tree ℕ) (k : List (Frame ℕ)) :
    P.Turns (P.child d t.top) (plug t k) (t.child d).top (plug t k) := by
  refine .of_read fun s shape => ?_
  cases t with
  | leaf => rfl
  | node c l a r =>
    obtain ⟨present, here, -⟩ := shape.parts.1
    exact (run_child d present here).trans (by cases d <;> rfl)

theorem turns_color (t : Tree ℕ) (k : List (Frame ℕ)) :
    P.Turns (P.color t.top) (plug t k) t.color (plug t k) := by
  refine .of_read fun s shape => ?_
  cases t with
  | leaf => rfl
  | node c l a r =>
    obtain ⟨present, here, -⟩ := shape.parts.1
    exact run_color present here

theorem turns_parent {t : Tree ℕ} (present : t ≠ .leaf) (k : List (Frame ℕ)) :
    P.Turns (P.parent t.top) (plug t k) (above k) (plug t k) := by
  refine .of_read fun s shape => ?_
  cases t with
  | leaf => exact (present rfl).elim
  | node c l a r =>
    obtain ⟨present, here, -⟩ := shape.parts.1
    exact run_parent present here

theorem turns_getRoot (w : Tree ℕ) : P.Turns P.getRoot w w.top w :=
  .of_read fun _ shape => run_getRoot shape.root

/-! ### Painting -/

theorem turns_setColor (c : Color) (t : Tree ℕ) (k : List (Frame ℕ)) :
    P.Turns (P.setColor t.top c) (plug t k) () (plug (t.paint c) k) := by
  have keys : (plug (t.paint c) k).toList = (plug t k).toList := toList_plug_congr k (t.toList_paint c)
  intro s shape
  cases t with
  | leaf => exact ⟨s, rfl, shape, fun _ => id, fun _ _ => rfl⟩
  | node c' l a r =>
    obtain ⟨⟨present, here, hl, hr⟩, path⟩ := shape.parts
    obtain ⟨s', ran, sets⟩ := setColor_sets c present here
    obtain ⟨inner, -, disjoint⟩ := nodup_plug.mp shape.nodup
    obtain ⟨-, -, al, ar, -⟩ := (nodup_dirNode (d := .left)).mp inner
    have apart : a ∉ pathKeys k := fun member => disjoint (by simp) member
    refine ⟨s', ran, ⟨keys ▸ shape.nodup, ?_, ?_⟩, fun i member => keys ▸ member, ?_⟩
    · refine stored_plug.mpr ⟨⟨present, sets.here, ?_, ?_⟩, path.congr ?_⟩
      · exact hl.congr fun i member => sets.off i fun same => al (same ▸ member)
      · exact hr.congr fun i member => sets.off i fun same => ar (same ▸ member)
      · exact fun i member => sets.off i fun same => apart (same ▸ member)
    · rw [sets.root, shape.root, top_plug, top_plug]
      rfl
    · intro i outside
      refine sets.off i fun same => outside (mem_plug.mpr (.inl ?_))
      simp [same]

/-! ### Hanging a subtree in another place -/

/-- A subtree is told the node above it. -/
theorem run_adopt {s : σ} {t : Tree ℕ} {p : ℕ} (q : ℕ) (stored : Stored (P.links s) p t)
    (nodup : t.toList.Nodup) :
    ∃ s', (Exec.when (t.top ≠ 0) (P.setParent t.top q)).run s = .ok () s' ∧
      Stored (P.links s') q t ∧ (∀ i ∉ t.toList, P.links s' i = P.links s i) ∧ P.root s' = P.root s := by
  cases t with
  | leaf => exact ⟨s, rfl, trivial, fun _ _ => rfl, rfl⟩
  | node c l a r =>
    have linked := stored.2.1
    obtain ⟨s', ran, sets⟩ := setParent_sets q stored.1 linked
    refine ⟨s', ?_, stored.reparent nodup ?_ ?_, ?_, sets.root⟩
    · rw [Exec.run_when, Tree.top_node, if_pos stored.1]
      exact ran
    · exact fun i _ other => sets.off i other
    · intro l _ same
      obtain rfl := Except.ok.inj (linked.symm.trans same)
      exact sets.here
    · intro i outside
      exact sets.off i fun same => outside (by simp [same])

/-- The frames, or the root, are told what fills their hole. -/
theorem run_relink {s : σ} {k : List (Frame ℕ)} {x : ℕ} (d : Dir) (y : ℕ)
    (path : StoredPath (P.links s) x k) (root : P.root s = .ok (rootOf x k)) (nodup : (pathKeys k).Nodup)
    (present : x ≠ 0) (apart : x ∉ pathKeys k) :
    ∃ s', (P.relink d (above k) x y).run s = .ok () s' ∧ StoredPath (P.links s') y k ∧
      P.root s' = .ok (rootOf y k) ∧ ∀ i ∉ pathKeys k, P.links s' i = P.links s i := by
  cases k with
  | nil =>
    refine ⟨P.setRoot s y, run_putRoot y root, trivial, P.root_setRoot y root, fun i _ => ?_⟩
    rw [P.links_setRoot]
  | cons f k =>
    obtain ⟨above0, here, sibling, rest⟩ := path
    have other : f.sibling.top ≠ x := fun same =>
      apart (mem_pathKeys_cons.mpr (.inr (.inl (same ▸ Tree.top_mem (same.symm ▸ present)))))
    obtain ⟨s', ran, sets⟩ := setChild_sets f.dir y above0 here
    refine ⟨s', ?_, ?_, ?_, ?_⟩
    · rw [relink, above_cons, if_neg above0, Exec.run_bind_of_ok (run_child d above0 here)]
      by_cases same : d = f.dir
      · rw [same, child_links, if_pos rfl]
        exact ran
      · obtain rfl : d = f.dir.flip := by
          cases d <;> cases way : f.dir <;> simp_all
        rw [child_flip_links, if_neg other, Dir.flip_flip]
        exact ran
    · refine StoredPath.refill (x := x) ⟨above0, here, sibling, rest⟩ nodup (fun i _ => sets.off i) ?_
      intro f' k' same
      obtain ⟨rfl, rfl⟩ := List.cons.inj same
      rw [sets.here, setChild_links]
    · rw [sets.root, root]
      rfl
    · intro i outside
      exact sets.off i fun same => outside (mem_pathKeys_cons.mpr (.inl same))

/-! ### Rotation -/

theorem run_checkChild {s : σ} {y : ℕ} (present : y ≠ 0) : (P.checkChild y).run s = .ok () s := by
  unfold checkChild
  split
  · rw [Exec.run_rejectIf, if_neg present]
  · rfl

theorem toList_rotate (d : Dir) (c c' : Color) (A B C : Tree α) (a b : α) :
    (d.node c' (d.node c A a B) b C).toList = (d.node c A a (d.node c' B b C)).toList := by
  cases d <;> simp

theorem turns_rotate (d : Dir) (c c' : Color) (A B C : Tree ℕ) (a b : ℕ) (k : List (Frame ℕ)) :
    P.Turns (P.rotate d a) (plug (d.node c A a (d.node c' B b C)) k) ()
      (plug (d.node c' (d.node c A a B) b C) k) := by
  have keys := toList_plug_congr k (toList_rotate d c c' A B C a b)
  intro s shape
  obtain ⟨focus, path⟩ := shape.parts
  obtain ⟨a0, la, sA, below⟩ := stored_dirNode.mp focus
  obtain ⟨b0, lb, sB, sC⟩ := stored_dirNode.mp below
  have root := shape.root
  obtain ⟨nodup, kNodup, disjoint⟩ := nodup_plug.mp shape.nodup
  obtain ⟨-, nodup', aA, aBC, ABC⟩ := nodup_dirNode.mp nodup
  obtain ⟨bNodup, -, bB, bC, BC⟩ := nodup_dirNode.mp nodup'
  have ab : a ≠ b := fun same => aBC (mem_dirNode.mpr (.inr (.inl same)))
  have aB : a ∉ B.toList := fun member => aBC (mem_dirNode.mpr (.inl member))
  have aC : a ∉ C.toList := fun member => aBC (mem_dirNode.mpr (.inr (.inr member)))
  have bA : b ∉ A.toList := fun member => ABC member (mem_dirNode.mpr (.inr (.inl rfl)))
  have AB : ∀ i ∈ A.toList, i ∉ B.toList := fun i inA inB => ABC inA (mem_dirNode.mpr (.inl inB))
  have offPath : ∀ i ∈ (d.node c A a (d.node c' B b C)).toList, i ∉ pathKeys k := fun i => @disjoint i
  have ak : a ∉ pathKeys k := offPath a (mem_dirNode.mpr (.inr (.inl rfl)))
  have bk : b ∉ pathKeys k := offPath b (mem_dirNode.mpr (.inr (.inr (mem_dirNode.mpr (.inr (.inl rfl))))))
  have Ak : ∀ i ∈ A.toList, i ∉ pathKeys k := fun i inA => offPath i (mem_dirNode.mpr (.inl inA))
  have Bk : ∀ i ∈ B.toList, i ∉ pathKeys k := fun i inB =>
    offPath i (mem_dirNode.mpr (.inr (.inr (mem_dirNode.mpr (.inl inB)))))
  have Ck : ∀ i ∈ C.toList, i ∉ pathKeys k := fun i inC =>
    offPath i (mem_dirNode.mpr (.inr (.inr (mem_dirNode.mpr (.inr (.inr inC))))))
  -- the six writes of the rotation, in order
  obtain ⟨s1, ran1, sets1⟩ := setChild_sets d.flip B.top a0 la
  have sB1 : Stored (P.links s1) b B := sB.congr fun i inB => sets1.off i fun same => aB (same ▸ inB)
  obtain ⟨s2, ran2, sB2, off2, root2⟩ := run_adopt a sB1 bNodup
  have la2 : P.links s2 a = .ok (d.links c A.top B.top (above k)) := by
    rw [off2 a aB, sets1.here, setChild_flip_links]
  have lb2 : P.links s2 b = .ok (d.links c' B.top C.top a) := by
    rw [off2 b bB, sets1.off b ab.symm, lb]
  obtain ⟨s3, ran3, sets3⟩ := setParent_sets (above k) b0 lb2
  rw [setParent_links] at sets3
  have off3 : ∀ i ∈ pathKeys k, P.links s3 i = P.links s i := fun i inK => by
    rw [sets3.off i fun same => bk (same ▸ inK), off2 i fun inB => Bk i inB inK,
      sets1.off i fun same => ak (same ▸ inK)]
  have root3 : P.root s3 = .ok (rootOf a k) := by
    rw [sets3.root, root2, sets1.root, root, top_plug, top_dirNode]
  have path3 : StoredPath (P.links s3) a k := (top_dirNode (d := d) .. ▸ path).congr off3
  obtain ⟨s4, ran4, path4, root4, off4⟩ := run_relink d b path3 root3 kNodup a0 ak
  have lb4 : P.links s4 b = .ok (d.links c' B.top C.top (above k)) := by rw [off4 b bk, sets3.here]
  obtain ⟨s5, ran5, sets5⟩ := setChild_sets d a b0 lb4
  rw [setChild_links] at sets5
  have la5 : P.links s5 a = .ok (d.links c A.top B.top (above k)) := by
    rw [sets5.off a ab, off4 a ak, sets3.off a ab, la2]
  obtain ⟨s6, ran6, sets6⟩ := setParent_sets b a0 la5
  rw [setParent_links] at sets6
  have off6 : ∀ i, i ≠ a → i ≠ b → i ∉ pathKeys k → P.links s6 i = P.links s2 i := fun i ia ib ik => by
    rw [sets6.off i ia, sets5.off i ib, off4 i ik, sets3.off i ib]
  refine ⟨s6, ?_, ⟨keys ▸ shape.nodup, stored_plug.mpr ⟨?_, ?_⟩, ?_⟩, fun i member => keys ▸ member, ?_⟩
  · have childA : (P.child d.flip a).run s = .ok b s := by
      rw [run_child d.flip a0 la, child_flip_links, top_dirNode]
    have childB : (P.child d b).run s = .ok B.top s := by rw [run_child d b0 lb, child_links]
    rw [rotate, Exec.run_bind_of_ok childA, Exec.run_bind_of_ok (run_checkChild b0),
      Exec.run_bind_of_ok childB, Exec.run_bind_of_ok ran1, Exec.run_bind_of_ok ran2,
      Exec.run_bind_of_ok (run_parent a0 la2), parent_links, Exec.run_bind_of_ok ran3,
      Exec.run_bind_of_ok ran4, Exec.run_bind_of_ok ran5]
    exact ran6
  · refine stored_dirNode.mpr ⟨b0, ?_, stored_dirNode.mpr ⟨a0, sets6.here, ?_, ?_⟩, ?_⟩
    · rw [sets6.off b ab.symm, sets5.here, top_dirNode]
    · refine sA.congr fun i inA => ?_
      have ia : i ≠ a := fun same => aA (same ▸ inA)
      rw [off6 i ia (fun same => bA (same ▸ inA)) (Ak i inA), off2 i (AB i inA), sets1.off i ia]
    · exact sB2.congr fun i inB =>
        off6 i (fun same => aB (same ▸ inB)) (fun same => bB (same ▸ inB)) (Bk i inB)
    · refine sC.congr fun i inC => ?_
      have ia : i ≠ a := fun same => aC (same ▸ inC)
      rw [off6 i ia (fun same => bC (same ▸ inC)) (Ck i inC), off2 i fun inB => BC inB inC, sets1.off i ia]
  · rw [top_dirNode]
    refine path4.congr fun i inK => ?_
    rw [sets6.off i fun same => ak (same ▸ inK), sets5.off i fun same => bk (same ▸ inK)]
  · rw [sets6.root, sets5.root, root4, top_plug, top_dirNode]
  · intro i outside
    have inner : i ∉ (d.node c A a (d.node c' B b C)).toList := fun inside =>
      outside (mem_plug.mpr (.inl inside))
    simp only [mem_dirNode, not_or] at inner
    rw [off6 i inner.2.1 inner.2.2.2.1 fun inK => outside (mem_plug.mpr (.inr inK)),
      off2 i inner.2.2.1, sets1.off i inner.2.1]

end LinkedPool

end RedBlack
