import Polyleverage.RedBlack.Linked
import Mathlib.Data.List.Nodup
import Mathlib.Tactic.Tauto

/-! # Trees in linked storage

`Stored L p t` says that the links `L` lay out the tree `t` below the node `p`, and `StoredPath`
says the same of the frames around a hole. A pool in the shape of a whole tree stores it below the
sentinel with the root in place. `Turns` composes programs by the trees they turn into each other.
-/

namespace RedBlack

variable {ε σ κ α : Type}

/-- The index of the root; the sentinel when there is none. -/
def Tree.top : Tree ℕ → ℕ
  | leaf => 0
  | node _ _ a _ => a

@[simp] theorem Tree.top_leaf : (Tree.leaf : Tree ℕ).top = 0 := rfl

@[simp] theorem Tree.top_node (c : Color) (l : Tree ℕ) (a : ℕ) (r : Tree ℕ) :
    (Tree.node c l a r).top = a := rfl

@[simp] theorem top_dirNode (d : Dir) (c : Color) (near : Tree ℕ) (a : ℕ) (far : Tree ℕ) :
    (d.node c near a far).top = a := by cases d <;> rfl

theorem Tree.top_mem {t : Tree ℕ} (present : t.top ≠ 0) : t.top ∈ t.toList := by
  cases t with
  | leaf => exact absurd rfl present
  | node c l a r => simp

@[simp] theorem Tree.top_paint (c : Color) (t : Tree ℕ) : (t.paint c).top = t.top := by
  cases t <;> rfl

/-- The node above a hole; the sentinel above the root. -/
def above : List (Frame ℕ) → ℕ
  | [] => 0
  | f :: _ => f.key

@[simp] theorem above_nil : above [] = 0 := rfl

@[simp] theorem above_cons (f : Frame ℕ) (k : List (Frame ℕ)) : above (f :: k) = f.key := rfl

/-- The root of what fills the hole with a tree whose root is `hole`. -/
def rootOf : ℕ → List (Frame ℕ) → ℕ
  | hole, [] => hole
  | _, f :: k => rootOf f.key k

theorem top_plug (t : Tree ℕ) (k : List (Frame ℕ)) : (plug t k).top = rootOf t.top k := by
  induction k generalizing t with
  | nil => rfl
  | cons f k ih => simp [plug, ih, rootOf, Frame.fill]

/-- The keys of the frames and their siblings. -/
def pathKeys (k : List (Frame α)) : List α := keysBefore k ++ keysAfter k

theorem length_le_pathKeys (k : List (Frame α)) : k.length ≤ (pathKeys k).length := by
  induction k with
  | nil => simp
  | cons f k ih =>
    obtain ⟨d, c, a, s⟩ := f
    cases d <;> simp [pathKeys] at ih ⊢ <;> omega

section Members

theorem mem_dirNode {d : Dir} {c : Color} {near far : Tree α} {a x : α} :
    x ∈ (d.node c near a far).toList ↔ x ∈ near.toList ∨ x = a ∨ x ∈ far.toList := by
  cases d
  · simp
  · simp only [Dir.node_right, Tree.toList, List.mem_append, List.mem_cons]
    tauto

theorem nodup_dirNode {d : Dir} {c : Color} {near far : Tree α} {a : α} :
    (d.node c near a far).toList.Nodup ↔ near.toList.Nodup ∧ far.toList.Nodup ∧
      a ∉ near.toList ∧ a ∉ far.toList ∧ List.Disjoint near.toList far.toList := by
  cases d
  · simp only [Dir.node_left, Tree.toList, List.nodup_append', List.nodup_cons, List.disjoint_cons_right]
    tauto
  · simp only [Dir.node_right, Tree.toList, List.nodup_append', List.nodup_cons, List.disjoint_cons_left,
      @List.disjoint_comm _ far.toList]
    tauto

theorem mem_pathKeys_cons {f : Frame α} {k : List (Frame α)} {x : α} :
    x ∈ pathKeys (f :: k) ↔ x = f.key ∨ x ∈ f.sibling.toList ∨ x ∈ pathKeys k := by
  obtain ⟨d, c, a, s⟩ := f
  cases d <;> simp only [pathKeys, keysBefore, keysAfter, List.mem_append, List.mem_cons,
    List.not_mem_nil, List.cons_append] <;> tauto

theorem mem_pathKeys_append {k k' : List (Frame α)} {x : α} :
    x ∈ pathKeys (k ++ k') ↔ x ∈ pathKeys k ∨ x ∈ pathKeys k' := by
  induction k with
  | nil => simp [pathKeys]
  | cons f k ih =>
    rw [List.cons_append, mem_pathKeys_cons, mem_pathKeys_cons, ih]
    tauto

theorem mem_plug {t : Tree α} {k : List (Frame α)} {x : α} :
    x ∈ (plug t k).toList ↔ x ∈ t.toList ∨ x ∈ pathKeys k := by
  simp only [toList_plug, pathKeys, List.mem_append]
  tauto

theorem nodup_plug {t : Tree α} {k : List (Frame α)} :
    (plug t k).toList.Nodup ↔ t.toList.Nodup ∧ (pathKeys k).Nodup ∧ List.Disjoint t.toList (pathKeys k) := by
  have moved : List.Perm (plug t k).toList (t.toList ++ pathKeys k) := by
    rw [toList_plug, pathKeys, ← List.append_assoc, ← List.append_assoc]
    exact List.perm_append_comm.append_right _
  rw [moved.nodup_iff, List.nodup_append']

theorem nodup_pathKeys_cons {f : Frame α} {k : List (Frame α)} :
    (pathKeys (f :: k)).Nodup ↔ f.sibling.toList.Nodup ∧ (pathKeys k).Nodup ∧
      f.key ∉ f.sibling.toList ∧ f.key ∉ pathKeys k ∧ List.Disjoint f.sibling.toList (pathKeys k) := by
  have filled := nodup_plug (t := f.fill .leaf) (k := k)
  have opened := nodup_plug (t := .leaf) (k := f :: k)
  rw [plug] at opened
  rw [opened] at filled
  simp only [Tree.toList, List.nodup_nil, List.disjoint_nil_left, and_true, true_and, Frame.fill,
    nodup_dirNode, List.not_mem_nil, not_false_eq_true] at filled
  rw [filled]
  have disjoint : List.Disjoint (f.dir.node f.color .leaf f.key f.sibling).toList (pathKeys k) ↔
      f.key ∉ pathKeys k ∧ List.Disjoint f.sibling.toList (pathKeys k) := by
    simp only [List.Disjoint, mem_dirNode, Tree.toList, List.not_mem_nil, false_or]
    constructor
    · exact fun apart => ⟨apart (.inl rfl), fun x inside => apart (.inr inside)⟩
    · rintro ⟨key, rest⟩ x (rfl | inside)
      · exact key
      · exact rest inside
  rw [disjoint]
  tauto

end Members

/-- A child is on the left exactly when the left child is it. -/
theorem dir_of_left (d : Dir) (c : Color) {near far : Tree ℕ} (a : ℕ)
    (distinct : near.top = far.top → d = .left) :
    (if near.top = ((d.node c near a far).child .left).top then Dir.left else .right) = d := by
  cases d
  · simp
  · have other : near.top ≠ far.top := fun same => nomatch distinct same
    simp [other]

theorem rootOf_mem (f : Frame ℕ) (k : List (Frame ℕ)) : rootOf f.key k ∈ pathKeys (f :: k) := by
  induction k generalizing f with
  | nil => exact mem_pathKeys_cons.mpr (.inl rfl)
  | cons g k ih => exact mem_pathKeys_cons.mpr (.inr (.inr (ih g)))

section Links

variable (d : Dir) (c c' : Color) (near far p v : ℕ)

@[simp] theorem child_links : (d.links c near far p).child d = near := by cases d <;> rfl

@[simp] theorem child_flip_links : (d.links c near far p).child d.flip = far := by cases d <;> rfl

@[simp] theorem color_links : (d.links c near far p).color = c := by cases d <;> rfl

@[simp] theorem parent_links : (d.links c near far p).parent = p := by cases d <;> rfl

@[simp] theorem setChild_links : (d.links c near far p).setChild d v = d.links c v far p := by
  cases d <;> rfl

@[simp] theorem setChild_flip_links : (d.links c near far p).setChild d.flip v = d.links c near v p := by
  cases d <;> rfl

@[simp] theorem setParent_links :
    { d.links c near far p with parent := v } = d.links c near far v := by cases d <;> rfl

@[simp] theorem setColor_links :
    { d.links c near far p with color := c' } = d.links c' near far p := by cases d <;> rfl

end Links

/-- The links lay out the tree below the node `p`. -/
def Stored (L : ℕ → Except ε Links) : ℕ → Tree ℕ → Prop
  | _, .leaf => True
  | p, .node c l a r => a ≠ 0 ∧ L a = .ok ⟨c, l.top, r.top, p⟩ ∧ Stored L a l ∧ Stored L a r

/-- The links lay out the frames around a hole filled by `hole`. -/
def StoredPath (L : ℕ → Except ε Links) : ℕ → List (Frame ℕ) → Prop
  | _, [] => True
  | hole, f :: k => f.key ≠ 0 ∧ L f.key = .ok (f.dir.links f.color hole f.sibling.top (above k)) ∧
      Stored L f.key f.sibling ∧ StoredPath L f.key k

section Layout

variable {L L' : ℕ → Except ε Links}

theorem stored_dirNode {d : Dir} {c : Color} {near far : Tree ℕ} {a p : ℕ} :
    Stored L p (d.node c near a far) ↔
      a ≠ 0 ∧ L a = .ok (d.links c near.top far.top p) ∧ Stored L a near ∧ Stored L a far := by
  cases d
  · rfl
  · simp only [Dir.node_right, Stored, Dir.links]
    tauto

theorem stored_plug {t : Tree ℕ} {k : List (Frame ℕ)} :
    Stored L 0 (plug t k) ↔ Stored L (above k) t ∧ StoredPath L t.top k := by
  induction k generalizing t with
  | nil => simp [StoredPath]
  | cons f k ih =>
    rw [plug, ih, Frame.fill, stored_dirNode]
    simp only [StoredPath, above_cons, top_dirNode]
    tauto

theorem Stored.mem_ne_zero {t : Tree ℕ} {p i : ℕ} (stored : Stored L p t) (member : i ∈ t.toList) :
    i ≠ 0 := by
  induction t generalizing p with
  | leaf => simp at member
  | node c l a r ihl ihr =>
    obtain ⟨present, -, hl, hr⟩ := stored
    rcases List.mem_append.mp member with inside | inside
    · exact ihl hl inside
    · rcases List.mem_cons.mp inside with rfl | inside
      · exact present
      · exact ihr hr inside

theorem Stored.links_ok {t : Tree ℕ} {p i : ℕ} (stored : Stored L p t) (member : i ∈ t.toList) :
    ∃ l, L i = .ok l := by
  induction t generalizing p with
  | leaf => simp at member
  | node c l a r ihl ihr =>
    obtain ⟨-, here, hl, hr⟩ := stored
    rcases List.mem_append.mp member with inside | inside
    · exact ihl hl inside
    · rcases List.mem_cons.mp inside with rfl | inside
      · exact ⟨_, here⟩
      · exact ihr hr inside

/-- The layout of a tree depends on the links of its own nodes only. -/
theorem Stored.congr {t : Tree ℕ} {p : ℕ} (stored : Stored L p t)
    (same : ∀ i ∈ t.toList, L' i = L i) : Stored L' p t := by
  induction t generalizing p with
  | leaf => trivial
  | node c l a r ihl ihr =>
    obtain ⟨present, here, hl, hr⟩ := stored
    refine ⟨present, (same a (by simp)).trans here, ihl hl ?_, ihr hr ?_⟩
    · exact fun i member => same i (by simp [member])
    · exact fun i member => same i (by simp [member])

theorem StoredPath.congr {k : List (Frame ℕ)} {hole : ℕ} (stored : StoredPath L hole k)
    (same : ∀ i ∈ pathKeys k, L' i = L i) : StoredPath L' hole k := by
  induction k generalizing hole with
  | nil => trivial
  | cons f k ih =>
    obtain ⟨present, here, sibling, rest⟩ := stored
    refine ⟨present, (same _ (mem_pathKeys_cons.mpr (.inl rfl))).trans here, sibling.congr ?_, ih rest ?_⟩
    · exact fun i member => same i (mem_pathKeys_cons.mpr (.inr (.inl member)))
    · exact fun i member => same i (mem_pathKeys_cons.mpr (.inr (.inr member)))

/-- Only the root of a tree knows the node above. -/
theorem Stored.reparent {t : Tree ℕ} {p q : ℕ} (stored : Stored L p t) (nodup : t.toList.Nodup)
    (off : ∀ i ∈ t.toList, i ≠ t.top → L' i = L i)
    (top : ∀ l, t.top ≠ 0 → L t.top = .ok l → L' t.top = .ok { l with parent := q }) : Stored L' q t := by
  cases t with
  | leaf => trivial
  | node c l a r =>
    obtain ⟨present, here, hl, hr⟩ := stored
    obtain ⟨-, -, al, ar, -⟩ := (nodup_dirNode (d := .left)).mp nodup
    simp only [Tree.top_node] at off top
    refine ⟨present, top _ present here, hl.congr ?_, hr.congr ?_⟩
    · intro i member
      exact off i (by simp [member]) (fun same => al (same ▸ member))
    · intro i member
      exact off i (by simp [member]) (fun same => ar (same ▸ member))

/-- Only the first frame knows what fills the hole. -/
theorem StoredPath.refill {k : List (Frame ℕ)} {x y : ℕ} (stored : StoredPath L x k)
    (nodup : (pathKeys k).Nodup) (off : ∀ i ∈ pathKeys k, i ≠ above k → L' i = L i)
    (first : ∀ f k', k = f :: k' →
      L' f.key = .ok (f.dir.links f.color y f.sibling.top (above k'))) : StoredPath L' y k := by
  cases k with
  | nil => trivial
  | cons f k =>
    obtain ⟨present, -, sibling, rest⟩ := stored
    obtain ⟨-, -, inside, outside, -⟩ := nodup_pathKeys_cons.mp nodup
    simp only [above_cons] at off
    refine ⟨present, first f k rfl, sibling.congr ?_, rest.congr ?_⟩
    · intro i member
      exact off i (mem_pathKeys_cons.mpr (.inr (.inl member))) (fun same => inside (same ▸ member))
    · intro i member
      exact off i (mem_pathKeys_cons.mpr (.inr (.inr member))) (fun same => outside (same ▸ member))

end Layout

namespace LinkedPool

variable (P : LinkedPool ε σ κ)

/-- The state holds exactly this tree: below the sentinel, with distinct nodes and the root in place. -/
structure Shape (s : σ) (w : Tree ℕ) : Prop where
  nodup : w.toList.Nodup
  stored : Stored (P.links s) 0 w
  root : P.root s = .ok w.top

/-- In every state of shape `w` the program returns `a` in a state of shape `w'`, uses no other nodes
and leaves the links of all others alone. -/
def Turns (m : Exec ε σ α) (w : Tree ℕ) (a : α) (w' : Tree ℕ) : Prop :=
  ∀ s, P.Shape s w → ∃ s', m.run s = .ok a s' ∧ P.Shape s' w' ∧
    (∀ i ∈ w'.toList, i ∈ w.toList) ∧ ∀ i ∉ w.toList, P.links s' i = P.links s i

variable {P}

theorem Turns.pure (a : α) (w : Tree ℕ) : P.Turns (pure a) w a w :=
  fun s shape => ⟨s, rfl, shape, fun _ => id, fun _ _ => rfl⟩

theorem Turns.bind {β : Type} {m : Exec ε σ α} {f : α → Exec ε σ β} {w w' w'' : Tree ℕ} {a : α} {b : β}
    (first : P.Turns m w a w') (next : P.Turns (f a) w' b w'') : P.Turns (m >>= f) w b w'' := by
  intro s shape
  obtain ⟨u, ran, between, sub, off⟩ := first s shape
  obtain ⟨t, ran', after, sub', off'⟩ := next u between
  refine ⟨t, (Exec.run_bind_of_ok ran).trans ran', after, fun i member => sub i (sub' i member), ?_⟩
  intro i outside
  exact (off' i (fun member => outside (sub i member))).trans (off i outside)

/-- A program that only looks. -/
theorem Turns.of_read {m : Exec ε σ α} {w : Tree ℕ} {a : α}
    (reads : ∀ s, P.Shape s w → m.run s = .ok a s) : P.Turns m w a w :=
  fun s shape => ⟨s, reads s shape, shape, fun _ => id, fun _ _ => rfl⟩

/-- What a program does may be shown from the shape it starts in. -/
theorem Turns.of_shape {m : Exec ε σ α} {w w' : Tree ℕ} {a : α}
    (turns : ∀ s, P.Shape s w → P.Turns m w a w') : P.Turns m w a w' :=
  fun s shape => turns s shape s shape

theorem Turns.get {f : σ → Exec ε σ α} {w w' : Tree ℕ} {a : α}
    (turns : ∀ s, P.Shape s w → P.Turns (f s) w a w') : P.Turns (Exec.get >>= f) w a w' :=
  fun s shape => turns s shape s shape

theorem Shape.parts {s : σ} {t : Tree ℕ} {k : List (Frame ℕ)} (shape : P.Shape s (plug t k)) :
    Stored (P.links s) (above k) t ∧ StoredPath (P.links s) t.top k :=
  stored_plug.mp shape.stored

theorem Shape.mem_ne_zero {s : σ} {w : Tree ℕ} (shape : P.Shape s w) {i : ℕ} (member : i ∈ w.toList) :
    i ≠ 0 := shape.stored.mem_ne_zero member

theorem Shape.top_eq_zero {s : σ} {w : Tree ℕ} (shape : P.Shape s w) : w.top = 0 ↔ w = .leaf := by
  cases w with
  | leaf => simp
  | node c l a r => simpa using shape.mem_ne_zero (by simp)

/-- A subtree and its sibling have different roots. -/
theorem Shape.top_ne_sibling {s : σ} {t : Tree ℕ} {f : Frame ℕ} {k : List (Frame ℕ)}
    (shape : P.Shape s (plug t (f :: k))) (present : t ≠ .leaf) : t.top ≠ f.sibling.top := by
  intro same
  have member : t.top ∈ t.toList := by
    cases t with
    | leaf => exact (present rfl).elim
    | node c l a r => simp
  have t0 := shape.mem_ne_zero (mem_plug.mpr (.inl member))
  refine (nodup_plug.mp shape.nodup).2.2 member (mem_pathKeys_cons.mpr (.inr (.inl ?_)))
  exact same ▸ Tree.top_mem (same ▸ t0)

theorem Shape.top_ne_of_sibling {s : σ} {t : Tree ℕ} {f : Frame ℕ} {k : List (Frame ℕ)}
    (shape : P.Shape s (plug t (f :: k))) (sibling : f.sibling ≠ .leaf) : t.top ≠ f.sibling.top := by
  cases t with
  | leaf =>
    intro same
    cases siblingTree : f.sibling with
    | leaf => exact sibling siblingTree
    | node c l a r =>
      have member : a ∈ pathKeys (f :: k) := mem_pathKeys_cons.mpr (.inr (.inl (by simp [siblingTree])))
      exact shape.mem_ne_zero (mem_plug.mpr (.inr member)) (by simpa [siblingTree] using same.symm)
  | node c l a r => exact shape.top_ne_sibling (by simp)

/-- A focus with a frame above it is not the root. -/
theorem Shape.top_ne_root {s : σ} {t : Tree ℕ} {f : Frame ℕ} {k : List (Frame ℕ)}
    (shape : P.Shape s (plug t (f :: k))) : t.top ≠ (plug t (f :: k)).top := by
  have inPath := rootOf_mem f k
  have root : (plug t (f :: k)).top = rootOf f.key k := top_plug t (f :: k)
  have root0 := shape.mem_ne_zero (mem_plug.mpr (.inr inPath))
  rw [root]
  intro same
  exact (nodup_plug.mp shape.nodup).2.2 (same ▸ Tree.top_mem (same.symm ▸ root0)) inPath

/-- Writes outside a stored tree leave it stored. -/
theorem Shape.frame {s s' : σ} {w : Tree ℕ} (shape : P.Shape s w)
    (same : ∀ i ∈ w.toList, P.links s' i = P.links s i) (root : P.root s' = P.root s) : P.Shape s' w :=
  ⟨shape.nodup, shape.stored.congr same, root.trans shape.root⟩

/-- A stored tree has fewer nodes than its pool has slots, or none. -/
theorem Shape.length_le_size {s : σ} {w : Tree ℕ} (shape : P.Shape s w) : w.toList.length ≤ P.size s := by
  have bounded : w.toList ⊆ List.range (P.size s) := by
    intro i member
    obtain ⟨l, linked⟩ := shape.stored.links_ok member
    exact List.mem_range.mpr (P.lt_size linked)
  simpa using (List.subperm_of_subset shape.nodup bounded).length_le

/-- A path in a stored tree is no longer than the pool. -/
theorem Shape.path_le_size {s : σ} {t : Tree ℕ} {k : List (Frame ℕ)} (shape : P.Shape s (plug t k)) :
    k.length ≤ P.size s := by
  have nodes := shape.length_le_size
  have frames := length_le_pathKeys k
  rw [toList_plug] at nodes
  simp only [pathKeys, List.length_append] at nodes frames
  omega

end LinkedPool

end RedBlack
