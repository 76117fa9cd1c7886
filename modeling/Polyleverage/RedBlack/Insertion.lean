import Polyleverage.RedBlack.Rotation

/-! # Insertion into a linked tree

The insertion loop climbs as `insertFixup` does on trees, and the descent ends at the hole that
`insertPath` opens. Together, inserting a linked node turns a stored tree into the tree with its
index inserted.
-/

namespace RedBlack

namespace LinkedPool

variable {ε σ κ α : Type} {P : LinkedPool ε σ κ}

/-! ### The loop -/

/-- The last turn of the loop: the red parent of `X` and its black parent change colors and places. -/
theorem turns_rotateUp (d : Dir) (c cg : Color) {X : Tree ℕ} (present : X ≠ .leaf) (q : ℕ) (Y : Tree ℕ)
    (g : ℕ) (u : Tree ℕ) (k : List (Frame ℕ)) :
    P.Turns (do
        let p ← P.parent X.top
        let gp ← P.parent p
        P.setColor p .black
        P.setColor gp .red
        P.rotate d.flip gp
        pure X.top)
      (plug X (⟨d, c, q, Y⟩ :: ⟨d, cg, g, u⟩ :: k)) X.top
      (plug X (⟨d, .black, q, d.node .red Y g u⟩ :: k)) := by
  have top (c : Color) : (d.node c X q Y).top = q := top_dirNode ..
  have top' (c c' : Color) : (d.node c (d.node c' X q Y) g u).top = g := top_dirNode ..
  have node (c : Color) : d.node c X q Y ≠ .leaf := by cases d <;> simp
  refine (turns_parent present _).bind ?_
  have grand := turns_parent (P := P) (node c) (⟨d, cg, g, u⟩ :: k)
  rw [top] at grand
  refine grand.bind ?_
  have paint := turns_setColor (P := P) .black (d.node c X q Y) (⟨d, cg, g, u⟩ :: k)
  rw [top, paint_dirNode] at paint
  refine paint.bind ?_
  have paint' := turns_setColor (P := P) .red (d.node cg (d.node .black X q Y) g u) k
  rw [top', paint_dirNode] at paint'
  refine paint'.bind ?_
  have rotate := turns_rotate (P := P) d.flip .red .black u Y X g q k
  simp only [node_flip] at rotate
  exact rotate.bind (.pure _ _)

theorem turns_turnOutward_outer (d : Dir) (c : Color) (t : Tree ℕ) (p : ℕ) (s : Tree ℕ)
    (k : List (Frame ℕ)) (distinct : t.top ≠ s.top) :
    P.Turns (P.turnOutward d t.top p) (plug t (⟨d, c, p, s⟩ :: k)) t.top (plug t (⟨d, c, p, s⟩ :: k)) := by
  have read := turns_child (P := P) d.flip (d.node c t p s) k
  rw [top_dirNode, child_flip_dirNode] at read
  refine read.bind ?_
  rw [if_neg distinct]
  exact .pure _ _

theorem turns_turnOutward_inner (d : Dir) (c ct : Color) (n : Tree ℕ) (z : ℕ) (f : Tree ℕ) (p : ℕ)
    (s : Tree ℕ) (k : List (Frame ℕ)) :
    P.Turns (P.turnOutward d z p) (plug (d.node ct n z f) (⟨d.flip, c, p, s⟩ :: k)) p
      (plug (d.node c s p n) (⟨d, ct, z, f⟩ :: k)) := by
  have read := turns_child (P := P) d.flip (d.node c s p (d.node ct n z f)) k
  rw [top_dirNode, child_flip_dirNode, top_dirNode] at read
  have rotate := turns_rotate (P := P) d c ct s n f p z k
  rw [plug, Frame.fill, node_flip]
  refine read.bind ?_
  rw [if_pos rfl]
  exact rotate.bind (.pure _ _)

/-- One round below a red uncle: three nodes change color and the loop goes on two levels up. -/
theorem turns_insertStep_recolor (d d' : Dir) (cg : Color) (t : Tree ℕ) (p : ℕ) (s : Tree ℕ) (g : ℕ)
    {u : Tree ℕ} (uncle : u.color = .red) (k : List (Frame ℕ)) :
    P.Turns (P.insertStep d' t.top p g) (plug t (⟨d, .red, p, s⟩ :: ⟨d', cg, g, u⟩ :: k)) g
      (plug (d'.node .red (d.node .black t p s) g (u.paint .black)) k) := by
  refine .of_shape fun st shape => ?_
  have present : u.top ≠ 0 := by
    refine shape.mem_ne_zero (mem_plug.mpr (.inr (mem_pathKeys_cons.mpr (.inr (.inr ?_)))))
    refine mem_pathKeys_cons.mpr (.inr (.inl ?_))
    cases u with
    | leaf => simp at uncle
    | node cu l a r => simp
  have read := turns_child (P := P) d'.flip (d'.node cg (d.node .red t p s) g u) k
  rw [top_dirNode, child_flip_dirNode] at read
  have readColor := turns_color (P := P) u (⟨d'.flip, cg, g, d.node .red t p s⟩ :: k)
  rw [plug, Frame.fill, node_flip] at readColor
  have paintParent := turns_setColor (P := P) .black (d.node .red t p s) (⟨d', cg, g, u⟩ :: k)
  rw [top_dirNode, paint_dirNode] at paintParent
  have paintUncle := turns_setColor (P := P) .black u (⟨d'.flip, cg, g, d.node .black t p s⟩ :: k)
  simp only [plug, Frame.fill, node_flip] at paintUncle
  have paintGrand := turns_setColor (P := P) .red (d'.node cg (d.node .black t p s) g (u.paint .black)) k
  rw [top_dirNode, paint_dirNode] at paintGrand
  refine read.bind (readColor.bind ?_)
  rw [if_pos ⟨present, uncle⟩]
  exact paintParent.bind (paintUncle.bind (paintGrand.bind (.pure _ _)))

/-- One round below a black uncle: the rotations of `insertRotate`. -/
theorem turns_insertStep_rotate (d d' : Dir) (cg : Color) {t : Tree ℕ} (present : t ≠ .leaf) (p : ℕ)
    (s : Tree ℕ) (g : ℕ) {u : Tree ℕ} (uncle : u.color ≠ .red) (k : List (Frame ℕ))
    (distinct : t.top ≠ s.top) :
    ∃ X q Y, X ≠ .leaf ∧ d'.node .black X q Y = insertRotate d d' t p s g u ∧
      P.Turns (P.insertStep d' t.top p g) (plug t (⟨d, .red, p, s⟩ :: ⟨d', cg, g, u⟩ :: k)) X.top
        (plug X (⟨d', .black, q, Y⟩ :: k)) := by
  have read := turns_child (P := P) d'.flip (d'.node cg (d.node .red t p s) g u) k
  rw [top_dirNode, child_flip_dirNode] at read
  have readColor := turns_color (P := P) u (⟨d'.flip, cg, g, d.node .red t p s⟩ :: k)
  rw [plug, Frame.fill, node_flip] at readColor
  by_cases way : d = d'
  · subst way
    refine ⟨t, p, d.node .red s g u, present, by simp [insertRotate], ?_⟩
    refine read.bind (readColor.bind ?_)
    rw [if_neg fun both => uncle both.2]
    refine (turns_turnOutward_outer d .red t p s (⟨d, cg, g, u⟩ :: k) distinct).bind ?_
    exact turns_rotateUp d .red cg present p s g u k
  · obtain rfl : d = d'.flip := by
      cases d <;> cases d' <;> simp_all
    cases t with
    | leaf => exact (present rfl).elim
    | node ct l z r =>
      have node : d'.node .red s p ((Tree.node ct l z r).child d') ≠ .leaf := by cases d' <;> simp
      refine ⟨_, z, d'.node .red ((Tree.node ct l z r).child d'.flip) g u, node, ?_, ?_⟩
      · rw [insertRotate, if_neg way]
      refine read.bind (readColor.bind ?_)
      rw [if_neg fun both => uncle both.2]
      have turn := turns_turnOutward_inner (P := P) d' .red ct ((Tree.node ct l z r).child d') z
        ((Tree.node ct l z r).child d'.flip) p s (⟨d', cg, g, u⟩ :: k)
      rw [← node_eq d'] at turn
      have up := turns_rotateUp (P := P) d' ct cg node z ((Tree.node ct l z r).child d'.flip) g u k
      rw [top_dirNode] at up ⊢
      refine turn.bind ?_
      exact up

/-- The loop ends at the root and below a black parent. -/
theorem turns_insertLoop_exit {t : Tree ℕ} {k : List (Frame ℕ)} (present : t ≠ .leaf)
    (dark : ∀ f ∈ k.head?, f.color = .black) (fuel : ℕ) :
    P.Turns (P.insertLoop (fuel + 1) t.top) (plug t k) () (plug t k) := by
  refine .of_shape fun st shape => ?_
  refine (turns_parent present k).bind ?_
  cases k with
  | nil => exact .pure _ _
  | cons f k =>
    have f0 : f.key ≠ 0 := shape.parts.2.1
    have color := turns_color (P := P) (f.dir.node f.color t f.key f.sibling) k
    rw [top_dirNode, color_dirNode, dark f rfl] at color
    rw [above_cons, if_neg f0]
    have read : P.Turns (P.color f.key) (plug t (f :: k)) .black (plug t (f :: k)) := by
      rw [plug, Frame.fill, dark f rfl]
      exact color
    refine read.bind ?_
    rw [if_pos rfl]
    exact .pure _ _

/-- One round of the loop below a red parent. -/
theorem turns_insertLoop_round {d d' : Dir} {cg : Color} {t : Tree ℕ} (present : t ≠ .leaf) {p : ℕ}
    {s : Tree ℕ} {g : ℕ} {u : Tree ℕ} {k : List (Frame ℕ)} {fuel z : ℕ} {w w' : Tree ℕ}
    (step : P.Turns (P.insertStep d' t.top p g) (plug t (⟨d, .red, p, s⟩ :: ⟨d', cg, g, u⟩ :: k)) z w)
    (rest : P.Turns (P.insertLoop fuel z) w () w') :
    P.Turns (P.insertLoop (fuel + 1) t.top) (plug t (⟨d, .red, p, s⟩ :: ⟨d', cg, g, u⟩ :: k)) () w' := by
  refine .of_shape fun st shape => ?_
  obtain ⟨p0, -⟩ := shape.parts.2
  have nodup := shape.nodup
  simp only [nodup_plug, nodup_pathKeys_cons, mem_pathKeys_cons] at nodup
  have distinct : (d.node .red t p s).top ≠ u.top := by
    rw [top_dirNode]
    intro same
    refine nodup.2.1.2.2.2.1 (.inr (.inl ?_))
    exact same ▸ Tree.top_mem (same ▸ p0)
  have color := turns_color (P := P) (d.node .red t p s) (⟨d', cg, g, u⟩ :: k)
  rw [top_dirNode, color_dirNode] at color
  have grand := turns_parent (P := P) (t := d.node .red t p s) (by cases d <;> simp) (⟨d', cg, g, u⟩ :: k)
  rw [top_dirNode] at grand
  have outer := turns_child (P := P) .left (d'.node cg (d.node .red t p s) g u) k
  have side := dir_of_left d' cg g fun same => (distinct same).elim
  rw [top_dirNode] at outer
  rw [top_dirNode] at side
  refine (turns_parent present _).bind ?_
  rw [above_cons, if_neg p0]
  refine color.bind ?_
  rw [if_neg (by decide)]
  refine grand.bind (outer.bind ?_)
  dsimp only
  rw [side]
  exact step.bind rest

/-- The loop climbs as `insertFixup` does and leaves only the root to be painted. -/
theorem turns_insertLoop {t : Tree ℕ} {k : List (Frame ℕ)} (present : t ≠ .leaf) (dark : BlackRoot k)
    {fuel : ℕ} (enough : k.length < fuel) :
    ∃ w, P.Turns (P.insertLoop fuel t.top) (plug t k) () w ∧ w.paint .black = RedBlack.insertFixup t k := by
  induction t, k using RedBlack.insertFixup.induct generalizing fuel with
  | case1 t d p s d' cg g u k uncle ih =>
    obtain ⟨fuel, rfl⟩ := Nat.exists_eq_succ_of_ne_zero (Nat.ne_zero_of_lt enough)
    simp only [List.length_cons] at enough
    have shorter : k.length < fuel := by omega
    obtain ⟨w, rest, same⟩ := ih (by cases d' <;> simp) dark.tail.tail shorter
    rw [top_dirNode] at rest
    refine ⟨w, turns_insertLoop_round present (turns_insertStep_recolor d d' cg t p s g uncle k) rest, ?_⟩
    rw [same, RedBlack.insertFixup, if_pos uncle]
  | case2 t d p s d' cg g u k uncle =>
    obtain ⟨fuel, rfl⟩ : ∃ n, fuel = n + 2 := ⟨fuel - 2, by simp only [List.length_cons] at enough; omega⟩
    refine ⟨plug (insertRotate d d' t p s g u) k, .of_shape fun st shape => ?_, ?_⟩
    · obtain ⟨X, q, Y, node, same, step⟩ :=
        turns_insertStep_rotate (P := P) d d' cg present p s g uncle k (shape.top_ne_sibling present)
      have rest := turns_insertLoop_exit (P := P) node (k := ⟨d', .black, q, Y⟩ :: k) (by simp) fuel
      rw [← same]
      exact turns_insertLoop_round present step rest
    · rw [RedBlack.insertFixup, if_neg uncle]
  | case3 t k single =>
    obtain ⟨fuel, rfl⟩ := Nat.exists_eq_succ_of_ne_zero (Nat.ne_zero_of_lt enough)
    refine ⟨plug t k, turns_insertLoop_exit present ?_ fuel, (RedBlack.insertFixup.eq_2 t k single).symm⟩
    intro f first
    obtain _ | ⟨f', _ | ⟨g, k⟩⟩ := k
    · cases first
    · cases first
      exact dark
    · cases first
      obtain ⟨d, _ | _, p, s⟩ := f
      · exact (single d p s g.dir g.color g.key g.sibling k rfl).elim
      · rfl

theorem turns_insertFixup {t : Tree ℕ} {k : List (Frame ℕ)} (present : t ≠ .leaf) (dark : BlackRoot k) :
    P.Turns (P.insertFixup t.top) (plug t k) () (RedBlack.insertFixup t k) := by
  refine .get fun s shape => ?_
  obtain ⟨w, loop, same⟩ := turns_insertLoop (P := P) present dark (Nat.lt_succ_of_le shape.path_le_size)
  refine loop.bind ((turns_getRoot w).bind (.of_shape fun s' shape' => ?_))
  rw [← same]
  cases w with
  | leaf => exact .pure _ _
  | node c l a r =>
    rw [Exec.when, if_pos (shape'.mem_ne_zero (by simp))]
    exact turns_setColor .black (.node c l a r) []

/-! ### The descent -/

/-- The order of two nodes by their keys. -/
def precedes (P : LinkedPool ε σ κ) (s : σ) (a b : ℕ) : Bool :=
  match P.key s a, P.key s b with
  | .ok x, .ok y => P.order x y = .lt
  | _, _ => false

theorem precedes_iff {s : σ} {a b : ℕ} {x y : κ} (ka : P.key s a = .ok x) (kb : P.key s b = .ok y) :
    P.precedes s a b = true ↔ P.order x y = .lt := by
  simp [precedes, ka, kb]

/-- The node is not in the tree and, where the pool checks that, neither is its key. -/
def Fresh (P : LinkedPool ε σ κ) (s : σ) (i : ℕ) (w : Tree ℕ) : Prop :=
  i ∉ w.toList ∧ (P.duplicate.isSome → ∀ b ∈ w.toList, ∀ x y, P.key s i = .ok x → P.key s b = .ok y →
    P.order x y ≠ .eq)

theorem turn_eq {s : σ} {a b : ℕ} {x y : κ} (ka : P.key s a = .ok x) (kb : P.key s b = .ok y)
    (fresh : P.duplicate.isSome → P.order x y ≠ .eq) :
    P.turn x y = .ok (if P.precedes s a b then .left else .right) := by
  have precedes := precedes_iff ka kb
  unfold turn
  cases order : P.order x y with
  | lt => rw [if_pos (precedes.mpr order)]
  | eq =>
    cases dup : P.duplicate with
    | none => rw [if_neg fun less => absurd (order.symm.trans (precedes.mp less)) (by decide)]
    | some e => exact (fresh (by simp [dup]) order).elim
  | gt => rw [if_neg fun less => absurd (order.symm.trans (precedes.mp less)) (by decide)]

theorem insertPath_node (precedes : α → α → Bool) (a : α) (c : Color) (l : Tree α) (b : α) (r : Tree α)
    (k : List (Frame α)) (d : Dir) (way : (if precedes a b then Dir.left else .right) = d) :
    insertPath precedes a (.node c l b r) k = insertPath precedes a ((Tree.node c l b r).child d)
      (⟨d, c, b, (Tree.node c l b r).child d.flip⟩ :: k) := by
  subst way
  rw [insertPath]
  split <;> rfl

theorem run_descend {s : σ} {i : ℕ} {x : κ} (key : P.key s i = .ok x) {t : Tree ℕ} {k : List (Frame ℕ)}
    (present : t ≠ .leaf) (shape : P.Shape s (plug t k)) {fuel : ℕ} (enough : t.toList.length < fuel + 1)
    (fresh : P.duplicate.isSome → ∀ b ∈ t.toList, ∀ y, P.key s b = .ok y → P.order x y ≠ .eq) :
    ∃ f rest, insertPath (P.precedes s) i t k = f :: rest ∧
      (P.descend x fuel t.top).run s = .ok (f.key, f.dir) s := by
  induction fuel generalizing t k with
  | zero =>
    cases t with
    | leaf => exact (present rfl).elim
    | node c l b r => simp at enough
  | succ fuel ih =>
    cases t with
    | leaf => exact (present rfl).elim
    | node c l b r =>
      obtain ⟨b0, here, -⟩ := shape.parts.1
      obtain ⟨y, key'⟩ := P.key_of_links here
      have readKey : (Exec.gets (P.key · b) : Exec ε σ κ).run s = .ok y s := by rw [Exec.run_gets, key']
      have turn := turn_eq key key' fun dup => fresh dup b (by simp) y key'
      generalize way : (if P.precedes s i b then Dir.left else .right) = d at turn
      have readTurn : (Exec.ofExcept (P.turn x y) : Exec ε σ Dir).run s = .ok d s := by rw [turn]; rfl
      have readChild : (P.child d b).run s = .ok ((Tree.node c l b r).child d).top s :=
        (run_child d b0 here).trans (by cases d <;> rfl)
      have below : P.Shape s (plug ((Tree.node c l b r).child d)
          (⟨d, c, b, (Tree.node c l b r).child d.flip⟩ :: k)) := by
        rw [plug, Frame.fill, ← node_eq]
        exact shape
      have shorter : ((Tree.node c l b r).child d).toList.length < fuel + 1 := by
        cases d <;> simp at enough ⊢ <;> omega
      have inside : ∀ j ∈ ((Tree.node c l b r).child d).toList, j ∈ (Tree.node c l b r).toList := by
        cases d <;> simp +contextual
      rw [insertPath_node _ i c l b r k d way, descend, Tree.top_node, Exec.run_bind_of_ok readKey,
        Exec.run_bind_of_ok readTurn, Exec.run_bind_of_ok readChild]
      generalize (Tree.node c l b r).child d = child at *
      cases child with
      | leaf => exact ⟨_, _, rfl, rfl⟩
      | node cl ll al rl =>
        rw [Tree.top_node, if_neg below.parts.1.1]
        exact ih (by simp) below shorter fun dup j member => fresh dup j (inside j member)

/-! ### Insertion -/

/-- The hole at a nonempty path is filled by a new node, which is told so after its parent is known. -/
theorem run_attach {s : σ} {f : Frame ℕ} {k : List (Frame ℕ)} (shape : P.Shape s (plug .leaf (f :: k)))
    {i : ℕ} (present : i ≠ 0) (fresh : i ∉ pathKeys (f :: k)) (linked : P.links s i = .ok ⟨.red, 0, 0, 0⟩) :
    ∃ s', (do P.setParent i f.key; P.setChild f.dir f.key i).run s = .ok () s' ∧
      P.Shape s' (plug (.node .red .leaf i .leaf) (f :: k)) ∧
      ∀ j, j ≠ i → j ∉ pathKeys (f :: k) → P.links s' j = P.links s j := by
  obtain ⟨-, kNodup, -⟩ := nodup_plug.mp shape.nodup
  have path := shape.parts.2
  have f0 := path.1
  have here := path.2.1
  have other : i ≠ f.key := fun same => fresh (mem_pathKeys_cons.mpr (.inl same))
  obtain ⟨s1, ran1, sets1⟩ := setParent_sets (P := P) f.key present linked
  have here1 : P.links s1 f.key = _ := (sets1.off _ other.symm).trans here
  obtain ⟨s2, ran2, sets2⟩ := setChild_sets (P := P) f.dir i f0 here1
  rw [setChild_links] at sets2
  have path1 : StoredPath (P.links s1) (Tree.leaf : Tree ℕ).top (f :: k) :=
    path.congr fun j member => sets1.off j fun same => fresh (same ▸ member)
  refine ⟨s2, (Exec.run_bind_of_ok ran1).trans ran2, ⟨?_, stored_plug.mpr ⟨?_, ?_⟩, ?_⟩, ?_⟩
  · refine nodup_plug.mpr ⟨by simp, kNodup, ?_⟩
    simpa using fresh
  · exact ⟨present, (sets2.off i other).trans sets1.here, trivial, trivial⟩
  · refine path1.refill kNodup (fun j _ => sets2.off j) ?_
    intro f' k' same
    obtain ⟨rfl, rfl⟩ := List.cons.inj same
    exact sets2.here
  · rw [sets2.root, sets1.root, shape.root, top_plug, top_plug]
    rfl
  · intro j ji outside
    rw [sets2.off j fun same => outside (mem_pathKeys_cons.mpr (.inl same)), sets1.off j ji]

/-- The first node becomes a black root. -/
theorem run_insert_first {s : σ} (shape : P.Shape s .leaf) {i : ℕ} (present : i ≠ 0)
    (linked : P.links s i = .ok ⟨.red, 0, 0, 0⟩) :
    ∃ s', (do P.setColor i .black; P.putRoot i).run s = .ok () s' ∧
      P.Shape s' (.node .black .leaf i .leaf) ∧ ∀ j ≠ i, P.links s' j = P.links s j := by
  obtain ⟨s1, ran1, sets1⟩ := setColor_sets (P := P) .black present linked
  have root1 : P.root s1 = .ok 0 := sets1.root.trans shape.root
  refine ⟨P.setRoot s1 i, (Exec.run_bind_of_ok ran1).trans (run_putRoot i root1), ⟨?_, ?_, ?_⟩, ?_⟩
  · simp
  · rw [P.links_setRoot]
    exact ⟨present, sets1.here, trivial, trivial⟩
  · exact P.root_setRoot i root1
  · intro j other
    rw [P.links_setRoot, sets1.off j other]

/-- Inserting a linked node that is not in the tree inserts its index. -/
theorem run_insert {s : σ} {w : Tree ℕ} {n i : ℕ} {l : Links} (shape : P.Shape s w)
    (balanced : Balanced w .black n) (present : i ≠ 0) (linked : P.links s i = .ok l)
    (fresh : P.Fresh s i w) :
    ∃ s', (P.insert i).run s = .ok () s' ∧ P.Shape s' (RedBlack.insert (P.precedes s) i w) ∧
      ∀ j, j ≠ i → j ∉ w.toList → P.links s' j = P.links s j := by
  obtain ⟨s1, ran1, sets1⟩ := update_sets (P := P) (fun _ => ⟨.red, 0, 0, 0⟩) present linked
  have shape1 : P.Shape s1 w :=
    shape.frame (fun j member => sets1.off j fun same => fresh.1 (same ▸ member)) sets1.root
  obtain ⟨x, key⟩ := P.key_of_links sets1.here
  have readKey : (Exec.gets (P.key · i) : Exec ε σ κ).run s1 = .ok x s1 := by rw [Exec.run_gets, key]
  have accepted : (Exec.rejectIf (i = 0) P.sentinelInserted : Exec ε σ Unit).run s = .ok () s := by
    rw [Exec.run_rejectIf, if_neg present]
  rw [insert, Exec.run_bind_of_ok accepted, Exec.run_bind_of_ok ran1, Exec.run_bind_of_ok readKey,
    Exec.run_bind_of_ok (run_getRoot shape1.root)]
  by_cases empty : w = .leaf
  · subst empty
    obtain ⟨s2, ran2, shape2, off2⟩ := run_insert_first shape1 present sets1.here
    exact ⟨s2, ran2, shape2, fun j ji _ => (off2 j ji).trans (sets1.off j ji)⟩
  · have samePrecedes : P.precedes s1 = P.precedes s := by
      unfold LinkedPool.precedes
      rw [sets1.key]
    obtain ⟨f, k, path, descended⟩ := run_descend (k := []) key empty shape1
      (Nat.lt_succ_of_le (Nat.le_succ_of_le shape1.length_le_size))
      fun dup b member y kb => fresh.2 dup b member x y (by rw [← sets1.key]; exact key)
        (by rw [← sets1.key]; exact kb)
    have opened : plug .leaf (f :: k) = w := by rw [← path, plug_insertPath]; rfl
    rw [← opened] at shape1
    have outside : i ∉ pathKeys (f :: k) := fun member =>
      fresh.1 (opened ▸ mem_plug.mpr (.inr member))
    obtain ⟨s2, ran2, shape2, off2⟩ := run_attach shape1 present outside sets1.here
    have dark : BlackRoot (f :: k) := by
      rw [← path]
      exact (insertPath_fits (k := []) _ i balanced (by simp [Fits])).blackRoot
    obtain ⟨s3, ran3, shape3, -, off3⟩ := turns_insertFixup (P := P) (by simp) dark s2 shape2
    refine ⟨s3, ?_, ?_, ?_⟩
    · rw [if_neg fun zero => empty (shape.top_eq_zero.mp zero), Exec.run_bind_get, Exec.run_bind_of_ok descended]
      obtain ⟨s2', ran2a, ran2b⟩ : ∃ u, (P.setParent i f.key).run s1 = .ok () u ∧
          (P.setChild f.dir f.key i).run u = .ok () s2 := by
        obtain ⟨_, u, first, second⟩ := Exec.bind_ok.mp ran2
        exact ⟨u, first, second⟩
      rw [Exec.run_bind_of_ok ran2a, Exec.run_bind_of_ok ran2b]
      exact ran3
    · rw [RedBlack.insert, ← samePrecedes, path]
      exact shape3
    · intro j ji jw
      have jk : j ∉ pathKeys (f :: k) := fun member => jw (opened ▸ mem_plug.mpr (.inr member))
      rw [off3 j fun member => ?_, off2 j ji jk, sets1.off j ji]
      rcases mem_plug.mp member with inside | inside
      · exact ji (by simpa using inside)
      · exact jk inside

end LinkedPool

end RedBlack
