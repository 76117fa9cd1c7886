import Polyleverage.RedBlack.Insertion
import Polyleverage.RedBlack.Removal
import Polyleverage.RedBlack.Relinked
import Mathlib.Order.Compare

/-! # Linked search trees

A valid pool holds a balanced tree in the order of its keys. Inserting a node with a new key and
removing a node keep a pool valid and change the set of nodes by exactly that node; a lookup finds
the one node with its key. Nothing outside the tree is touched.
-/

namespace RedBlack

namespace LinkedPool

variable {ε σ κ : Type} (P : LinkedPool ε σ κ)

/-- The state holds this tree, and the tree is a red-black tree in the order of the keys. -/
structure Valid (s : σ) (w : Tree ℕ) : Prop where
  shape : P.Shape s w
  balanced : ∃ n, Balanced w .black n
  ordered : Ordered (P.precedes s) w

variable {P}

theorem precedes_trans {s : σ} (a b c : ℕ) (ab : P.precedes s a b = true) (bc : P.precedes s b c = true) :
    P.precedes s a c = true := by
  have := P.order_trans
  unfold precedes at *
  cases ka : P.key s a <;> cases kb : P.key s b <;> cases kc : P.key s c <;> simp_all
  exact Std.TransCmp.lt_trans ab bc

/-- Two nodes with different keys are comparable. -/
theorem precedes_total {s : σ} {a b : ℕ} {x y : κ} (ka : P.key s a = .ok x) (kb : P.key s b = .ok y)
    (distinct : P.order x y ≠ .eq) (notBefore : ¬ P.precedes s a b = true) : P.precedes s b a = true := by
  have := P.order_trans
  rw [precedes_iff ka kb] at notBefore
  have swap : P.order y x = (P.order x y).swap := Std.OrientedCmp.eq_swap
  rw [precedes_iff kb ka, swap]
  cases order : P.order x y <;> simp_all

theorem Valid.frame {s s' : σ} {w : Tree ℕ} (valid : P.Valid s w)
    (same : ∀ i ∈ w.toList, P.links s' i = P.links s i) (root : P.root s' = P.root s)
    (keys : ∀ i ∈ w.toList, P.key s' i = P.key s i) : P.Valid s' w := by
  refine ⟨valid.shape.frame same root, valid.balanced, ?_⟩
  refine List.Pairwise.imp_of_mem ?_ valid.ordered
  intro a b ha hb less
  simp only [precedes, keys a ha, keys b hb]
  exact less

theorem valid_leaf {s : σ} (root : P.root s = .ok 0) : P.Valid s .leaf :=
  ⟨⟨List.nodup_nil, trivial, root⟩, ⟨0, .leaf⟩, List.Pairwise.nil⟩

/-- Every node of a tree is the root of one of its subtrees. -/
theorem exists_opened {w : Tree ℕ} {i : ℕ} (member : i ∈ w.toList) :
    ∃ c l r k, w = plug (.node c l i r) k := by
  suffices opened : ∀ k : List (Frame ℕ), ∃ c l r k', plug w k = plug (.node c l i r) k' from opened []
  induction w with
  | leaf => simp at member
  | node c l a r ihl ihr =>
    intro k
    rcases List.mem_append.mp member with inside | inside
    · exact ihl inside (⟨.left, c, a, r⟩ :: k)
    · rcases List.mem_cons.mp inside with rfl | inside
      · exact ⟨c, l, r, k, rfl⟩
      · exact ihr inside (⟨.right, c, a, l⟩ :: k)

/-- Inserting a linked node with a new key. -/
theorem Valid.insert {s : σ} {w : Tree ℕ} {i : ℕ} {l : Links} {x : κ} (valid : P.Valid s w)
    (present : i ≠ 0) (linked : P.links s i = .ok l) (key : P.key s i = .ok x) (out : i ∉ w.toList)
    (new : ∀ b ∈ w.toList, ∀ y, P.key s b = .ok y → P.order x y ≠ .eq) :
    ∃ s' w', (P.insert i).run s = .ok () s' ∧ P.Valid s' w' ∧ P.Relinked s s' ∧
      (∀ j, j ∈ w'.toList ↔ j = i ∨ j ∈ w.toList) ∧
      ∀ j, j ∉ w'.toList → P.links s' j = P.links s j := by
  obtain ⟨n, balanced⟩ := valid.balanced
  have fresh : P.Fresh s i w := by
    refine ⟨out, fun _ b member x' y kx ky => ?_⟩
    obtain rfl := Except.ok.inj (key.symm.trans kx)
    exact new b member y ky
  obtain ⟨s', ran, shape, off⟩ := run_insert valid.shape balanced present linked fresh
  have relinked : P.Relinked s s' := (keeps_insert i).ok ran
  have mem (j : ℕ) : j ∈ (RedBlack.insert (P.precedes s) i w).toList ↔ j = i ∨ j ∈ w.toList := by
    rw [(toList_insert_perm (P.precedes s) i w).mem_iff, List.mem_cons]
  refine ⟨s', _, ran, ⟨shape, balanced_insert _ i balanced, ?_⟩, relinked, mem, fun j outside => ?_⟩
  · have same : P.precedes s' = P.precedes s := by
      unfold precedes
      rw [relinked.key]
    rw [same]
    refine ordered_insert precedes_trans valid.ordered fun b member notBefore => ?_
    obtain ⟨l', linked'⟩ := valid.shape.stored.links_ok member
    obtain ⟨y, key'⟩ := P.key_of_links linked'
    exact precedes_total key key' (new b member y key') notBefore
  · rw [mem, not_or] at outside
    exact off j outside.1 outside.2

/-- Removing a node of the tree. -/
theorem Valid.remove {s : σ} {w : Tree ℕ} {i : ℕ} (valid : P.Valid s w) (member : i ∈ w.toList) :
    ∃ s' w', (P.remove i).run s = .ok () s' ∧ P.Valid s' w' ∧ P.Relinked s s' ∧
      (∀ j, j ∈ w'.toList ↔ j ≠ i ∧ j ∈ w.toList) ∧
      ∀ j, j ∉ w.toList → P.links s' j = P.links s j := by
  obtain ⟨c, l, r, k, rfl⟩ := exists_opened member
  obtain ⟨n, balanced⟩ := valid.balanced
  obtain ⟨c', m, here, fits⟩ := Fits.of_plug balanced
  obtain rfl := here.color_eq
  obtain ⟨s', ran, shape, -, off⟩ := turns_remove (P := P) c l i r k s valid.shape
  have relinked : P.Relinked s s' := (keeps_remove i).ok ran
  refine ⟨s', removeAt c l r k, ran, ⟨shape, balanced_removeAt here fits, ?_⟩, relinked, fun j => ?_, off⟩
  · have same : P.precedes s' = P.precedes s := by
      unfold precedes
      rw [relinked.key]
    rw [same]
    exact ordered_removeAt valid.ordered
  · have perm : List.Perm (plug (.node c l i r) k).toList (i :: (removeAt c l r k).toList) := by
      rw [toList_removeAt, toList_plug]
      simpa only [Tree.toList, List.append_assoc, List.cons_append] using
        @List.perm_middle _ i (keysBefore k ++ l.toList) (r.toList ++ keysAfter k)
    have out := (List.nodup_cons.mp (perm.nodup_iff.mp valid.shape.nodup)).1
    rw [perm.mem_iff, List.mem_cons]
    constructor
    · exact fun kept => ⟨fun same => out (same ▸ kept), .inr kept⟩
    · rintro ⟨other, same | kept⟩
      · exact (other same).elim
      · exact kept

/-! ### Lookup -/

theorem run_findLoop {s : σ} (k : κ) {t : Tree ℕ} {path : List (Frame ℕ)} (shape : P.Shape s (plug t path))
    (ordered : Ordered (P.precedes s) t) {fuel : ℕ} (enough : t.toList.length < fuel) :
    ∃ i, (P.findLoop k fuel t.top).run s = .ok i s ∧
      ((i = 0 ∧ ∀ b ∈ t.toList, ∀ y, P.key s b = .ok y → P.order k y ≠ .eq) ∨
        (i ∈ t.toList ∧ ∃ y, P.key s i = .ok y ∧ P.order k y = .eq)) := by
  have := P.order_trans
  induction t generalizing path fuel with
  | leaf =>
    obtain ⟨fuel, rfl⟩ := Nat.exists_eq_succ_of_ne_zero (Nat.ne_zero_of_lt enough)
    exact ⟨0, rfl, .inl ⟨rfl, by simp⟩⟩
  | node c l a r ihl ihr =>
    obtain ⟨fuel, rfl⟩ := Nat.exists_eq_succ_of_ne_zero (Nat.ne_zero_of_lt enough)
    simp only [Tree.toList, List.length_append, List.length_cons] at enough
    obtain ⟨a0, here, -⟩ := shape.parts.1
    obtain ⟨x, key⟩ := P.key_of_links here
    have readKey : (Exec.gets (P.key · a) : Exec ε σ κ).run s = .ok x s := by rw [Exec.run_gets, key]
    rw [Ordered, Tree.toList, List.pairwise_append] at ordered
    obtain ⟨hl, hcr, across⟩ := ordered
    obtain ⟨hr, hr'⟩ := List.pairwise_cons.mp hcr
    rw [findLoop, Tree.top_node, if_neg a0, Exec.run_bind_of_ok readKey]
    cases order : P.order k x with
    | lt =>
      have below : P.Shape s (plug l (⟨.left, c, a, r⟩ :: path)) := shape
      have shorter : l.toList.length < fuel := by omega
      obtain ⟨i, ran, found⟩ := ihl below hl shorter
      refine ⟨i, ?_, ?_⟩
      · simp only
        rw [Exec.run_bind_of_ok (run_child .left a0 here)]
        exact ran
      · rcases found with ⟨none, left⟩ | ⟨inside, same⟩
        · refine .inl ⟨none, fun b member y kb => ?_⟩
          simp only [Tree.toList, List.mem_append, List.mem_cons] at member
          rcases member with inL | rfl | inR
          · exact left b inL y kb
          · obtain rfl := Except.ok.inj (key.symm.trans kb)
            simp [order]
          · have later := (precedes_iff key kb).mp (hr b inR)
            simp [Std.TransCmp.lt_trans order later]
        · exact .inr ⟨by simp [inside], same⟩
    | eq => exact ⟨a, rfl, .inr ⟨by simp, x, key, order⟩⟩
    | gt =>
      have below : P.Shape s (plug r (⟨.right, c, a, l⟩ :: path)) := shape
      have shorter : r.toList.length < fuel := by omega
      obtain ⟨i, ran, found⟩ := ihr below hr' shorter
      refine ⟨i, ?_, ?_⟩
      · simp only
        rw [Exec.run_bind_of_ok (run_child .right a0 here)]
        exact ran
      · rcases found with ⟨none, right⟩ | ⟨inside, same⟩
        · refine .inl ⟨none, fun b member y kb => ?_⟩
          simp only [Tree.toList, List.mem_append, List.mem_cons] at member
          rcases member with inL | rfl | inR
          · have earlier := (precedes_iff kb key).mp (across b inL a (by simp))
            have later : P.order y k = .lt :=
              Std.TransCmp.lt_trans earlier (Std.OrientedCmp.lt_of_gt order)
            have swap : P.order k y = (P.order y k).swap := Std.OrientedCmp.eq_swap
            rw [swap, later]
            decide
          · obtain rfl := Except.ok.inj (key.symm.trans kb)
            simp [order]
          · exact right b inR y kb
        · exact .inr ⟨by simp [inside], same⟩

/-- No two nodes of a valid tree have equal keys. -/
theorem Valid.key_inj {s : σ} {w : Tree ℕ} {i j : ℕ} {x y : κ} (valid : P.Valid s w) (inside : i ∈ w.toList)
    (inside' : j ∈ w.toList) (key : P.key s i = .ok x) (key' : P.key s j = .ok y) (same : P.order x y = .eq) : i = j := by
  have := P.order_trans
  have ordered := List.pairwise_iff_getElem.mp valid.ordered
  obtain ⟨a, ha, rfl⟩ := List.getElem_of_mem inside
  obtain ⟨b, hb, rfl⟩ := List.getElem_of_mem inside'
  rcases Nat.lt_trichotomy a b with before | rfl | after
  · have less := (precedes_iff key key').mp (ordered a b ha hb before)
    rw [same] at less
    cases less
  · rfl
  · have less := (precedes_iff key' key).mp (ordered b a hb ha after)
    have swap : P.order y x = (P.order x y).swap := Std.OrientedCmp.eq_swap
    rw [swap, same] at less
    cases less

/-- A lookup returns the node with an equal key, or the sentinel when there is none. -/
theorem Valid.find {s : σ} {w : Tree ℕ} (valid : P.Valid s w) (k : κ) :
    ∃ i, (P.find k).run s = .ok i s ∧
      ((i = 0 ∧ ∀ b ∈ w.toList, ∀ y, P.key s b = .ok y → P.order k y ≠ .eq) ∨
        (i ∈ w.toList ∧ ∃ y, P.key s i = .ok y ∧ P.order k y = .eq)) := by
  have whole : P.Shape s (plug w []) := valid.shape
  obtain ⟨i, ran, found⟩ := run_findLoop k whole valid.ordered
    (Nat.lt_succ_of_le valid.shape.length_le_size)
  refine ⟨i, ?_, found⟩
  rw [LinkedPool.find, Exec.run_bind_get, Exec.run_bind_of_ok (run_getRoot valid.shape.root)]
  exact ran

end LinkedPool

end RedBlack
