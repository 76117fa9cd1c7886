import Polyleverage.Invariants.BestFirst
import Mathlib.Data.List.Sort

/-! # Queues

The orders of a side that can still be filled, sorted best first, are the queue of the side. It is told by
the view of a book, whatever its trees look like, and the trees keep to it: the walks through them meet
the queue in its order.
-/

namespace Polyleverage

open RedBlack

/-- The order has contracts left and is not expired. -/
def IntentNode.IsLive (node : IntentNode) (nowSlot : ℕ) : Prop :=
  0 < node.contractsRemaining ∧ nowSlot < node.expirationSlot

instance (node : IntentNode) (nowSlot : ℕ) : Decidable (node.IsLive nowSlot) :=
  inferInstanceAs (Decidable (_ ∧ _))

namespace IntentTree

/-- The first order is in front of the second one. -/
def InFront (side : ℕ) (x y : IntentNode) : Prop := cmpKey side x.key y.key = .lt

/-- The first order is not behind the second one. -/
def NotBehind (side : ℕ) (x y : IntentNode) : Prop := (cmpKey side x.key y.key).isLE

instance (side : ℕ) (x y : IntentNode) : Decidable (NotBehind side x y) :=
  inferInstanceAs (Decidable (_ = _))

instance (side : ℕ) : IsTrans IntentNode (NotBehind side) where
  trans _ _ _ xy yz := (transCmp_cmpKey side).isLE_trans xy yz

instance (side : ℕ) : Std.Total (NotBehind side) where
  total x y := by
    have := transCmp_cmpKey side
    have swap : cmpKey side y.key x.key = (cmpKey side x.key y.key).swap := Std.OrientedCmp.eq_swap
    unfold NotBehind
    rw [swap]
    cases cmpKey side x.key y.key <;> decide

theorem InFront.notBehind {side : ℕ} {x y : IntentNode} (front : InFront side x y) : NotBehind side x y := by
  unfold NotBehind
  rw [front]
  rfl

theorem NotBehind.inFront {side : ℕ} {x y : IntentNode} (front : NotBehind side x y) (different : x.key ≠ y.key) :
    InFront side x y := by
  unfold NotBehind at front
  unfold InFront
  cases found : cmpKey side x.key y.key with
  | lt => rfl
  | eq => exact absurd (cmpKey_eq_iff.mp found) different
  | gt =>
    rw [found] at front
    cases front

theorem InFront.trans {side : ℕ} {x y z : IntentNode} (xy : InFront side x y) (yz : InFront side y z) :
    InFront side x z := by
  have := transCmp_cmpKey side
  exact Std.TransCmp.lt_trans xy yz

theorem InFront.irrefl {side : ℕ} {x : IntentNode} : ¬ InFront side x x := by
  have same : cmpKey side x.key x.key = .eq := cmpKey_eq_iff.mpr rfl
  unfold InFront
  rw [same]
  decide

theorem InFront.key_ne {side : ℕ} {x y : IntentNode} (front : InFront side x y) : x.key ≠ y.key := by
  intro same
  have equal : cmpKey side x.key y.key = .eq := cmpKey_eq_iff.mpr same
  rw [InFront, equal] at front
  cases front

/-- Two orders neither of which is behind the other one have the same key. -/
theorem NotBehind.key_eq {side : ℕ} {x y : IntentNode} (xy : NotBehind side x y) (yx : NotBehind side y x) :
    x.key = y.key := by
  have := transCmp_cmpKey side
  have swap : cmpKey side y.key x.key = (cmpKey side x.key y.key).swap := Std.OrientedCmp.eq_swap
  unfold NotBehind at xy yx
  rw [swap] at yx
  have same : cmpKey side x.key y.key = .eq := by
    cases found : cmpKey side x.key y.key <;> simp_all
  exact cmpKey_eq_iff.mp same

/-- A higher bid or a lower ask. -/
def BetterPrice (side price other : ℕ) : Prop := if side = SIDE_LONG then other < price else price < other

/-- Price first, then time. -/
def Outranks (side : ℕ) (x y : IntentNode) : Prop :=
  BetterPrice side x.priceFp y.priceFp ∨ x.priceFp = y.priceFp ∧ x.postSeq < y.postSeq

/-- An order that outranks another one is in front of it. -/
theorem Outranks.inFront {side : ℕ} {x y : IntentNode} (outranks : Outranks side x y) : InFront side x y := by
  unfold InFront cmpKey IntentNode.key
  obtain better | ⟨price, older⟩ := outranks
  · unfold BetterPrice at better
    split <;> simp_all [Ordering.then_eq_lt, Nat.compare_eq_lt]
  · have tie : (if side = SIDE_LONG then compare y.priceFp x.priceFp else compare x.priceFp y.priceFp) = .eq := by
      rw [price]
      split <;> exact compare_eq_iff_eq.mpr rfl
    rw [tie]
    simp [Ordering.then_eq_lt, Nat.compare_eq_lt, older]

/-- The one in front has no worse price. -/
theorem InFront.price {side : ℕ} {x y : IntentNode} (front : InFront side x y) :
    ¬ BetterPrice side y.priceFp x.priceFp := by
  intro better
  exact InFront.irrefl (front.trans (Outranks.inFront (.inl better)))

end IntentTree

namespace BookView

open IntentTree

variable {v v' : BookView} {side nowSlot : ℕ}

/-- The orders of a side that can still be filled. -/
def live (v : BookView) (side nowSlot : ℕ) : List IntentNode :=
  (List.range v.header.capacity).filterMap fun i => (v.order i).filter fun o => o.side = side ∧ o.IsLive nowSlot

/-- The orders of a side that can still be filled, best first. -/
def queue (v : BookView) (side nowSlot : ℕ) : List IntentNode := (v.live side nowSlot).insertionSort (NotBehind side)

/-- There is one way to line them up. -/
theorem queue_eq {orders : List IntentNode} (sorted : orders.Pairwise (InFront side))
    (same : List.Perm (v.live side nowSlot) orders) : v.queue side nowSlot = orders := by
  have perm : List.Perm (v.queue side nowSlot) orders := (List.perm_insertionSort _ _).trans same
  have antisymm : ∀ x y, x ∈ v.queue side nowSlot → y ∈ orders → NotBehind side x y → NotBehind side y x → x = y := by
    intro x y hx hy xy yx
    by_contra different
    have symm : Std.Symm fun x y : IntentNode => x.key ≠ y.key := ⟨fun _ _ => Ne.symm⟩
    have apart : orders.Pairwise fun x y => x.key ≠ y.key := sorted.imp InFront.key_ne
    exact apart.forall (perm.mem_iff.mp hx) hy different (xy.key_eq yx)
  exact perm.eq_of_pairwise antisymm (List.pairwise_insertionSort _ _) (sorted.imp InFront.notBehind)

theorem mem_live {o : IntentNode} :
    o ∈ v.live side nowSlot ↔ ∃ i, i < v.header.capacity ∧ v.order i = some o ∧ o.side = side ∧ o.IsLive nowSlot := by
  simp only [live, List.mem_filterMap, List.mem_range, Option.filter_eq_some_iff, decide_eq_true_eq]

theorem mem_queue {o : IntentNode} :
    o ∈ v.queue side nowSlot ↔ ∃ i, i < v.header.capacity ∧ v.order i = some o ∧ o.side = side ∧ o.IsLive nowSlot :=
  (List.mem_insertionSort _).trans mem_live

/-- The orders have different keys. -/
theorem live_apart (orderly : v.Orderly) : (v.live side nowSlot).Pairwise fun x y => x.key ≠ y.key := by
  apply List.Pairwise.filterMap (R := (· ≠ ·)) _ _ List.nodup_range
  intro i j different x hx y hy same
  obtain ⟨left, -⟩ := Option.filter_eq_some_iff.mp hx
  obtain ⟨right, -⟩ := Option.filter_eq_some_iff.mp hy
  exact different (orderly.id_inj i j x y left right (congrArg OrderKey.id same))

/-- Each order of the queue is in front of the later ones. -/
theorem queue_sorted (orderly : v.Orderly) : (v.queue side nowSlot).Pairwise (InFront side) := by
  have symm : Std.Symm fun x y : IntentNode => x.key ≠ y.key := ⟨fun _ _ => Ne.symm⟩
  have apart : (v.queue side nowSlot).Pairwise fun x y => x.key ≠ y.key :=
    (List.perm_insertionSort _ _).symm.pairwise (live_apart orderly) fun different => different.symm
  have inOrder : (v.queue side nowSlot).Pairwise (NotBehind side) := List.pairwise_insertionSort _ _
  exact (inOrder.and apart).imp fun found => found.1.inFront found.2

/-! ### Changes of one slot -/

/-- What one slot adds to the live orders, and what the other slots do. -/
theorem live_update (side nowSlot : ℕ) {i : ℕ} (inside : i < v.header.capacity) (x : Option IntentNode) :
    List.Perm (live { v with order := Function.update v.order i x } side nowSlot)
      ((x.filter fun o => o.side = side ∧ o.IsLive nowSlot).toList ++
        live { v with order := Function.update v.order i none } side nowSlot) := by
  let others := (List.range v.header.capacity).erase i
  have split : List.Perm (List.range v.header.capacity) (i :: others) :=
    List.perm_cons_erase (List.mem_range.mpr inside)
  have same : ∀ y : Option IntentNode,
      others.filterMap (fun j => (Function.update v.order i y j).filter fun o => o.side = side ∧ o.IsLive nowSlot) =
        others.filterMap fun j => (v.order j).filter fun o => o.side = side ∧ o.IsLive nowSlot := by
    intro y
    apply List.filterMap_congr
    intro j member
    have other : j ≠ i := (List.nodup_range.mem_erase_iff.mp member).1
    rw [Function.update_of_ne other]
  have parts : ∀ y : Option IntentNode, List.Perm (live { v with order := Function.update v.order i y } side nowSlot)
      ((y.filter fun o => o.side = side ∧ o.IsLive nowSlot).toList ++
        others.filterMap fun j => (v.order j).filter fun o => o.side = side ∧ o.IsLive nowSlot) := by
    intro y
    refine (split.filterMap _).trans ?_
    have here : (Function.update v.order i y) i = y := Function.update_self _ _ _
    rw [List.filterMap_cons, same]
    simp only [here]
    cases y.filter fun o => o.side = side ∧ o.IsLive nowSlot with
    | none => exact List.Perm.refl _
    | some o => exact List.Perm.refl _
  exact (parts x).trans ((parts none).symm.append_left _)

/-- When the first of the queue changes but for its key, the queue is what is left of it and the others. -/
theorem queue_update_first (orderly : v.Orderly) {i : ℕ} {o : IntentNode} {others : List IntentNode}
    (inside : i < v.header.capacity) (placed : v.order i = some o) (first : v.queue side nowSlot = o :: others)
    {x : Option IntentNode} (key : ∀ y, x = some y → y.key = o.key) :
    queue { v with order := Function.update v.order i x } side nowSlot =
      (x.filter fun o => o.side = side ∧ o.IsLive nowSlot).toList ++ others := by
  have sorted : (v.queue side nowSlot).Pairwise (InFront side) := queue_sorted orderly
  rw [first, List.pairwise_cons] at sorted
  have member : o ∈ v.queue side nowSlot := first ▸ List.mem_cons_self
  obtain ⟨-, -, -, isSide, isLive⟩ := mem_queue.mp member
  have rest : List.Perm (live { v with order := Function.update v.order i none } side nowSlot) others := by
    have parts := live_update side nowSlot inside (some o)
    rw [← placed, Function.update_eq_self, placed, Option.filter_some, if_pos (by simp [isSide, isLive])] at parts
    have whole : List.Perm (v.queue side nowSlot) (v.live side nowSlot) := List.perm_insertionSort _ _
    rw [first] at whole
    exact (whole.trans parts).symm.cons_inv
  apply queue_eq
  · cases found : x.filter fun o => o.side = side ∧ o.IsLive nowSlot with
    | none => exact sorted.2
    | some y =>
      obtain ⟨rfl, -⟩ := Option.filter_eq_some_iff.mp found
      refine List.pairwise_cons.mpr ⟨fun z member => ?_, sorted.2⟩
      have front := sorted.1 z member
      unfold InFront at front ⊢
      rw [key y rfl]
      exact front
  · exact (live_update side nowSlot inside x).trans (rest.append_left _)

/-- A change of an order of the other side leaves the queue alone. -/
theorem queue_update_other {i : ℕ} {o : IntentNode} (inside : i < v.header.capacity) (placed : v.order i = some o)
    (other : o.side ≠ side) {x : Option IntentNode} (kept : ∀ y, x = some y → y.side = o.side) :
    List.Perm (live { v with order := Function.update v.order i x } side nowSlot) (v.live side nowSlot) := by
  have out : ∀ y : Option IntentNode, (∀ z, y = some z → z.side = o.side) →
      (y.filter fun o => o.side = side ∧ o.IsLive nowSlot).toList = [] := by
    intro y same
    cases y with
    | none => rfl
    | some z => simp [same z rfl, other]
  have new := live_update side nowSlot inside x
  have old := live_update side nowSlot inside (v.order i)
  rw [Function.update_eq_self, out (v.order i) (by rw [placed]; rintro z ⟨⟩; rfl)] at old
  rw [out x kept] at new
  exact new.trans old.symm

end BookView

/-! ### Trees keep to the queue -/

/-- Two lists that go through the same things, and through each once, pick the same. -/
theorem filterMap_perm {α β : Type} {xs ys : List α} {f : α → Option β} (nodup : xs.Nodup) (nodup' : ys.Nodup)
    (same : ∀ a c, f a = some c → (a ∈ xs ↔ a ∈ ys)) : List.Perm (xs.filterMap f) (ys.filterMap f) := by
  classical
  have picked : ∀ l : List α, l.filterMap f = (l.filter fun a => (f a).isSome).filterMap f := by
    intro l
    rw [List.filterMap_filter]
    apply List.filterMap_congr
    intro a _
    cases f a <;> rfl
  rw [picked xs, picked ys]
  apply List.Perm.filterMap
  rw [List.perm_ext_iff_of_nodup (nodup.filter _) (nodup'.filter _)]
  intro a
  simp only [List.mem_filter]
  apply and_congr_left
  intro some_
  obtain ⟨c, found⟩ := Option.isSome_iff_exists.mp some_
  exact same a c found

/-- A book as it can lie in an account: consistent, with numbers that fit into their fields. -/
structure WellFormed (b : IntentBook) : Prop where
  consistent : Consistent b
  capacity_lt : b.header.capacity < 2 ^ 32
  feeBuffer_lt : ∀ i o, b.order i = some o → o.feeBuffer < 2 ^ 64

namespace Laid

open IntentTree

variable {b : IntentBook} {orders : ℕ → RedBlack.Tree ℕ} {seats : RedBlack.Tree ℕ} {chain : List ℕ} {side nowSlot : ℕ}

/-- The tree of a side holds the orders of the side. -/
theorem mem_tree (laid : Laid b NULL_IDX orders seats chain) (isSide : IsSide side) {i : ℕ} :
    i ∈ (orders side).toList ↔ ∃ o, b.order i = some o ∧ o.side = side := by
  constructor
  · intro member
    obtain ⟨-, node, slot, sided⟩ := laid.ownSide side isSide i member
    exact ⟨_, IntentBook.order_of_intent slot, sided⟩
  · rintro ⟨o, placed, rfl⟩
    obtain ⟨node, slot, rfl⟩ := IntentBook.intent_of_order placed
    refine (laid.inTree i node slot).2 ?_
    rintro rfl
    obtain ⟨next, free⟩ := laid.blank NULL_IDX (.inl rfl) (IntentBook.lt_length_of_getElem? slot)
    rw [slot] at free
    cases free

/-- The live orders of a tree, in its order, are the queue of its side. -/
theorem queue_eq (laid : Laid b NULL_IDX orders seats chain) (isSide : IsSide side) :
    b.view.queue side nowSlot = (orders side).toList.filterMap fun i => (b.order i).filter fun o => o.IsLive nowSlot := by
  have valid := laid.orderTree side isSide
  have listed : ((orders side).toList.filterMap fun i => (b.order i).filter fun o => o.IsLive nowSlot) =
      (orders side).toList.filterMap fun i => (b.order i).filter fun o => o.side = side ∧ o.IsLive nowSlot := by
    apply List.filterMap_congr
    intro i member
    obtain ⟨o, placed, rfl⟩ := (laid.mem_tree isSide).mp member
    simp [placed, Option.filter]
  apply BookView.queue_eq
  · apply List.Pairwise.filterMap _ _ valid.ordered
    intro i j precedes x hx y hy
    obtain ⟨left, -⟩ := Option.filter_eq_some_iff.mp hx
    obtain ⟨right, -⟩ := Option.filter_eq_some_iff.mp hy
    obtain ⟨m, slot, rfl⟩ := IntentBook.intent_of_order left
    obtain ⟨n, slot', rfl⟩ := IntentBook.intent_of_order right
    exact (LinkedPool.precedes_iff (key_of_intent slot) (key_of_intent slot')).mp precedes
  · rw [listed]
    apply filterMap_perm List.nodup_range valid.shape.nodup
    intro i o found
    obtain ⟨placed, kept⟩ := Option.filter_eq_some_iff.mp found
    have inside := IntentBook.order_lt placed
    rw [laid.length] at inside
    have sided : o.side = side := (of_decide_eq_true kept).1
    exact iff_of_true (List.mem_range.mpr inside) ((laid.mem_tree isSide).mpr ⟨o, placed, sided⟩)

end Laid

end Polyleverage
