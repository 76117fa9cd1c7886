import Polyleverage.Invariants.Bare
import Mathlib.Algebra.BigOperators.Group.Finset.Basic

/-! # What a book says

To a trader a book is a number of orders, the traders that placed them, and some counters. The view
forgets how the pool keeps them: links, tags of free slots, and the number of slots in use.
-/

namespace Polyleverage

open RedBlack

/-- Long or short. -/
def IsSide (side : ℕ) : Prop := side = SIDE_LONG ∨ side = SIDE_SHORT

/-- The header without what manages the pool. -/
def IntentBookHeader.terms (h : IntentBookHeader) : IntentBookHeader := { h.bare with nodeCount := 0 }

/-- The orders by slot, the traders by seat, and the counters. -/
structure BookView where
  order : ℕ → Option IntentNode
  trader : ℕ → Option Pubkey
  header : IntentBookHeader

def RawNode.order : RawNode → Option IntentNode
  | .intent node => some (node.withLinks noLinks)
  | _ => none

def RawNode.trader : RawNode → Option Pubkey
  | .seat node => some node.trader
  | _ => none

namespace IntentBook

def order (b : IntentBook) (i : ℕ) : Option IntentNode := b.nodes[i]?.bind RawNode.order

def trader (b : IntentBook) (i : ℕ) : Option Pubkey := b.nodes[i]?.bind RawNode.trader

def view (b : IntentBook) : BookView := ⟨b.order, b.trader, b.header.terms⟩

variable {b b' : IntentBook} {i : ℕ}

theorem order_of_intent {node : IntentNode} (slot : b.nodes[i]? = some (.intent node)) :
    b.order i = some (node.withLinks noLinks) := by
  rw [order, slot]
  rfl

theorem trader_of_seat {node : SeatNode} (slot : b.nodes[i]? = some (.seat node)) : b.trader i = some node.trader := by
  rw [trader, slot]
  rfl

theorem order_of_free {next : ℕ} (slot : b.nodes[i]? = some (.free next)) : b.order i = none := by
  rw [order, slot]
  rfl

theorem trader_of_free {next : ℕ} (slot : b.nodes[i]? = some (.free next)) : b.trader i = none := by
  rw [trader, slot]
  rfl

theorem intent_of_order {o : IntentNode} (placed : b.order i = some o) :
    ∃ node, b.nodes[i]? = some (.intent node) ∧ node.withLinks noLinks = o := by
  unfold order at placed
  cases slot : b.nodes[i]? with
  | none => simp [slot] at placed
  | some raw =>
    cases raw with
    | intent node => exact ⟨node, rfl, by simpa [slot, RawNode.order] using placed⟩
    | _ => simp [slot, RawNode.order] at placed

theorem seat_of_trader {t : Pubkey} (seated : b.trader i = some t) :
    ∃ node, b.nodes[i]? = some (.seat node) ∧ node.trader = t := by
  unfold trader at seated
  cases slot : b.nodes[i]? with
  | none => simp [slot] at seated
  | some raw =>
    cases raw with
    | seat node => exact ⟨node, rfl, by simpa [slot, RawNode.trader] using seated⟩
    | _ => simp [slot, RawNode.trader] at seated

theorem order_lt {o : IntentNode} (placed : b.order i = some o) : i < b.nodes.length := by
  obtain ⟨node, slot, -⟩ := intent_of_order placed
  exact lt_length_of_getElem? slot

@[simp] theorem order_bare (raw : RawNode) : raw.bare.order = raw.order := by cases raw <;> rfl

@[simp] theorem trader_bare (raw : RawNode) : raw.bare.trader = raw.trader := by cases raw <;> rfl

@[simp] theorem terms_bare (h : IntentBookHeader) : h.bare.terms = h.terms := rfl

/-- The view looks at the content of the slots only. -/
theorem view_bare : b.bare.view = b.view := by
  have slots : ∀ {α : Type} (f : RawNode → Option α) (i : ℕ), (∀ raw, f raw.bare = f raw) →
      b.bare.nodes[i]?.bind f = b.nodes[i]?.bind f := by
    intro α f i same
    rw [getElem?_bare]
    cases b.nodes[i]? with
    | none => rfl
    | some raw => exact same raw
  simp only [view, BookView.mk.injEq]
  exact ⟨funext fun i => slots _ i order_bare, funext fun i => slots _ i trader_bare, rfl⟩

theorem view_of_bare (same : b'.bare = b.bare) : b'.view = b.view := by
  rw [← view_bare, same, view_bare]

/-- Writing a node changes the view of its slot. -/
theorem view_setNode (inside : i < b.nodes.length) (raw : RawNode) :
    (b.setNode i raw).view =
      ⟨Function.update b.order i raw.order, Function.update b.trader i raw.trader, b.header.terms⟩ := by
  have slots : ∀ {α : Type} (f : RawNode → Option α),
      (fun j : ℕ => (b.setNode i raw).nodes[j]?.bind f) = Function.update (fun j : ℕ => b.nodes[j]?.bind f) i (f raw) := by
    intro α f
    funext j
    by_cases same : j = i
    · subst same
      rw [getElem?_setNode_self inside, Function.update_self]
      rfl
    · rw [getElem?_setNode_of_ne same, Function.update_of_ne same]
  simp only [view, BookView.mk.injEq, header_setNode, and_true]
  exact ⟨slots _, slots _⟩

/-- A node of the same kind with the same content leaves the view as it is. -/
theorem view_setNode_same {raw raw' : RawNode} (slot : b.nodes[i]? = some raw) (order : raw'.order = raw.order)
    (trader : raw'.trader = raw.trader) : (b.setNode i raw').view = b.view := by
  rw [view_setNode (lt_length_of_getElem? slot), order, trader]
  simp only [view, BookView.mk.injEq, and_true]
  constructor
  · apply Function.update_eq_self_iff.mpr
    rw [IntentBook.order, slot]
    rfl
  · apply Function.update_eq_self_iff.mpr
    rw [IntentBook.trader, slot]
    rfl

end IntentBook

/-! ### Order in the orders -/

/-- Every order has a seated owner, and its numbers are its own and smaller than the next ones. -/
structure BookView.Orderly (v : BookView) : Prop where
  owned : ∀ i o, v.order i = some o → ∃ t, v.trader o.ownerSeat = some t
  id_lt : ∀ i o, v.order i = some o → o.id < v.header.nextIntentId
  id_inj : ∀ i j o o', v.order i = some o → v.order j = some o' → o.id = o'.id → i = j
  seq_lt : ∀ i o, v.order i = some o → o.postSeq < v.header.nextSeq
  seq_inj : ∀ i j o o', v.order i = some o → v.order j = some o' → o.postSeq = o'.postSeq → i = j

namespace BookView.Orderly

variable {v v' : BookView}

/-- Numbers may be used up, traders may join, and orders may leave or change in other things. -/
theorem mono (orderly : v.Orderly) (ids : v.header.nextIntentId ≤ v'.header.nextIntentId)
    (seqs : v.header.nextSeq ≤ v'.header.nextSeq) (traders : ∀ i t, v.trader i = some t → v'.trader i = some t)
    (orders : ∀ i o, v'.order i = some o →
      ∃ o', v.order i = some o' ∧ o.ownerSeat = o'.ownerSeat ∧ o.id = o'.id ∧ o.postSeq = o'.postSeq) :
    v'.Orderly where
  owned i o placed := by
    obtain ⟨o', old, owner, -⟩ := orders i o placed
    obtain ⟨t, seated⟩ := orderly.owned i o' old
    exact ⟨t, traders _ t (owner ▸ seated)⟩
  id_lt i o placed := by
    obtain ⟨o', old, -, id, -⟩ := orders i o placed
    have := orderly.id_lt i o' old
    omega
  id_inj i j o p placed placed' same := by
    obtain ⟨o', old, -, id, -⟩ := orders i o placed
    obtain ⟨p', old', -, id', -⟩ := orders j p placed'
    exact orderly.id_inj i j o' p' old old' (by omega)
  seq_lt i o placed := by
    obtain ⟨o', old, -, -, seq⟩ := orders i o placed
    have := orderly.seq_lt i o' old
    omega
  seq_inj i j o p placed placed' same := by
    obtain ⟨o', old, -, -, seq⟩ := orders i o placed
    obtain ⟨p', old', -, -, seq'⟩ := orders j p placed'
    exact orderly.seq_inj i j o' p' old old' (by omega)

/-- An order with fresh numbers joins. -/
theorem place (orderly : v.Orderly) {i : ℕ} {o : IntentNode} {t : Pubkey} (seated : v.trader o.ownerSeat = some t)
    (id : v.header.nextIntentId ≤ o.id ∧ o.id < v'.header.nextIntentId)
    (seq : v.header.nextSeq ≤ o.postSeq ∧ o.postSeq < v'.header.nextSeq)
    (orders : v'.order = Function.update v.order i (some o)) (traders : v'.trader = v.trader) : v'.Orderly := by
  have cases_order : ∀ j p, v'.order j = some p → (j = i ∧ p = o) ∨ (j ≠ i ∧ v.order j = some p) := by
    intro j p placed
    rw [orders] at placed
    by_cases same : j = i
    · subst same
      rw [Function.update_self] at placed
      exact .inl ⟨rfl, (Option.some.inj placed).symm⟩
    · rw [Function.update_of_ne same] at placed
      exact .inr ⟨same, placed⟩
  constructor
  · intro j p placed
    rw [traders]
    rcases cases_order j p placed with ⟨-, rfl⟩ | ⟨-, old⟩
    · exact ⟨t, seated⟩
    · exact orderly.owned j p old
  · intro j p placed
    rcases cases_order j p placed with ⟨-, rfl⟩ | ⟨-, old⟩
    · exact id.2
    · have := orderly.id_lt j p old
      omega
  · intro j k p q placed placed' same
    rcases cases_order j p placed with ⟨rfl, rfl⟩ | ⟨-, old⟩ <;>
      rcases cases_order k q placed' with ⟨rfl, rfl⟩ | ⟨-, old'⟩
    · rfl
    · have := orderly.id_lt k q old'
      omega
    · have := orderly.id_lt j p old
      omega
    · exact orderly.id_inj j k p q old old' same
  · intro j p placed
    rcases cases_order j p placed with ⟨-, rfl⟩ | ⟨-, old⟩
    · exact seq.2
    · have := orderly.seq_lt j p old
      omega
  · intro j k p q placed placed' same
    rcases cases_order j p placed with ⟨rfl, rfl⟩ | ⟨-, old⟩ <;>
      rcases cases_order k q placed' with ⟨rfl, rfl⟩ | ⟨-, old'⟩
    · rfl
    · have := orderly.seq_lt k q old'
      omega
    · have := orderly.seq_lt j p old
      omega
    · exact orderly.seq_inj j k p q old old' same

end BookView.Orderly

/-! ### What the orders weigh -/

namespace BookView

/-- What all orders weigh together. -/
def tally (v : BookView) (weight : IntentNode → ℕ) : ℕ :=
  ∑ i ∈ Finset.range v.header.capacity, (v.order i).elim 0 weight

variable {v v' : BookView} {t : Pubkey}

/-- One slot changes: what its order weighed goes, and what its new order weighs comes. -/
theorem tally_update (weight weight' : IntentNode → ℕ) {i : ℕ} {o : Option IntentNode} (inside : i < v.header.capacity)
    (order : v'.order = Function.update v.order i o) (capacity : v'.header.capacity = v.header.capacity)
    (same : ∀ j p, v.order j = some p → weight' p = weight p) :
    v'.tally weight' + (v.order i).elim 0 weight = v.tally weight + o.elim 0 weight' := by
  have member : i ∈ Finset.range v.header.capacity := Finset.mem_range.mpr inside
  unfold tally
  rw [capacity, ← Finset.add_sum_erase _ _ member, ← Finset.add_sum_erase _ (fun i => (v.order i).elim 0 _) member]
  have here : v'.order i = o := by rw [order, Function.update_self]
  have others : ∑ j ∈ (Finset.range v.header.capacity).erase i, (v'.order j).elim 0 weight' =
      ∑ j ∈ (Finset.range v.header.capacity).erase i, (v.order j).elim 0 weight := by
    apply Finset.sum_congr rfl
    intro j other
    rw [order, Function.update_of_ne (Finset.ne_of_mem_erase other)]
    cases placed : v.order j with
    | none => rfl
    | some p => exact same j p placed
  rw [here, others]
  omega

/-- What an order reserves of a trader's collateral. -/
def weigh (v : BookView) (t : Pubkey) (o : IntentNode) : ℕ :=
  if v.trader o.ownerSeat = some t then o.reservedCollateral + o.feeBuffer else 0

/-- What all orders of a trader reserve. -/
def reserved (v : BookView) (t : Pubkey) : ℕ := ∑ i ∈ Finset.range v.header.capacity, (v.order i).elim 0 (v.weigh t)

/-- Orders weigh the same to traders that keep their seats. -/
theorem weigh_congr (orderly : v.Orderly) (traders : ∀ i t, v.trader i = some t → v'.trader i = some t) {i : ℕ}
    {o : IntentNode} (placed : v.order i = some o) : v'.weigh t o = v.weigh t o := by
  obtain ⟨owner, seated⟩ := orderly.owned i o placed
  rw [weigh, weigh, seated, traders _ _ seated]

/-- One slot changes: what its order reserved goes, and what its new order reserves comes. -/
theorem reserved_update (orderly : v.Orderly) {i : ℕ} {o : Option IntentNode} (inside : i < v.header.capacity)
    (order : v'.order = Function.update v.order i o) (capacity : v'.header.capacity = v.header.capacity)
    (traders : ∀ i t, v.trader i = some t → v'.trader i = some t) :
    v'.reserved t + (v.order i).elim 0 (v.weigh t) = v.reserved t + o.elim 0 (v'.weigh t) :=
  tally_update _ _ inside order capacity fun _ _ placed => weigh_congr orderly traders placed

/-- How many orders a seat has. -/
def ordersOf (v : BookView) (seat : ℕ) : ℕ := v.tally fun o => if o.ownerSeat = seat then 1 else 0

end BookView

end Polyleverage
