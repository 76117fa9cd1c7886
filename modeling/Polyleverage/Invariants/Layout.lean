import Polyleverage.Invariants.BookView
import Polyleverage.Invariants.NodePool
import Polyleverage.Invariants.OrderTree

/-! # How a book lies in its pool

Both order trees, the seat tree and the free list share the pool. Every intent is in the tree of its
side and every seat in the seat tree, but for one slot that may be pending while an operation moves
it in or out. Each primitive of the book keeps the layout.
-/

namespace Polyleverage

open RedBlack

/-- The layout of a book; the slot `0` is pending when none is. -/
structure Laid (b : IntentBook) (pending : ℕ) (orders : ℕ → RedBlack.Tree ℕ) (seats : RedBlack.Tree ℕ) (chain : List ℕ) : Prop where
  orderTree : ∀ side, IsSide side → (IntentTree.pool side).Valid b (orders side)
  seatTree : SeatTree.pool.Valid b seats
  inTree : ∀ i node, b.nodes[i]? = some (.intent node) → IsSide node.side ∧ (i ≠ pending → i ∈ (orders node.side).toList)
  ownSide : ∀ side, IsSide side → ∀ i ∈ (orders side).toList,
    i ≠ pending ∧ ∃ node, b.nodes[i]? = some (.intent node) ∧ node.side = side
  seated : ∀ i node, b.nodes[i]? = some (.seat node) → i ≠ pending → i ∈ seats.toList
  outSeats : pending ∉ seats.toList
  freeChain : FreeChain b.nodes b.header.freelistHead chain
  nodup : chain.Nodup
  count : ∀ i ∈ chain, i < b.header.nodeCount
  blank : ∀ i, i = NULL_IDX ∨ b.header.nodeCount ≤ i → i < b.nodes.length → ∃ next, b.nodes[i]? = some (.free next)
  length : b.nodes.length = b.header.capacity
  one_le : 1 ≤ b.header.nodeCount

namespace SeatTree

variable {b : IntentBook} {i : ℕ} {node : SeatNode}

theorem links_of_seat (slot : b.nodes[i]? = some (.seat node)) : pool.links b i = .ok node.links := by
  simp [pool, IntentBook.seat, slot, Except.map]

theorem key_of_seat (slot : b.nodes[i]? = some (.seat node)) : pool.key b i = .ok node.trader := by
  simp [pool, IntentBook.seat, slot, Except.map]

theorem seat_of_links {l : Links} (linked : pool.links b i = .ok l) : ∃ node, b.nodes[i]? = some (.seat node) := by
  change (b.seat i).map SeatNode.links = .ok l at linked
  cases found : b.seat i with
  | error e => simp [found, Except.map] at linked
  | ok n => exact ⟨n, IntentBook.seat_eq_ok.mp found⟩

/-- The nodes of the tree are seats. -/
theorem seat_of_mem {w : RedBlack.Tree ℕ} (valid : pool.Valid b w) (member : i ∈ w.toList) :
    ∃ node, b.nodes[i]? = some (.seat node) := by
  obtain ⟨l, linked⟩ := valid.shape.stored.links_ok member
  exact seat_of_links linked

/-- The tree stays what it is when its seats keep their links and traders. -/
theorem valid_frame {b' : IntentBook} {w : RedBlack.Tree ℕ} (valid : pool.Valid b w)
    (same : ∀ j ∈ w.toList, ∀ node, b.nodes[j]? = some (.seat node) →
      ∃ node', b'.nodes[j]? = some (.seat node') ∧ node'.links = node.links ∧ node'.trader = node.trader)
    (root : b'.header.seatTreeRoot = b.header.seatTreeRoot) : pool.Valid b' w := by
  apply valid.frame
  · intro j member
    obtain ⟨node, slot⟩ := seat_of_mem valid member
    obtain ⟨node', slot', links, -⟩ := same j member node slot
    rw [links_of_seat slot, links_of_seat slot', links]
  · exact congrArg Except.ok root
  · intro j member
    obtain ⟨node, slot⟩ := seat_of_mem valid member
    obtain ⟨node', slot', -, trader⟩ := same j member node slot
    rw [key_of_seat slot, key_of_seat slot', trader]

end SeatTree

namespace IntentTree

/-- The tree stays what it is when its intents keep their links and keys. -/
theorem valid_frame_of_keys {side : ℕ} {b b' : IntentBook} {w : RedBlack.Tree ℕ} (valid : (pool side).Valid b w)
    (same : ∀ j ∈ w.toList, ∀ node, b.nodes[j]? = some (.intent node) →
      ∃ node', b'.nodes[j]? = some (.intent node') ∧ node'.links = node.links ∧ node'.key = node.key)
    (root : treeRoot b' side = treeRoot b side) : (pool side).Valid b' w := by
  apply valid.frame
  · intro j member
    obtain ⟨node, slot⟩ := intent_of_mem valid member
    obtain ⟨node', slot', links, -⟩ := same j member node slot
    rw [links_of_intent slot, links_of_intent slot', links]
  · exact root
  · intro j member
    obtain ⟨node, slot⟩ := intent_of_mem valid member
    obtain ⟨node', slot', -, key⟩ := same j member node slot
    rw [key_of_intent slot, key_of_intent slot', key]

end IntentTree

/-! ### A fresh book -/

theorem laid_init (instrument : Pubkey) (capacity bump cachedMaxFeeBps : ℕ) :
    Laid (IntentBook.initIntentBook instrument capacity bump cachedMaxFeeBps) NULL_IDX (fun _ => .leaf) .leaf [] := by
  have free : ∀ {i : ℕ} {raw : RawNode},
      (IntentBook.initIntentBook instrument capacity bump cachedMaxFeeBps).nodes[i]? = some raw → raw = .free NULL_IDX := by
    intro i raw slot
    simp only [IntentBook.initIntentBook, List.getElem?_replicate] at slot
    split at slot
    · exact (Option.some.inj slot).symm
    · cases slot
  refine
    { orderTree := fun side isSide => LinkedPool.valid_leaf ?_
      seatTree := LinkedPool.valid_leaf rfl
      inTree := fun i node slot => ?_
      ownSide := fun side _ i member => ?_
      seated := fun i node slot => ?_
      outSeats := by simp
      freeChain := rfl
      nodup := List.nodup_nil
      count := fun i member => ?_
      blank := fun i _ inside => ⟨NULL_IDX, ?_⟩
      length := List.length_replicate
      one_le := le_refl 1 }
  · rcases isSide with rfl | rfl <;> rfl
  · cases free slot
  · simp at member
  · cases free slot
  · cases member
  · rw [List.getElem?_eq_getElem inside]
    exact congrArg some (List.getElem_replicate inside)

section Primitives

variable {b b' : IntentBook} {pending i : ℕ} {orders : ℕ → RedBlack.Tree ℕ} {seats : RedBlack.Tree ℕ} {chain : List ℕ}

namespace Laid

/-! ### What lies where -/

/-- An intent lies in a used slot. -/
theorem intent_used (laid : Laid b pending orders seats chain) {node : IntentNode}
    (slot : b.nodes[i]? = some (.intent node)) : i ≠ NULL_IDX ∧ i < b.header.nodeCount := by
  by_contra outside
  have unused : i = NULL_IDX ∨ b.header.nodeCount ≤ i := by omega
  obtain ⟨next, free⟩ := laid.blank i unused (IntentBook.lt_length_of_getElem? slot)
  rw [slot] at free
  cases free

theorem seat_used (laid : Laid b pending orders seats chain) {node : SeatNode}
    (slot : b.nodes[i]? = some (.seat node)) : i ≠ NULL_IDX ∧ i < b.header.nodeCount := by
  by_contra outside
  have unused : i = NULL_IDX ∨ b.header.nodeCount ≤ i := by omega
  obtain ⟨next, free⟩ := laid.blank i unused (IntentBook.lt_length_of_getElem? slot)
  rw [slot] at free
  cases free

/-- An intent or a seat is not on the free list. -/
theorem notMem_chain (laid : Laid b pending orders seats chain) {raw : RawNode} (slot : b.nodes[i]? = some raw)
    (used : ∀ next, raw ≠ .free next) : i ∉ chain := by
  intro member
  obtain ⟨next, free⟩ := laid.freeChain.free member
  rw [slot] at free
  exact used next (Option.some.inj free)

/-- A free slot is in no order tree. -/
theorem notMem_orders (laid : Laid b pending orders seats chain) {raw : RawNode} (slot : b.nodes[i]? = some raw)
    (other : ∀ node, raw ≠ .intent node) {side : ℕ} (isSide : IsSide side) : i ∉ (orders side).toList := by
  intro member
  obtain ⟨-, node, intent, -⟩ := laid.ownSide side isSide i member
  rw [slot] at intent
  exact other node (Option.some.inj intent)

theorem notMem_seats (laid : Laid b pending orders seats chain) {raw : RawNode} (slot : b.nodes[i]? = some raw)
    (other : ∀ node, raw ≠ .seat node) : i ∉ seats.toList := by
  intro member
  obtain ⟨node, seat⟩ := SeatTree.seat_of_mem laid.seatTree member
  rw [slot] at seat
  exact other node (Option.some.inj seat)

/-- The sentinel is not a seat. -/
theorem null_notMem_seats (laid : Laid b pending orders seats chain) : NULL_IDX ∉ seats.toList := by
  intro member
  obtain ⟨node, slot⟩ := SeatTree.seat_of_mem laid.seatTree member
  exact (laid.seat_used slot).1 rfl

/-! ### Allocation -/

/-- A slot that was just allocated: nobody uses it. -/
structure Spare (b : IntentBook) (chain : List ℕ) (i : ℕ) : Prop where
  present : i ≠ NULL_IDX
  counted : i < b.header.nodeCount
  free : ∃ next, b.nodes[i]? = some (.free next)
  out : i ∉ chain

theorem allocNode (laid : Laid b NULL_IDX orders seats chain) (ran : IntentBook.allocNode.run b = .ok i b') :
    ∃ chain', Laid b' NULL_IDX orders seats chain' ∧ Spare b' chain' i ∧ b'.view = b.view := by
  rw [IntentBook.allocNode, Exec.run_bind_get] at ran
  have trees : ∀ c : IntentBook, c.nodes = b.nodes → (∀ side, IntentTree.treeRoot c side = IntentTree.treeRoot b side) →
      ∀ side, IsSide side → (IntentTree.pool side).Valid c (orders side) := by
    intro c nodes root side isSide
    exact IntentTree.valid_frame (laid.orderTree side isSide) (fun j _ => by rw [nodes]) (root side)
  have seatsOf : ∀ c : IntentBook, c.nodes = b.nodes → c.header.seatTreeRoot = b.header.seatTreeRoot →
      SeatTree.pool.Valid c seats := by
    intro c nodes root
    exact SeatTree.valid_frame laid.seatTree (fun j _ node slot => ⟨node, by rw [nodes, slot], rfl, rfl⟩) root
  by_cases empty : b.header.freelistHead = NULL_IDX
  · rw [if_neg (by simpa using empty)] at ran
    simp only [Exec.bind_ok, Exec.rejectIf_ok, Exec.orErr_ok, Exec.put_ok, Exec.pure_ok,
      Machine.checkedAdd_eq_some] at ran
    obtain ⟨_, _, ⟨room, rfl⟩, _, _, ⟨⟨_, rfl⟩, rfl⟩, _, _, rfl, rfl, rfl⟩ := ran
    have inside : b.header.nodeCount < b.nodes.length := by
      rw [laid.length]
      omega
    obtain rfl : chain = [] := laid.freeChain.head_eq_zero.mp empty
    refine ⟨[], ?_, ?_, rfl⟩
    · refine
        { orderTree := trees _ rfl fun _ => rfl
          seatTree := seatsOf _ rfl rfl
          inTree := laid.inTree
          ownSide := laid.ownSide
          seated := laid.seated
          outSeats := laid.outSeats
          freeChain := laid.freeChain
          nodup := laid.nodup
          count := by simp
          blank := fun j unused => laid.blank j ?_
          length := laid.length
          one_le := Nat.le_add_left 1 _ }
      rcases unused with zero | high
      · exact .inl zero
      · exact .inr (Nat.le_of_succ_le high)
    · have present := laid.one_le
      refine ⟨?_, Nat.lt_succ_self _, laid.blank _ (.inr (le_refl _)) inside, by simp⟩
      intro zero
      rw [zero] at present
      exact absurd present (by decide)
  · rw [if_pos empty] at ran
    obtain ⟨rest, rfl⟩ : ∃ rest, chain = b.header.freelistHead :: rest := by
      cases chain with
      | nil => exact absurd laid.freeChain empty
      | cons j rest => exact ⟨rest, by rw [laid.freeChain.1]⟩
    obtain ⟨-, present, next, slot, below⟩ := laid.freeChain
    simp only [slot, Exec.bind_ok, Exec.put_ok, Exec.pure_ok, RawNode.nextFree] at ran
    obtain ⟨_, _, rfl, rfl, rfl⟩ := ran
    have nodup := List.nodup_cons.mp laid.nodup
    refine ⟨rest, ?_, ⟨present, laid.count _ List.mem_cons_self, ⟨next, slot⟩, nodup.1⟩, rfl⟩
    exact
      { orderTree := trees _ rfl fun _ => rfl
        seatTree := seatsOf _ rfl rfl
        inTree := laid.inTree
        ownSide := laid.ownSide
        seated := laid.seated
        outSeats := laid.outSeats
        freeChain := below
        nodup := nodup.2
        count := fun j member => laid.count j (List.mem_cons_of_mem _ member)
        blank := laid.blank
        length := laid.length
        one_le := laid.one_le }

/-! ### Writing nodes -/

/-- Writing an intent or a seat into a spare slot makes the slot pending. -/
theorem write_spare (laid : Laid b NULL_IDX orders seats chain) (spare : Spare b chain i) {raw : RawNode}
    (sides : ∀ node, raw = .intent node → IsSide node.side) : Laid (b.setNode i raw) i orders seats chain := by
  obtain ⟨next, slot⟩ := spare.free
  have inside := IntentBook.lt_length_of_getElem? slot
  have here : (b.setNode i raw).nodes[i]? = some raw := IntentBook.getElem?_setNode_self inside
  have there : ∀ j, j ≠ i → (b.setNode i raw).nodes[j]? = b.nodes[j]? := fun j => IntentBook.getElem?_setNode_of_ne
  have outOrders : ∀ side, IsSide side → i ∉ (orders side).toList := fun side isSide =>
    laid.notMem_orders slot (by simp) isSide
  have outSeats : i ∉ seats.toList := laid.notMem_seats slot (by simp)
  constructor
  · intro side isSide
    apply IntentTree.valid_frame (laid.orderTree side isSide)
    · intro j member
      exact there j (ne_of_mem_of_not_mem member (outOrders side isSide))
    · rfl
  · apply SeatTree.valid_frame laid.seatTree
    · intro j member node found
      exact ⟨node, by rw [there j (ne_of_mem_of_not_mem member outSeats), found], rfl, rfl⟩
    · rfl
  · intro j node found
    by_cases same : j = i
    · subst same
      rw [here] at found
      exact ⟨sides node (Option.some.inj found), fun other => absurd rfl other⟩
    · rw [there j same] at found
      have old := laid.inTree j node found
      exact ⟨old.1, fun _ => old.2 (laid.intent_used found).1⟩
  · intro side isSide j member
    have other := ne_of_mem_of_not_mem member (outOrders side isSide)
    rw [there j other]
    exact ⟨other, (laid.ownSide side isSide j member).2⟩
  · intro j node found other
    rw [there j other] at found
    exact laid.seated j node found (laid.seat_used found).1
  · exact outSeats
  · exact laid.freeChain.congr fun j member => there j (ne_of_mem_of_not_mem member spare.out)
  · exact laid.nodup
  · exact laid.count
  · intro j unused insideJ
    have other : j ≠ i := by
      rintro rfl
      rcases unused with zero | high
      · exact spare.present zero
      · exact absurd spare.counted (Nat.not_lt.mpr high)
    rw [there j other]
    rw [IntentBook.length_setNode] at insideJ
    exact laid.blank j unused insideJ
  · exact (IntentBook.length_setNode raw).trans laid.length
  · exact laid.one_le

/-- Changing an intent in anything but its links, its key and its side. -/
theorem rewrite_intent (laid : Laid b pending orders seats chain) {node node' : IntentNode}
    (slot : b.nodes[i]? = some (.intent node)) (links : node'.links = node.links) (key : node'.key = node.key)
    (side : node'.side = node.side) : Laid (b.setNode i (.intent node')) pending orders seats chain := by
  have inside := IntentBook.lt_length_of_getElem? slot
  have here : (b.setNode i (.intent node')).nodes[i]? = some (.intent node') := IntentBook.getElem?_setNode_self inside
  have there : ∀ j, j ≠ i → (b.setNode i (.intent node')).nodes[j]? = b.nodes[j]? := fun j =>
    IntentBook.getElem?_setNode_of_ne
  have out : i ∉ chain := laid.notMem_chain slot (by simp)
  constructor
  · intro s isSide
    apply IntentTree.valid_frame_of_keys (laid.orderTree s isSide)
    · intro j _ n found
      by_cases same : j = i
      · subst same
        rw [slot] at found
        cases found
        exact ⟨node', here, links, key⟩
      · exact ⟨n, by rw [there j same, found], rfl, rfl⟩
    · rfl
  · apply SeatTree.valid_frame laid.seatTree
    · intro j _ n found
      have other : j ≠ i := by
        rintro rfl
        rw [slot] at found
        cases found
      exact ⟨n, by rw [there j other, found], rfl, rfl⟩
    · rfl
  · intro j n found
    by_cases same : j = i
    · subst same
      rw [here] at found
      cases found
      rw [side]
      exact laid.inTree j node slot
    · rw [there j same] at found
      exact laid.inTree j n found
  · intro s isSide j member
    have old := laid.ownSide s isSide j member
    refine ⟨old.1, ?_⟩
    by_cases same : j = i
    · subst same
      obtain ⟨n, found, own⟩ := old.2
      rw [slot] at found
      cases found
      exact ⟨node', here, side.trans own⟩
    · rw [there j same]
      exact old.2
  · intro j n found
    have other : j ≠ i := by
      rintro rfl
      rw [here] at found
      cases found
    rw [there j other] at found
    exact laid.seated j n found
  · exact laid.outSeats
  · exact laid.freeChain.congr fun j member => there j (ne_of_mem_of_not_mem member out)
  · exact laid.nodup
  · exact laid.count
  · intro j unused insideJ
    have other : j ≠ i := by
      rintro rfl
      have used := laid.intent_used slot
      rcases unused with zero | high
      · exact used.1 zero
      · exact absurd used.2 (Nat.not_lt.mpr high)
    rw [there j other]
    rw [IntentBook.length_setNode] at insideJ
    exact laid.blank j unused insideJ
  · exact (IntentBook.length_setNode _).trans laid.length
  · exact laid.one_le

/-- Changing a seat in anything but its links and its trader. -/
theorem rewrite_seat (laid : Laid b pending orders seats chain) {node node' : SeatNode}
    (slot : b.nodes[i]? = some (.seat node)) (links : node'.links = node.links) (trader : node'.trader = node.trader) :
    Laid (b.setNode i (.seat node')) pending orders seats chain := by
  have inside := IntentBook.lt_length_of_getElem? slot
  have here : (b.setNode i (.seat node')).nodes[i]? = some (.seat node') := IntentBook.getElem?_setNode_self inside
  have there : ∀ j, j ≠ i → (b.setNode i (.seat node')).nodes[j]? = b.nodes[j]? := fun j =>
    IntentBook.getElem?_setNode_of_ne
  have out : i ∉ chain := laid.notMem_chain slot (by simp)
  have outOrders : ∀ side, IsSide side → i ∉ (orders side).toList := fun side isSide =>
    laid.notMem_orders slot (by simp) isSide
  constructor
  · intro s isSide
    apply IntentTree.valid_frame (laid.orderTree s isSide)
    · intro j member
      exact there j (ne_of_mem_of_not_mem member (outOrders s isSide))
    · rfl
  · apply SeatTree.valid_frame laid.seatTree
    · intro j _ n found
      by_cases same : j = i
      · subst same
        rw [slot] at found
        cases found
        exact ⟨node', here, links, trader⟩
      · exact ⟨n, by rw [there j same, found], rfl, rfl⟩
    · rfl
  · intro j n found
    have other : j ≠ i := by
      rintro rfl
      rw [here] at found
      cases found
    rw [there j other] at found
    exact laid.inTree j n found
  · intro s isSide j member
    rw [there j (ne_of_mem_of_not_mem member (outOrders s isSide))]
    exact laid.ownSide s isSide j member
  · intro j n found
    by_cases same : j = i
    · subst same
      exact laid.seated j node slot
    · rw [there j same] at found
      exact laid.seated j n found
  · exact laid.outSeats
  · exact laid.freeChain.congr fun j member => there j (ne_of_mem_of_not_mem member out)
  · exact laid.nodup
  · exact laid.count
  · intro j unused insideJ
    have other : j ≠ i := by
      rintro rfl
      have used := laid.seat_used slot
      rcases unused with zero | high
      · exact used.1 zero
      · exact absurd used.2 (Nat.not_lt.mpr high)
    rw [there j other]
    rw [IntentBook.length_setNode] at insideJ
    exact laid.blank j unused insideJ
  · exact (IntentBook.length_setNode _).trans laid.length
  · exact laid.one_le

/-! ### Moving in and out of the trees -/

end Laid

/-- Work on one tree keeps every slot that holds no intent. -/
theorem SameButTree.slot_eq {side : ℕ} (same : SameButTree side b b')
    (other : ∀ node, b'.nodes[i]? ≠ some (.intent node)) : b'.nodes[i]? = b.nodes[i]? := by
  apply same.notIntent
  intro node slot
  have content := IntentBook.bare_of_intent slot
  rw [← same.bare] at content
  obtain ⟨l, slot'⟩ := IntentBook.intent_of_bare content
  exact other _ slot'

/-- Books with the same content hold the same intents. -/
theorem intent_of_view {node : IntentNode} (view : b'.view = b.view) (slot : b'.nodes[i]? = some (.intent node)) :
    ∃ node', b.nodes[i]? = some (.intent node') ∧ node'.withLinks noLinks = node.withLinks noLinks := by
  have content := IntentBook.order_of_intent slot
  have same : b'.order i = b.order i := congrFun (congrArg BookView.order view) i
  rw [same] at content
  exact IntentBook.intent_of_order content

theorem side_eq_of_bare {node node' : IntentNode} (same : node'.withLinks noLinks = node.withLinks noLinks) :
    node'.side = node.side := by
  have : (node'.withLinks noLinks).side = (node.withLinks noLinks).side := congrArg _ same
  exact this

namespace Laid

/-- One tree is replaced and the pending slot moves. -/
theorem relinked {pending' side : ℕ} {w : RedBlack.Tree ℕ} (laid : Laid b pending orders seats chain)
    (same : SameButTree side b b') (valid : (IntentTree.pool side).Valid b' w)
    (kept : ∀ other, IsSide other → other ≠ side → ∀ j ∈ (orders other).toList, b'.nodes[j]? = b.nodes[j]?)
    (inside : ∀ j node, b.nodes[j]? = some (.intent node) → node.side = side → j ≠ pending' → j ∈ w.toList)
    (own : ∀ j ∈ w.toList, j ≠ pending' ∧ ∃ node, b.nodes[j]? = some (.intent node) ∧ node.side = side)
    (elsewhere : ∀ j node, b.nodes[j]? = some (.intent node) → node.side ≠ side → j ≠ pending ∧ j ≠ pending')
    (quiet : ∀ j node, b.nodes[j]? = some (.seat node) → j ≠ pending) (out : pending' ∉ seats.toList) :
    Laid b' pending' (Function.update orders side w) seats chain := by
  have view := IntentBook.view_of_bare same.bare
  have count : b'.header.nodeCount = b.header.nodeCount := IntentBook.nodeCount_of_bare same.bare
  have length : b'.nodes.length = b.nodes.length := IntentBook.length_of_bare same.bare
  have forth : ∀ (j : ℕ) node, b.nodes[j]? = some (.intent node) →
      ∃ node', b'.nodes[j]? = some (.intent node') ∧ node'.side = node.side := by
    intro j node slot
    obtain ⟨node', slot', bare⟩ := intent_of_view view.symm slot
    exact ⟨node', slot', side_eq_of_bare bare⟩
  constructor
  · intro s isSide
    by_cases here : s = side
    · subst here
      rw [Function.update_self]
      exact valid
    · rw [Function.update_of_ne here]
      exact IntentTree.valid_frame (laid.orderTree s isSide) (kept s isSide here) (same.otherRoot s here)
  · apply SeatTree.valid_frame laid.seatTree
    · intro j _ node slot
      exact ⟨node, by rw [same.notIntent j (by simp [slot]), slot], rfl, rfl⟩
    · exact same.seatTreeRoot
  · intro j node slot
    obtain ⟨old, slot', bare⟩ := intent_of_view view slot
    have side' := side_eq_of_bare bare
    have before := laid.inTree j old slot'
    rw [← side']
    refine ⟨before.1, fun other => ?_⟩
    by_cases here : old.side = side
    · rw [here, Function.update_self]
      exact inside j old slot' here other
    · rw [Function.update_of_ne here]
      exact before.2 (elsewhere j old slot' here).1
  · intro s isSide j member
    by_cases here : s = side
    · subst here
      rw [Function.update_self] at member
      obtain ⟨other, node, slot, mine⟩ := own j member
      obtain ⟨node', slot', side'⟩ := forth j node slot
      exact ⟨other, node', slot', side'.trans mine⟩
    · rw [Function.update_of_ne here] at member
      obtain ⟨-, node, slot, mine⟩ := laid.ownSide s isSide j member
      obtain ⟨node', slot', side'⟩ := forth j node slot
      exact ⟨(elsewhere j node slot (mine ▸ here)).2, node', slot', side'.trans mine⟩
  · intro j node slot _
    rw [same.slot_eq (by simp [slot])] at slot
    exact laid.seated j node slot (quiet j node slot)
  · exact out
  · rw [same.freelistHead]
    apply laid.freeChain.congr
    intro j member
    obtain ⟨next, slot⟩ := laid.freeChain.free member
    exact same.notIntent j (by simp [slot])
  · exact laid.nodup
  · rw [count]
    exact laid.count
  · intro j unused insideJ
    rw [count] at unused
    obtain ⟨next, slot⟩ := laid.blank j unused (length ▸ insideJ)
    exact ⟨next, by rw [same.notIntent j (by simp [slot]), slot]⟩
  · have capacity : b'.header.capacity = b.header.capacity := IntentBook.capacity_of_bare same.bare
    rw [length, capacity]
    exact laid.length
  · rw [count]
    exact laid.one_le

/-- Trees of different sides share no slot. -/
theorem notMem_other (laid : Laid b pending orders seats chain) {side other : ℕ} (isSide : IsSide side)
    (isOther : IsSide other) (different : other ≠ side) (member : i ∈ (orders other).toList) :
    i ∉ (orders side).toList := by
  intro both
  obtain ⟨-, node, slot, mine⟩ := laid.ownSide other isOther i member
  obtain ⟨-, node', slot', mine'⟩ := laid.ownSide side isSide i both
  rw [slot] at slot'
  cases slot'
  exact different (mine.symm.trans mine')

/-- A pending intent with an id of its own goes into the tree of its side. -/
theorem insert (laid : Laid b i orders seats chain) {node : IntentNode} (slot : b.nodes[i]? = some (.intent node))
    (ids : ∀ j other, j ≠ i → b.nodes[j]? = some (.intent other) → other.id ≠ node.id) :
    ∃ b' w, (IntentTree.insert node.side i).run b = .ok () b' ∧
      Laid b' NULL_IDX (Function.update orders node.side w) seats chain ∧ b'.bare = b.bare := by
  have isSide := (laid.inTree i node slot).1
  have out : i ∉ (orders node.side).toList := fun member => (laid.ownSide _ isSide i member).1 rfl
  obtain ⟨b', w, ran, valid, same, mem, off⟩ := IntentTree.insert_valid (laid.orderTree _ isSide)
    (laid.intent_used slot).1 slot out fun j member other => ids j other (ne_of_mem_of_not_mem member out)
  refine ⟨b', w, ran, laid.relinked same valid ?_ ?_ ?_ ?_ ?_ ?_, same.bare⟩
  · intro other isOther different j member
    obtain ⟨apart, n, found, -⟩ := laid.ownSide other isOther j member
    rw [found]
    apply off j n _ found
    rw [mem]
    rintro (rfl | member')
    · exact apart rfl
    · exact laid.notMem_other isSide isOther different member member'
  · intro j n found mine _
    rw [mem]
    by_cases here : j = i
    · exact .inl here
    · exact .inr (mine ▸ (laid.inTree j n found).2 here)
  · intro j member
    rcases (mem j).mp member with rfl | old
    · exact ⟨(laid.intent_used slot).1, node, slot, rfl⟩
    · obtain ⟨-, n, found, mine⟩ := laid.ownSide _ isSide j old
      exact ⟨(laid.intent_used found).1, n, found, mine⟩
  · intro j n found different
    refine ⟨?_, (laid.intent_used found).1⟩
    rintro rfl
    rw [slot] at found
    cases found
    exact different rfl
  · intro j n found
    rintro rfl
    rw [slot] at found
    cases found
  · exact laid.null_notMem_seats

/-- An intent of a tree goes out of it and becomes pending. -/
theorem remove (laid : Laid b NULL_IDX orders seats chain) {node : IntentNode}
    (slot : b.nodes[i]? = some (.intent node)) :
    ∃ b' w, (IntentTree.remove node.side i).run b = .ok () b' ∧
      Laid b' i (Function.update orders node.side w) seats chain ∧ b'.bare = b.bare := by
  obtain ⟨isSide, placed⟩ := laid.inTree i node slot
  have member := placed (laid.intent_used slot).1
  obtain ⟨b', w, ran, valid, same, mem, off⟩ := IntentTree.remove_valid (laid.orderTree _ isSide) member
  refine ⟨b', w, ran, laid.relinked same valid ?_ ?_ ?_ ?_ ?_ ?_, same.bare⟩
  · intro other isOther different j inOther
    obtain ⟨-, n, found, -⟩ := laid.ownSide other isOther j inOther
    rw [found]
    exact off j n (laid.notMem_other isSide isOther different inOther) found
  · intro j n found mine apart
    rw [mem]
    exact ⟨apart, mine ▸ (laid.inTree j n found).2 (laid.intent_used found).1⟩
  · intro j member'
    obtain ⟨apart, old⟩ := (mem j).mp member'
    exact ⟨apart, (laid.ownSide _ isSide j old).2⟩
  · intro j n found different
    refine ⟨(laid.intent_used found).1, ?_⟩
    rintro rfl
    rw [slot] at found
    cases found
    exact different rfl
  · intro j n found
    exact (laid.seat_used found).1
  · exact laid.notMem_seats slot (by simp)

/-- A pending intent is freed. -/
theorem freeNode (laid : Laid b i orders seats chain) {node : IntentNode} (slot : b.nodes[i]? = some (.intent node)) :
    ∃ b', (IntentBook.freeNode i).run b = .ok () b' ∧ Laid b' NULL_IDX orders seats (i :: chain) ∧
      b'.view = { b.view with order := Function.update b.order i none } := by
  have used := laid.intent_used slot
  have inside := IntentBook.lt_length_of_getElem? slot
  have out : i ∉ chain := laid.notMem_chain slot (by simp)
  let freed : IntentBook :=
    { header := { b.header with freelistHead := i }
      nodes := b.nodes.set i (.free b.header.freelistHead) }
  have there : ∀ j, j ≠ i → freed.nodes[j]? = b.nodes[j]? := fun j other => List.getElem?_set_ne (Ne.symm other)
  have here : freed.nodes[i]? = some (.free b.header.freelistHead) := by simp [freed, inside]
  have notIn : ∀ side, IsSide side → i ∉ (orders side).toList := fun side isSide member =>
    (laid.ownSide side isSide i member).1 rfl
  refine ⟨freed, ?_, ?_, ?_⟩
  · have accepted : ¬ (i = NULL_IDX ∨ b.nodes.length ≤ i) := by
      rintro (zero | outside)
      · exact used.1 zero
      · omega
    rw [IntentBook.freeNode, Exec.run_bind_get, Exec.run_bind_of_ok (a := ()) (Exec.rejectIf_ok.mpr ⟨accepted, rfl⟩)]
    rfl
  · constructor
    · intro side isSide
      apply IntentTree.valid_frame (laid.orderTree side isSide)
      · intro j member
        exact there j (ne_of_mem_of_not_mem member (notIn side isSide))
      · rfl
    · apply SeatTree.valid_frame laid.seatTree
      · intro j _ n found
        have other : j ≠ i := by
          rintro rfl
          rw [slot] at found
          cases found
        exact ⟨n, by rw [there j other, found], rfl, rfl⟩
      · rfl
    · intro j n found
      have other : j ≠ i := by
        rintro rfl
        rw [here] at found
        cases found
      rw [there j other] at found
      exact ⟨(laid.inTree j n found).1, fun _ => (laid.inTree j n found).2 other⟩
    · intro side isSide j member
      have old := laid.ownSide side isSide j member
      obtain ⟨n, found, -⟩ := old.2
      rw [there j old.1]
      exact ⟨(laid.intent_used found).1, old.2⟩
    · intro j n found _
      have other : j ≠ i := by
        rintro rfl
        rw [here] at found
        cases found
      rw [there j other] at found
      exact laid.seated j n found other
    · exact laid.null_notMem_seats
    · exact laid.freeChain.push used.1 inside out
    · exact List.nodup_cons.mpr ⟨out, laid.nodup⟩
    · intro j member
      rcases List.mem_cons.mp member with rfl | old
      · exact used.2
      · exact laid.count j old
    · intro j unused insideJ
      have other : j ≠ i := by
        rintro rfl
        rcases unused with zero | high
        · exact used.1 zero
        · exact absurd used.2 (Nat.not_lt.mpr high)
      rw [there j other]
      exact laid.blank j unused (by simpa [freed] using insideJ)
    · exact List.length_set.trans laid.length
    · exact laid.one_le
  · have view := IntentBook.view_setNode (b := b) inside (.free b.header.freelistHead)
    have noSeat : Function.update b.trader i (RawNode.trader (.free b.header.freelistHead)) = b.trader := by
      apply Function.update_eq_self_iff.mpr
      rw [IntentBook.trader, slot]
      rfl
    rw [noSeat] at view
    exact view

/-- A pending seat of a trader without a seat goes into the seat tree. -/
theorem insertSeat (laid : Laid b i orders seats chain) {node : SeatNode} (slot : b.nodes[i]? = some (.seat node))
    (traders : ∀ j other, j ≠ i → b.nodes[j]? = some (.seat other) → other.trader ≠ node.trader) :
    ∃ b' w, (SeatTree.insert i).run b = .ok () b' ∧ Laid b' NULL_IDX orders w chain ∧ b'.bare = b.bare := by
  have new : ∀ j ∈ seats.toList, ∀ y, SeatTree.pool.key b j = .ok y → SeatTree.pool.order node.trader y ≠ .eq := by
    intro j member y known equal
    obtain ⟨other, slot'⟩ := SeatTree.seat_of_mem laid.seatTree member
    rw [SeatTree.key_of_seat slot'] at known
    cases known
    exact traders j other (ne_of_mem_of_not_mem member laid.outSeats) slot' (Pubkey.compare_eq_iff.mp equal).symm
  obtain ⟨b', w, ran, valid, relinked, mem, off⟩ := laid.seatTree.insert (laid.seat_used slot).1
    (SeatTree.links_of_seat slot) (SeatTree.key_of_seat slot) laid.outSeats new
  have same := sameButSeats_of_relinked relinked
  have count : b'.header.nodeCount = b.header.nodeCount := IntentBook.nodeCount_of_bare same.bare
  have length : b'.nodes.length = b.nodes.length := IntentBook.length_of_bare same.bare
  have capacity : b'.header.capacity = b.header.capacity := IntentBook.capacity_of_bare same.bare
  have seatBack : ∀ (j : ℕ) n, b'.nodes[j]? = some (.seat n) → ∃ n', b.nodes[j]? = some (.seat n') := by
    intro j n found
    have content := IntentBook.bare_of_seat found
    rw [same.bare] at content
    obtain ⟨l, found'⟩ := IntentBook.seat_of_bare content
    exact ⟨_, found'⟩
  have intentBack : ∀ (j : ℕ) n, b'.nodes[j]? = some (.intent n) → b.nodes[j]? = some (.intent n) := by
    intro j n found
    obtain ⟨n', found', -⟩ := intent_of_view (IntentBook.view_of_bare same.bare) found
    rw [← same.notSeat j (by simp [found'])]
    exact found
  refine ⟨b', w, ran, ?_, same.bare⟩
  constructor
  · intro side isSide
    apply IntentTree.valid_frame (laid.orderTree side isSide)
    · intro j member
      obtain ⟨-, n, found, -⟩ := laid.ownSide side isSide j member
      exact same.notSeat j (by simp [found])
    · exact same.treeRoot side
  · exact valid
  · intro j n found
    have old := laid.inTree j n (intentBack j n found)
    refine ⟨old.1, fun _ => old.2 ?_⟩
    rintro rfl
    have := intentBack j n found
    rw [slot] at this
    cases this
  · intro side isSide j member
    obtain ⟨-, n, found, mine⟩ := laid.ownSide side isSide j member
    exact ⟨(laid.intent_used found).1, n, by rw [same.notSeat j (by simp [found]), found], mine⟩
  · intro j n found _
    obtain ⟨n', found'⟩ := seatBack j n found
    rw [mem]
    by_cases here : j = i
    · exact .inl here
    · exact .inr (laid.seated j n' found' here)
  · intro member
    obtain ⟨n, found⟩ := SeatTree.seat_of_mem valid member
    obtain ⟨n', found'⟩ := seatBack _ n found
    exact (laid.seat_used found').1 rfl
  · rw [same.freelistHead]
    apply laid.freeChain.congr
    intro j member
    obtain ⟨next, found⟩ := laid.freeChain.free member
    exact same.notSeat j (by simp [found])
  · exact laid.nodup
  · rw [count]
    exact laid.count
  · intro j unused insideJ
    rw [count] at unused
    obtain ⟨next, found⟩ := laid.blank j unused (length ▸ insideJ)
    exact ⟨next, by rw [same.notSeat j (by simp [found]), found]⟩
  · rw [length, capacity]
    exact laid.length
  · rw [count]
    exact laid.one_le

end Laid

end Primitives

end Polyleverage
