import Polyleverage.Invariants.Layout
import Polyleverage.Processor.Book

/-! # What the operations of a book do

Each operation keeps the book laid out and changes its view by what it says: a post adds an order, a
cancel takes one out, a fill takes a contract off two of them.
-/

namespace Polyleverage

open RedBlack Machine

/-- The book lies in its pool and nothing is pending. -/
def Tidy (b : IntentBook) : Prop := ∃ orders seats chain, Laid b NULL_IDX orders seats chain

/-- The book lies in its pool, and its orders are in order. -/
structure Consistent (b : IntentBook) : Prop where
  tidy : Tidy b
  orderly : b.view.Orderly

/-- What is left of an order: nothing once its contracts are used up. -/
def IntentNode.rest (node : IntentNode) : Option IntentNode :=
  if node.contractsRemaining = 0 then none else some (node.withLinks noLinks)

variable {b b' : IntentBook} {i : ℕ} {u : Unit}

theorem Tidy.intent_lt (tidy : Tidy b) {node : IntentNode} (slot : b.nodes[i]? = some (.intent node)) :
    i < b.header.capacity := by
  obtain ⟨orders, seats, chain, laid⟩ := tidy
  rw [← laid.length]
  exact IntentBook.lt_length_of_getElem? slot

theorem Tidy.isSide (tidy : Tidy b) {node : IntentNode} (slot : b.nodes[i]? = some (.intent node)) :
    IsSide node.side := by
  obtain ⟨orders, seats, chain, laid⟩ := tidy
  exact (laid.inTree i node slot).1

theorem consistent_init (instrument : Pubkey) (capacity bump cachedMaxFeeBps : ℕ) :
    Consistent (IntentBook.initIntentBook instrument capacity bump cachedMaxFeeBps) := by
  have empty : ∀ i, (IntentBook.initIntentBook instrument capacity bump cachedMaxFeeBps).order i = none := by
    intro i
    unfold IntentBook.order IntentBook.initIntentBook
    rw [List.getElem?_replicate]
    split <;> rfl
  refine ⟨⟨_, _, _, laid_init instrument capacity bump cachedMaxFeeBps⟩, ?_⟩
  constructor <;> intro i <;> simp [IntentBook.view, empty]

/-! ### Seats -/

/-- Work on the trees keeps the view. -/
theorem SeatTree.find_ok {trader : Pubkey} (ran : (SeatTree.find trader).run b = .ok i b') (tidy : Tidy b) :
    b' = b ∧ (i = NULL_IDX ∧ (∀ (j : ℕ) node, b.nodes[j]? = some (.seat node) → node.trader ≠ trader) ∨
      ∃ node, b.nodes[i]? = some (.seat node) ∧ node.trader = trader) := by
  obtain ⟨orders, seats, chain, laid⟩ := tidy
  obtain ⟨j, found, spec⟩ := laid.seatTree.find trader
  rw [SeatTree.find, found] at ran
  cases ran
  refine ⟨rfl, ?_⟩
  rcases spec with ⟨zero, absent⟩ | ⟨member, y, known, equal⟩
  · left
    refine ⟨zero, ?_⟩
    intro j node slot same
    have member := laid.seated j node slot (laid.seat_used slot).1
    exact absent j member node.trader (SeatTree.key_of_seat slot) (Pubkey.compare_eq_iff.mpr same.symm)
  · right
    obtain ⟨node, slot⟩ := SeatTree.seat_of_mem laid.seatTree member
    rw [SeatTree.key_of_seat slot] at known
    cases known
    exact ⟨node, slot, (Pubkey.compare_eq_iff.mp equal).symm⟩

/-- A trader gets the seat it has, or a new one. -/
theorem SeatTree.findOrCreate_ok {trader : Pubkey} (tidy : Tidy b)
    (ran : (SeatTree.findOrCreate trader).run b = .ok i b') :
    Tidy b' ∧ b'.view = { b.view with trader := Function.update b.trader i (some trader) } ∧
      (b.trader i = none ∨ b.trader i = some trader) := by
  rw [SeatTree.findOrCreate, Exec.bind_ok] at ran
  obtain ⟨existing, _, found, ran⟩ := ran
  obtain ⟨rfl, spec⟩ := SeatTree.find_ok found tidy
  by_cases absent : existing = NULL_IDX
  · rw [if_neg (by simpa using absent)] at ran
    simp only [Exec.bind_ok, IntentBook.writeSeat, Exec.get_ok, Exec.rejectIf_ok, Exec.put_ok, Exec.pure_ok] at ran
    obtain ⟨idx, b1, allocated, _, _, ⟨_, _, ⟨rfl, rfl⟩, _, _, ⟨inside, rfl⟩, rfl⟩, _, b3, inserted, rfl, rfl⟩ := ran
    obtain ⟨orders, seats, chain, laid⟩ := tidy
    obtain ⟨chain', laid1, spare, view1⟩ := laid.allocNode allocated
    have laid2 : Laid (b1.setNode idx (.seat (SeatTree.freshSeat trader))) idx orders seats chain' :=
      laid1.write_spare spare (by simp)
    have slot : (b1.setNode idx (.seat (SeatTree.freshSeat trader))).nodes[idx]? = some (.seat (SeatTree.freshSeat trader)) :=
      IntentBook.getElem?_setNode_self (Nat.lt_of_not_le inside)
    have others : ∀ (j : ℕ) other, b1.nodes[j]? = some (.seat other) → other.trader ≠ trader := by
      intro j other known
      have seated := IntentBook.trader_of_seat known
      have same : b1.trader j = _ := congrFun (congrArg BookView.trader view1) j
      rw [same] at seated
      obtain ⟨node, known', trader'⟩ := IntentBook.seat_of_trader seated
      rcases spec with ⟨-, none⟩ | ⟨node', here, -⟩
      · exact trader' ▸ none j node known'
      · rw [absent] at here
        exact absurd rfl (laid.seat_used here).1
    obtain ⟨b4, w, ran4, laid4, bare⟩ := laid2.insertSeat slot fun j other different known => by
      rw [IntentBook.getElem?_setNode_of_ne different] at known
      exact others j other known
    rw [inserted] at ran4
    cases ran4
    obtain ⟨next, free⟩ := spare.free
    have view2 := IntentBook.view_setNode (Nat.lt_of_not_le inside) (.seat (SeatTree.freshSeat trader))
    have noOrder : Function.update b1.order idx (RawNode.order (.seat (SeatTree.freshSeat trader))) = b1.order := by
      apply Function.update_eq_self_iff.mpr
      rw [IntentBook.order_of_free free]
      rfl
    rw [noOrder] at view2
    refine ⟨⟨_, _, _, laid4⟩, ?_, .inl ?_⟩
    · rw [IntentBook.view_of_bare bare, view2]
      simp only [IntentBook.view, BookView.mk.injEq] at view1 ⊢
      exact ⟨view1.1, by rw [view1.2.1]; rfl, view1.2.2⟩
    · have none := IntentBook.trader_of_free free
      rw [show b1.trader = _ from congrArg BookView.trader view1] at none
      exact none
  · rw [if_pos absent, Exec.pure_ok] at ran
    obtain ⟨rfl, rfl⟩ := ran
    rcases spec with ⟨zero, -⟩ | ⟨node, slot, rfl⟩
    · exact absurd zero absent
    · have seated := IntentBook.trader_of_seat slot
      refine ⟨tidy, ?_, .inr seated⟩
      rw [Function.update_eq_self_iff.mpr seated.symm]
      rfl

/-- Counting on a seat keeps the view. -/
theorem seat_count_ok (tidy : Tidy b) {node node' : SeatNode} (slot : b.nodes[i]? = some (.seat node))
    (links : node'.links = node.links) (trader : node'.trader = node.trader) :
    Tidy (b.setNode i (.seat node')) ∧ (b.setNode i (.seat node')).view = b.view := by
  obtain ⟨orders, seats, chain, laid⟩ := tidy
  refine ⟨⟨_, _, _, laid.rewrite_seat slot links trader⟩, ?_⟩
  exact IntentBook.view_setNode_same slot rfl (congrArg some trader)

theorem Book.chargeSeat_ok (tidy : Tidy b) (ran : (Book.chargeSeat i).run b = .ok u b') :
    Tidy b' ∧ b'.view = b.view := by
  simp only [Book.chargeSeat, Exec.bind_ok, Exec.gets_ok, Exec.orErr_ok, Exec.modify_ok] at ran
  obtain ⟨node, _, ⟨slot, rfl⟩, count, _, ⟨_, rfl⟩, rfl⟩ := ran
  exact seat_count_ok tidy (IntentBook.seat_eq_ok.mp slot) rfl rfl

theorem Book.releaseSeat_ok {count : ℕ} (tidy : Tidy b) (ran : (Book.releaseSeat i count).run b = .ok u b') :
    Tidy b' ∧ b'.view = b.view := by
  simp only [Book.releaseSeat, Exec.bind_ok, Exec.gets_ok, Exec.modify_ok] at ran
  obtain ⟨node, _, ⟨slot, rfl⟩, rfl⟩ := ran
  exact seat_count_ok tidy (IntentBook.seat_eq_ok.mp slot) rfl rfl

/-! ### Numbers -/

/-- The counters do not lie in the pool. -/
theorem Tidy.counters (tidy : Tidy b) (nextIntentId nextSeq : ℕ) :
    Tidy { b with header := { b.header with nextIntentId, nextSeq } } := by
  obtain ⟨orders, seats, chain, laid⟩ := tidy
  refine ⟨orders, seats, chain, ?_⟩
  exact
    { orderTree := fun side isSide => IntentTree.valid_frame (laid.orderTree side isSide) (fun _ _ => rfl) rfl
      seatTree := SeatTree.valid_frame laid.seatTree (fun _ _ node slot => ⟨node, slot, rfl, rfl⟩) rfl
      inTree := laid.inTree
      ownSide := laid.ownSide
      seated := laid.seated
      outSeats := laid.outSeats
      freeChain := laid.freeChain
      nodup := laid.nodup
      count := laid.count
      blank := laid.blank
      length := laid.length
      one_le := laid.one_le }

theorem IntentBook.nextIntentId_ok {id : ℕ} (ran : IntentBook.nextIntentId.run b = .ok id b') :
    id = b.header.nextIntentId ∧ b' = { b with header := { b.header with nextIntentId := b.header.nextIntentId + 1 } } := by
  simp only [IntentBook.nextIntentId, Exec.bind_ok, Exec.get_ok, Exec.orErr_ok, Exec.put_ok, Exec.pure_ok,
    checkedAdd_eq_some] at ran
  obtain ⟨_, _, ⟨rfl, rfl⟩, _, _, ⟨⟨_, rfl⟩, rfl⟩, _, _, rfl, rfl, rfl⟩ := ran
  exact ⟨rfl, rfl⟩

theorem IntentBook.nextSeq_ok {seq : ℕ} (ran : IntentBook.nextSeq.run b = .ok seq b') :
    seq = b.header.nextSeq ∧ b' = { b with header := { b.header with nextSeq := b.header.nextSeq + 1 } } := by
  simp only [IntentBook.nextSeq, Exec.bind_ok, Exec.get_ok, Exec.orErr_ok, Exec.put_ok, Exec.pure_ok,
    checkedAdd_eq_some] at ran
  obtain ⟨_, _, ⟨rfl, rfl⟩, _, _, ⟨⟨_, rfl⟩, rfl⟩, _, _, rfl, rfl, rfl⟩ := ran
  exact ⟨rfl, rfl⟩

/-! ### Placing and taking out -/

/-- An intent with an id of its own is placed into a spare slot. -/
theorem place_ok {orders : ℕ → RedBlack.Tree ℕ} {seats : RedBlack.Tree ℕ} {chain : List ℕ} (laid : Laid b NULL_IDX orders seats chain)
    (spare : Laid.Spare b chain i) (node : IntentNode) (isSide : IsSide node.side)
    (ids : ∀ j o, b.order j = some o → o.id ≠ node.id)
    (ran : (IntentTree.insert node.side i).run (b.setNode i (.intent node)) = .ok u b') :
    Tidy b' ∧ b'.view = { b.view with order := Function.update b.order i (some (node.withLinks noLinks)) } := by
  obtain ⟨next, free⟩ := spare.free
  have inside := IntentBook.lt_length_of_getElem? free
  have laid1 : Laid (b.setNode i (.intent node)) i orders seats chain := laid.write_spare spare fun n same => by
    cases same
    exact isSide
  have slot : (b.setNode i (.intent node)).nodes[i]? = some (.intent node) := IntentBook.getElem?_setNode_self inside
  obtain ⟨b2, w, ran2, laid2, bare⟩ := laid1.insert slot fun j other different found => by
    rw [IntentBook.getElem?_setNode_of_ne different] at found
    have := ids j _ (IntentBook.order_of_intent found)
    exact this
  rw [ran] at ran2
  cases ran2
  have noTrader : Function.update b.trader i (RawNode.trader (.intent node)) = b.trader := by
    apply Function.update_eq_self_iff.mpr
    rw [IntentBook.trader_of_free free]
    rfl
  have view := IntentBook.view_setNode inside (.intent node)
  rw [noTrader] at view
  refine ⟨⟨_, _, _, laid2⟩, ?_⟩
  rw [IntentBook.view_of_bare bare, view]
  rfl

/-- An intent is taken out of its tree and its slot is freed. -/
theorem Book.run_removeIntent (tidy : Tidy b) {node : IntentNode} (slot : b.nodes[i]? = some (.intent node)) :
    ∃ b', (Book.removeIntent node.side i).run b = .ok () b' ∧ Tidy b' ∧
      b'.view = { b.view with order := Function.update b.order i none } := by
  obtain ⟨orders, seats, chain, laid⟩ := tidy
  obtain ⟨b1, w, ran1, laid1, bare⟩ := laid.remove slot
  have view1 := IntentBook.view_of_bare bare
  obtain ⟨node1, slot1, -⟩ := intent_of_view view1.symm slot
  obtain ⟨b2, ran2, laid2, view2⟩ := laid1.freeNode slot1
  refine ⟨b2, ?_, ⟨_, _, _, laid2⟩, ?_⟩
  · rw [Book.removeIntent, Exec.run_bind_of_ok ran1]
    exact ran2
  · rw [view2, view1]
    rw [show b1.order = _ from congrArg BookView.order view1]
    rfl

/-- The bare node in a slot, with its links, is the node in the slot. -/
theorem slot_of_order {o : IntentNode} (placed : b.order i = some o) :
    ∃ l, b.nodes[i]? = some (.intent (o.withLinks l)) := by
  obtain ⟨node, slot, rfl⟩ := IntentBook.intent_of_order placed
  exact ⟨node.links, slot⟩

theorem Book.cancel_ok {ownerSeat : ℕ} (tidy : Tidy b) {node : IntentNode}
    (slot : b.nodes[i]? = some (.intent node)) (ran : (Book.cancel node.side i ownerSeat).run b = .ok u b') :
    Tidy b' ∧ b'.view = { b.view with order := Function.update b.order i none } := by
  obtain ⟨b1, removed, tidy1, view1⟩ := Book.run_removeIntent tidy slot
  rw [Book.cancel, Exec.run_bind_of_ok removed] at ran
  obtain ⟨tidy2, view2⟩ := Book.releaseSeat_ok tidy1 ran
  exact ⟨tidy2, view2.trans view1⟩

/-! ### Posting -/

/-- What a post does to a view: the owner is seated at `seat`, and the order goes to slot `i`. -/
structure BookView.Posted (v v' : BookView) (owner : Pubkey) (o : IntentNode) (i seat : ℕ) : Prop where
  vacant : v.order i = none
  order : v'.order = Function.update v.order i (some o)
  seated : v.trader seat = none ∨ v.trader seat = some owner
  trader : v'.trader = Function.update v.trader seat (some owner)
  header : v'.header =
    { v.header with nextIntentId := v.header.nextIntentId + 1, nextSeq := v.header.nextSeq + 1 }

theorem Book.post_ok {owner : Pubkey} {d : Book.Draft} {id : ℕ} (consistent : Consistent b) (isSide : IsSide d.side)
    (ran : (Book.post owner d).run b = .ok id b') :
    Tidy b' ∧ id = b.header.nextIntentId ∧ ∃ slot seat,
      b.view.Posted b'.view owner ((d.node b.header.nextIntentId b.header.nextSeq seat).withLinks noLinks) slot seat ∧
        ∃ b1, (SeatTree.findOrCreate owner).run b = .ok seat b1 := by
  simp only [Book.post, Exec.bind_ok, Exec.pure_ok, IntentBook.writeIntent, Exec.get_ok, Exec.rejectIf_ok,
    Exec.put_ok] at ran
  obtain ⟨seat, b1, seated, _, b2, charged, _, b3, numbered, _, b4, sequenced, slot, b5, allocated, _, _,
    ⟨_, _, ⟨rfl, rfl⟩, _, _, ⟨inside, rfl⟩, rfl⟩, _, _, inserted, rfl, rfl⟩ := ran
  obtain ⟨tidy1, view1, free1⟩ := SeatTree.findOrCreate_ok consistent.tidy seated
  obtain ⟨tidy2, view2⟩ := Book.chargeSeat_ok tidy1 charged
  obtain ⟨rfl, rfl⟩ := IntentBook.nextIntentId_ok numbered
  obtain ⟨rfl, rfl⟩ := IntentBook.nextSeq_ok sequenced
  obtain ⟨orders, seats, chain, laid4⟩ := tidy2.counters (b2.header.nextIntentId + 1) (b2.header.nextSeq + 1)
  obtain ⟨chain5, laid5, spare, view5⟩ := laid4.allocNode allocated
  have order5 : b5.order = b.order := by
    calc
      b5.order = b2.order := congrArg BookView.order view5
      _ = b1.order := congrArg BookView.order view2
      _ = b.order := congrArg BookView.order view1
  have trader5 : b5.trader = Function.update b.trader seat (some owner) := by
    calc
      b5.trader = b2.trader := congrArg BookView.trader view5
      _ = b1.trader := congrArg BookView.trader view2
      _ = Function.update b.trader seat (some owner) := congrArg BookView.trader view1
  have header2 : b2.header.terms = b.header.terms := by
    calc
      b2.header.terms = b1.header.terms := congrArg BookView.header view2
      _ = b.header.terms := congrArg BookView.header view1
  have id2 : b2.header.nextIntentId = b.header.nextIntentId := by
    have := congrArg IntentBookHeader.nextIntentId header2
    exact this
  have seq2 : b2.header.nextSeq = b.header.nextSeq := by
    have := congrArg IntentBookHeader.nextSeq header2
    exact this
  have header5 : b5.header.terms =
      { b.header.terms with nextIntentId := b.header.nextIntentId + 1, nextSeq := b.header.nextSeq + 1 } := by
    calc
      b5.header.terms = { b2.header.terms with nextIntentId := b2.header.nextIntentId + 1, nextSeq := b2.header.nextSeq + 1 } :=
        congrArg BookView.header view5
      _ = _ := by rw [header2, id2, seq2]
  obtain ⟨tidy, view⟩ := place_ok laid5 spare (d.node b2.header.nextIntentId b2.header.nextSeq seat) isSide
    (fun j o placed => by
      rw [order5] at placed
      have := consistent.orderly.id_lt j o placed
      change o.id ≠ b2.header.nextIntentId
      rw [id2]
      exact Nat.ne_of_lt this) inserted
  obtain ⟨next, free⟩ := spare.free
  refine ⟨tidy, id2, slot, seat, ?_, b1, seated⟩
  rw [view, ← id2, ← seq2]
  constructor
  · change b.order slot = none
    rw [← order5]
    exact IntentBook.order_of_free free
  · change Function.update b5.order slot _ = _
    rw [order5]
    rfl
  · exact free1
  · exact trader5
  · change b5.header.terms = _
    rw [header5]
    rfl

section Posted

variable {v v' : BookView} {owner : Pubkey} {o : IntentNode} {slot seat : ℕ}

/-- Whoever is seated keeps its seat. -/
theorem BookView.Posted.traders (posted : v.Posted v' owner o slot seat) (j : ℕ) (t : Pubkey) (seated : v.trader j = some t) :
    v'.trader j = some t := by
  rw [posted.trader]
  by_cases here : j = seat
  · subst here
    rw [Function.update_self]
    rcases posted.seated with none | same
    · rw [seated] at none
      cases none
    · rw [← same, seated]
  · rw [Function.update_of_ne here, seated]

theorem BookView.Posted.owned (posted : v.Posted v' owner o slot seat) : v'.trader seat = some owner := by
  rw [posted.trader]
  exact Function.update_self _ _ _

theorem BookView.Posted.inside (posted : b.view.Posted b'.view owner o slot seat) (tidy : Tidy b') :
    slot < b.view.header.capacity := by
  have capacity : b'.view.header.capacity = b.view.header.capacity := by
    rw [posted.header]
  have placed : b'.order slot = some o := by
    have := congrFun posted.order slot
    rw [Function.update_self] at this
    exact this
  obtain ⟨node, there, -⟩ := IntentBook.intent_of_order placed
  rw [← capacity]
  exact tidy.intent_lt there

end Posted

/-- A post keeps the orders in order. -/
theorem Book.consistent_post {owner : Pubkey} {d : Book.Draft} {id : ℕ} (consistent : Consistent b) (isSide : IsSide d.side)
    (ran : (Book.post owner d).run b = .ok id b') : Consistent b' := by
  obtain ⟨tidy, -, slot, seat, posted, -⟩ := Book.post_ok consistent isSide ran
  let v1 : BookView := { b.view with trader := b'.view.trader }
  have orderly1 : v1.Orderly := by
    apply BookView.Orderly.mono consistent.orderly
    · exact le_refl _
    · exact le_refl _
    · exact posted.traders
    · exact fun j p placed => ⟨p, placed, rfl, rfl, rfl⟩
  have owned : v1.trader ((d.node b.header.nextIntentId b.header.nextSeq seat).withLinks noLinks).ownerSeat = some owner :=
    posted.owned
  refine ⟨tidy, ?_⟩
  apply orderly1.place owned
  · rw [posted.header]
    exact ⟨le_refl _, Nat.lt_succ_self _⟩
  · rw [posted.header]
    exact ⟨le_refl _, Nat.lt_succ_self _⟩
  · exact posted.order
  · rfl

end Polyleverage
