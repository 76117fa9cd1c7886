import Polyleverage.Invariants.Intake
import Polyleverage.Ranges.State
import Polyleverage.RedBlack.Bounded

/-! # The ranges of a book

Slots are numbered by words of 32 bits. The free list, the trees and the intents only ever store numbers of
slots that they found or were given, so the links stay in range on any book, sound or not. A book that was
grown may be unsound, but its numbers still fit.
-/

namespace Polyleverage

open Machine Exec RedBlack

structure IntentBookHeader.InRange (h : IntentBookHeader) : Prop where
  bump : h.bump < 2 ^ 8
  instrument : h.instrument.IsBytes
  longTreeRoot : h.longTreeRoot < 2 ^ 32
  shortTreeRoot : h.shortTreeRoot < 2 ^ 32
  seatTreeRoot : h.seatTreeRoot < 2 ^ 32
  freelistHead : h.freelistHead < 2 ^ 32
  nodeCount : h.nodeCount < 2 ^ 32
  capacity : h.capacity < 2 ^ 32
  nextIntentId : h.nextIntentId < 2 ^ 64
  nextSeq : h.nextSeq < 2 ^ 64
  cachedMaxFeeBps : h.cachedMaxFeeBps < 2 ^ 16

structure IntentNode.InRange (node : IntentNode) : Prop where
  side : node.side < 2 ^ 8
  flags : node.flags < 2 ^ 8
  left : node.left < 2 ^ 32
  right : node.right < 2 ^ 32
  parent : node.parent < 2 ^ 32
  priceFp : node.priceFp < 2 ^ 64
  id : node.id < 2 ^ 64
  ownerSeat : node.ownerSeat < 2 ^ 32
  contractsTotal : node.contractsTotal < 2 ^ 16
  contractsRemaining : node.contractsRemaining < 2 ^ 16
  expirationSlot : node.expirationSlot < 2 ^ 64
  postSeq : node.postSeq < 2 ^ 64
  reservedCollateral : node.reservedCollateral < 2 ^ 64
  feeBuffer : node.feeBuffer < 2 ^ 64

structure SeatNode.InRange (node : SeatNode) : Prop where
  left : node.left < 2 ^ 32
  right : node.right < 2 ^ 32
  parent : node.parent < 2 ^ 32
  trader : node.trader.IsBytes
  activeIntentCount : node.activeIntentCount < 2 ^ 32

def RawNode.InRange : RawNode → Prop
  | free next => next < 2 ^ 32
  | intent node => node.InRange
  | seat node => node.InRange

/-- All fields fit, and there are as many slots as the header counts. -/
structure IntentBook.InRange (b : IntentBook) : Prop where
  header : b.header.InRange
  nodes : ∀ node ∈ b.nodes, node.InRange
  length : b.nodes.length = b.header.capacity

/-- What an intent is posted with fits the fields it is stored in. -/
structure Book.Draft.InRange (d : Draft) : Prop where
  side : d.side < 2 ^ 8
  flags : d.flags < 2 ^ 8
  priceFp : d.priceFp < 2 ^ 64
  contracts : d.contracts < 2 ^ 16
  expirationSlot : d.expirationSlot < 2 ^ 64
  reservedCollateral : d.reservedCollateral < 2 ^ 64
  feeBuffer : d.feeBuffer < 2 ^ 64

/-- Index `i` fits a link. -/
def IsIndex (i : ℕ) : Prop := i < 2 ^ 32

/-! ### Slots -/

namespace RawNode

theorem InRange.nextFree {node : RawNode} (inRange : node.InRange) : node.nextFree < 2 ^ 32 := by
  cases node with
  | free next => exact inRange
  | intent node => exact IntentNode.InRange.left inRange
  | seat node => exact SeatNode.InRange.left inRange

end RawNode

namespace IntentBook

variable {b : IntentBook} {i : ℕ}

theorem InRange.slot {node : RawNode} (inRange : b.InRange) (slot : b.nodes[i]? = some node) : node.InRange :=
  inRange.nodes node (List.mem_of_getElem? slot)

theorem InRange.intent {node : IntentNode} (inRange : b.InRange) (read : b.intent i = .ok node) : node.InRange :=
  inRange.slot (intent_eq_ok.mp read)

theorem InRange.seat {node : SeatNode} (inRange : b.InRange) (read : b.seat i = .ok node) : node.InRange :=
  inRange.slot (seat_eq_ok.mp read)

/-- The number of a slot fits a link. -/
theorem InRange.index (inRange : b.InRange) (inside : i < b.nodes.length) : IsIndex i :=
  (inRange.length ▸ inside).trans inRange.header.capacity

theorem inRange_set {nodes : List RawNode} (each : ∀ node ∈ nodes, node.InRange) {node : RawNode} (new : node.InRange) :
    ∀ node' ∈ nodes.set i node, node'.InRange := by
  intro node' member
  rcases List.mem_or_eq_of_mem_set member with old | rfl
  · exact each node' old
  · exact new

theorem InRange.setNode (inRange : b.InRange) {node : RawNode} (new : node.InRange) : (b.setNode i node).InRange :=
  ⟨inRange.header, inRange_set inRange.nodes new, by rw [length_setNode, header_setNode, inRange.length]⟩

end IntentBook

/-! ### Trees -/

theorem bounds_intents (side : ℕ) : (IntentTree.pool side).Bounds IntentBook.InRange IsIndex where
  zero := by
    show 0 < 2 ^ 32
    decide
  links := by
    intro b i l inRange linked
    obtain ⟨node, read, rfl⟩ := linked_of_ok linked
    have inRange := inRange.intent read
    exact ⟨inRange.left, inRange.right, inRange.parent⟩
  root := by
    intro b r inRange (rooted : IntentTree.treeRoot b side = .ok r)
    unfold IntentTree.treeRoot at rooted
    split at rooted
    · cases rooted
      exact inRange.header.longTreeRoot
    · split at rooted
      · cases rooted
        exact inRange.header.shortTreeRoot
      · cases rooted
  setLinks := by
    intro b i l l' inRange _ left right parent
    show (IntentTree.setLinks b i l').InRange
    unfold IntentTree.setLinks
    split
    next node slot =>
      have before : node.InRange := inRange.slot slot
      have after : (node.withLinks l').InRange := { before with left := left, right := right, parent := parent }
      exact inRange.setNode after
    · exact inRange
  setRoot := by
    intro b r v inRange _ bound
    show (IntentTree.setTreeRoot b side v).InRange
    unfold IntentTree.setTreeRoot
    split
    · exact { inRange with header := { inRange.header with longTreeRoot := bound } }
    · split
      · exact { inRange with header := { inRange.header with shortTreeRoot := bound } }
      · exact inRange
where
  linked_of_ok {b : IntentBook} {i : ℕ} {l : Links} (linked : (b.intent i).map IntentNode.links = .ok l) :
      ∃ node, b.intent i = .ok node ∧ node.links = l := by
    cases read : b.intent i with
    | ok node => exact ⟨node, rfl, Except.ok.inj (by rwa [read] at linked)⟩
    | error e => simp [read, Except.map] at linked

theorem bounds_seats : SeatTree.pool.Bounds IntentBook.InRange IsIndex where
  zero := by
    show 0 < 2 ^ 32
    decide
  links := by
    intro b i l inRange linked
    obtain ⟨node, read, rfl⟩ := linked_of_ok linked
    have inRange := inRange.seat read
    exact ⟨inRange.left, inRange.right, inRange.parent⟩
  root := by
    intro b r inRange rooted
    cases rooted
    exact inRange.header.seatTreeRoot
  setLinks := by
    intro b i l l' inRange _ left right parent
    show (SeatTree.setLinks b i l').InRange
    unfold SeatTree.setLinks
    split
    next node slot =>
      have before : node.InRange := inRange.slot slot
      have after : (node.withLinks l').InRange := { before with left := left, right := right, parent := parent }
      exact inRange.setNode after
    · exact inRange
  setRoot := by
    intro b r v inRange _ bound
    exact { inRange with header := { inRange.header with seatTreeRoot := bound } }
where
  linked_of_ok {b : IntentBook} {i : ℕ} {l : Links} (linked : (b.seat i).map SeatNode.links = .ok l) :
      ∃ node, b.seat i = .ok node ∧ node.links = l := by
    cases read : b.seat i with
    | ok node => exact ⟨node, rfl, Except.ok.inj (by rwa [read] at linked)⟩
    | error e => simp [read, Except.map] at linked

/-! ### The allocator and the counters -/

section Books

variable {i side now : ℕ} {owner : Pubkey}

instance : Keeping (Stays IntentBook.InRange) (IntentTree.remove side i) := ((bounds_intents side).remove i).keeping

theorem upholds_find (trader : Pubkey) : Upholds IntentBook.InRange IsIndex (SeatTree.find trader) :=
  bounds_seats.find trader

theorem upholds_updateIntent {f : IntentNode → IntentNode}
    (step : ∀ node : IntentNode, node.InRange → (f node).InRange) :
    Upholds IntentBook.InRange (fun _ => True) (IntentBook.updateIntent i f) := by
  refine upholds_bind_check fun b node inRange read => upholds_modify fun b' inRange' => ?_
  exact inRange'.setNode (step node (inRange.intent read))

theorem upholds_writeIntent {node : IntentNode} (fits : node.InRange) :
    Upholds IntentBook.InRange (fun _ => True) (IntentBook.writeIntent i node) := by
  refine upholds_bind upholds_get fun b inRange => upholds_bind (upholds_of_keeping _) fun _ _ => ?_
  exact upholds_put (inRange.setNode fits)

theorem upholds_writeSeat {node : SeatNode} (fits : node.InRange) :
    Upholds IntentBook.InRange (fun _ => True) (IntentBook.writeSeat i node) := by
  refine upholds_bind upholds_get fun b inRange => upholds_bind (upholds_of_keeping _) fun _ _ => ?_
  exact upholds_put (inRange.setNode fits)

theorem upholds_allocNode : Upholds IntentBook.InRange IsIndex IntentBook.allocNode := by
  refine upholds_bind upholds_get fun b inRange => upholds_ite (fun _ => ?_) fun _ => ?_
  · split
    · exact upholds_abort
    next node slot =>
      have next := (inRange.slot slot).nextFree
      refine upholds_bind (upholds_put ?_) fun _ _ => upholds_pure inRange.header.freelistHead
      exact { inRange with header := { inRange.header with freelistHead := next } }
  · refine upholds_bind (upholds_of_keeping _) fun _ _ => upholds_bind_check fun _ next _ counted => ?_
    obtain ⟨small, rfl⟩ := checkedAdd_eq_some.mp counted
    refine upholds_bind (upholds_put ?_) fun _ _ => upholds_pure inRange.header.nodeCount
    exact { inRange with header := { inRange.header with nodeCount := small } }

instance : Keeping (Stays IntentBook.InRange) (IntentBook.freeNode i) := by
  refine keeping_get fun b inRange => upholds_bind_check fun _ _ _ inside => upholds_put ?_
  rw [not_or, not_le] at inside
  have index := inRange.index inside.2
  have free : (RawNode.free b.header.freelistHead).InRange := inRange.header.freelistHead
  refine ⟨{ inRange.header with freelistHead := index }, IntentBook.inRange_set inRange.nodes free, ?_⟩
  rw [List.length_set]
  exact inRange.length

theorem upholds_nextSeq : Upholds IntentBook.InRange (· < 2 ^ 64) IntentBook.nextSeq := by
  refine upholds_bind upholds_get fun b inRange => upholds_bind_check fun _ next _ counted => ?_
  obtain ⟨small, rfl⟩ := checkedAdd_eq_some.mp counted
  refine upholds_bind (upholds_put ?_) fun _ _ => upholds_pure inRange.header.nextSeq
  exact { inRange with header := { inRange.header with nextSeq := small } }

theorem upholds_nextIntentId : Upholds IntentBook.InRange (· < 2 ^ 64) IntentBook.nextIntentId := by
  refine upholds_bind upholds_get fun b inRange => upholds_bind_check fun _ next _ counted => ?_
  obtain ⟨small, rfl⟩ := checkedAdd_eq_some.mp counted
  refine upholds_bind (upholds_put ?_) fun _ _ => upholds_pure inRange.header.nextIntentId
  exact { inRange with header := { inRange.header with nextIntentId := small } }

instance (count : ℕ) : Keeping (Stays IntentBook.InRange) (Book.releaseSeat i count) := by
  refine Upholds.keeping (upholds_bind_check fun b seat inRange read => upholds_modify fun b' inRange' => ?_)
  have before := inRange.seat read
  have fewer : saturatingSub seat.activeIntentCount count < 2 ^ 32 :=
    lt_of_le_of_lt (Nat.sub_le _ _) before.activeIntentCount
  have after : (RawNode.seat { seat with activeIntentCount := saturatingSub seat.activeIntentCount count }).InRange :=
    { before with activeIntentCount := fewer }
  exact inRange'.setNode after

instance : Keeping (Stays IntentBook.InRange) (Book.chargeSeat i) := by
  have upholds : Upholds IntentBook.InRange (fun _ => True) (Book.chargeSeat i) := by
    refine upholds_bind_check fun b seat inRange read => upholds_bind_check fun _ count _ counted => ?_
    obtain ⟨small, rfl⟩ := checkedAdd_eq_some.mp counted
    have after : (RawNode.seat { seat with activeIntentCount := seat.activeIntentCount + 1 }).InRange :=
      { inRange.seat read with activeIntentCount := small }
    exact upholds_modify fun b' inRange' => inRange'.setNode after
  exact upholds.keeping

/-! ### Taking out -/

instance : Keeping (Stays IntentBook.InRange) (Book.removeIntent side i) := by
  unfold Book.removeIntent
  infer_instance

instance (seat : ℕ) : Keeping (Stays IntentBook.InRange) (Book.cancel side i seat) := by
  unfold Book.cancel
  infer_instance

instance (work : List (ℕ × IntentNode × ℕ)) (refund : ℕ) :
    Keeping (Stays IntentBook.InRange) (Book.removeAll work refund) := by
  induction work generalizing refund with
  | nil =>
    unfold Book.removeAll
    infer_instance
  | cons e rest ih =>
    exact Exec.keeping_bind inferInstance fun _ => Exec.keeping_bind inferInstance fun total => ih total

instance : Keeping (Stays IntentBook.InRange) (SeatTree.find owner) := (upholds_find owner).keeping

instance : Keeping (Stays IntentBook.InRange) (Book.pruneOwnExpired owner now) := by
  unfold Book.pruneOwnExpired
  infer_instance

instance : Keeping (Stays IntentBook.InRange) (pruneSlot i side) := by
  unfold pruneSlot
  infer_instance

instance (rt : Runtime) (margin mint : Pubkey) (id : ℕ) (authorize : Pubkey → IntentNode → Except ProgramError Unit) :
    Keeping (Stays IntentBook.InRange) (cancelInBook rt margin mint id authorize) := by
  refine Exec.keeping_bind inferInstance fun ⟨idx, side⟩ => ?_
  dsimp only
  infer_instance

/-! ### Posting -/

theorem upholds_findOrCreate (bytes : owner.IsBytes) :
    Upholds IntentBook.InRange IsIndex (SeatTree.findOrCreate owner) := by
  refine upholds_bind (upholds_find owner) fun existing index => upholds_ite (fun _ => upholds_pure index) fun _ => ?_
  have zero : IsIndex 0 := bounds_seats.zero
  have fresh : (SeatTree.freshSeat owner).InRange := ⟨zero, zero, zero, bytes, zero⟩
  refine upholds_bind upholds_allocNode fun idx index => upholds_bind (upholds_writeSeat fresh) fun _ _ => ?_
  exact upholds_bind (bounds_seats.insert index) fun _ _ => upholds_pure index

theorem upholds_post {d : Book.Draft} (bytes : owner.IsBytes) (fits : d.InRange) :
    Upholds IntentBook.InRange (· < 2 ^ 64) (Book.post owner d) := by
  refine upholds_bind (upholds_findOrCreate bytes) fun seatIdx seat => upholds_bind (upholds_of_keeping _) fun _ _ => ?_
  refine upholds_bind upholds_nextIntentId fun intentId id => upholds_bind upholds_nextSeq fun postSeq seq => ?_
  refine upholds_bind upholds_allocNode fun nodeIdx index => ?_
  have zero : NULL_IDX < 2 ^ 32 := bounds_seats.zero
  have node : (d.node intentId postSeq seatIdx).InRange :=
    { side := fits.side, flags := fits.flags, left := zero, right := zero, parent := zero, priceFp := fits.priceFp
      id, ownerSeat := seat, contractsTotal := fits.contracts, contractsRemaining := fits.contracts
      expirationSlot := fits.expirationSlot, postSeq := seq, reservedCollateral := fits.reservedCollateral
      feeBuffer := fits.feeBuffer }
  refine upholds_bind (upholds_writeIntent node) fun _ _ => ?_
  exact upholds_bind ((bounds_intents d.side).insert index) fun _ _ => upholds_pure id

/-! ### Fills -/

/-- A fill only takes out of an intent. -/
theorem IntentNode.InRange.fill {node : IntentNode} (inRange : node.InRange) (bucket release : ℕ) :
    (node.fill bucket release).InRange :=
  { inRange with
    contractsRemaining := lt_of_le_of_lt (Nat.sub_le _ _) inRange.contractsRemaining
    reservedCollateral := lt_of_le_of_lt (Nat.sub_le _ _) inRange.reservedCollateral
    feeBuffer := lt_of_le_of_lt (Nat.sub_le _ _) inRange.feeBuffer }

/-- Both intents of the pair fit. -/
structure Book.Pair.InRange (p : Pair) : Prop where
  long : p.long.InRange
  short : p.short.InRange

theorem upholds_findPair (long short : ℕ) :
    Upholds IntentBook.InRange Book.Pair.InRange (Exec.gets (Book.findPair long short now) : BookM Book.Pair) := by
  refine upholds_gets fun b pair inRange found => ?_
  obtain ⟨slotL, slotS⟩ := findPair_slots found
  exact ⟨inRange.slot slotL, inRange.slot slotS⟩

theorem Book.Pair.InRange.consume {p q : Pair} {bucket longRelease shortRelease : ℕ} (inRange : p.InRange)
    (consumed : Book.consume bucket p = .ok (q, longRelease, shortRelease)) : q.InRange := by
  obtain ⟨rfl, -⟩ := Book.consume_ok consumed
  exact ⟨inRange.long.fill _ _, inRange.short.fill _ _⟩

theorem upholds_writePair {p : Book.Pair} (fits : p.InRange) :
    Upholds IntentBook.InRange (fun _ => True) (Book.writePair p) := by
  refine upholds_bind (upholds_updateIntent fun _ _ => fits.long) fun _ _ => ?_
  refine upholds_bind (upholds_updateIntent fun _ _ => fits.short) fun _ _ => ?_
  exact upholds_of_keeping _

theorem upholds_seat (idx : ℕ) : Upholds IntentBook.InRange SeatNode.InRange (Exec.gets (IntentBook.seat · idx) :
    BookM SeatNode) :=
  upholds_gets fun _ _ inRange read => inRange.seat read

/-- What a fill hands on fits the fields of a position. -/
structure MatchResult.InRange (r : MatchResult) : Prop where
  longTrader : r.longTrader.IsBytes
  shortTrader : r.shortTrader.IsBytes
  entryFp : r.entryFp < 2 ^ 64
  longPrice : r.longPrice < 2 ^ 64
  shortPrice : r.shortPrice < 2 ^ 64
  pmlcId : r.pmlcId < 2 ^ 64
  pmlcBump : r.pmlcBump < 2 ^ 8

theorem priceMidpoint_lt {a b : ℕ} (left : a < 2 ^ 64) (right : b < 2 ^ 64) : priceMidpoint a b < 2 ^ 64 := by
  rw [priceMidpoint_eq]
  omega

theorem upholds_matchInBook {rt : Runtime} (bumps : ∀ seeds, rt.bump seeds < 2 ^ 8) (instrument pmlc : Pubkey)
    (bucket long short : ℕ) :
    Upholds IntentBook.InRange MatchResult.InRange (matchInBook rt instrument pmlc bucket long short now) := by
  refine upholds_bind (upholds_findPair long short) fun pair fits => upholds_bind_check fun _ consumed _ filled => ?_
  obtain ⟨q, longRelease, shortRelease⟩ := consumed
  refine upholds_bind (upholds_writePair (fits.consume filled)) fun _ _ =>
    upholds_bind upholds_nextIntentId fun pmlcId id => ?_
  refine upholds_bind (upholds_of_keeping _) fun _ _ => upholds_bind (upholds_seat _) fun longSeat longFits => ?_
  refine upholds_bind (upholds_seat _) fun shortSeat shortFits => upholds_pure ?_
  exact ⟨longFits.trader, shortFits.trader, priceMidpoint_lt fits.long.priceFp fits.short.priceFp, fits.long.priceFp,
    fits.short.priceFp, id, bumps _⟩

theorem upholds_substituteInBook (substitutor : Pubkey) (p : Pmlc) (bucket long short : ℕ) :
    Upholds IntentBook.InRange (fun c => c.newPmlcOwner.IsBytes)
      (substituteInBook substitutor p bucket long short now) := by
  refine upholds_bind (upholds_findPair long short) fun pair fits => upholds_bind (upholds_of_keeping _) fun _ _ => ?_
  refine upholds_bind (upholds_seat _) fun longSeat longFits =>
    upholds_bind (upholds_seat _) fun shortSeat shortFits => ?_
  iterate 2 refine upholds_bind (upholds_of_keeping _) fun _ _ => ?_
  refine upholds_bind_check fun _ consumed _ filled => ?_
  obtain ⟨q, longRelease, shortRelease⟩ := consumed
  refine upholds_bind (upholds_writePair (fits.consume filled)) fun _ _ => upholds_pure ?_
  show Pubkey.IsBytes (if _ then _ else _)
  split
  · exact shortFits.trader
  · exact longFits.trader

/-! ### New books and grown ones -/

theorem IntentBook.inRange_init {instrument : Pubkey} {capacity bump : ℕ} (bytes : instrument.IsBytes)
    (slots : capacity < 2 ^ 32)
    (small : bump < 2 ^ 8) : (initIntentBook instrument capacity bump 0).InRange := by
  have zero : NULL_IDX < 2 ^ 32 := bounds_seats.zero
  refine ⟨⟨small, bytes, zero, zero, zero, zero, ?_, slots, ?_, ?_, ?_⟩, ?_, List.length_replicate⟩
  iterate 4 simp [initIntentBook]
  intro node member
  rw [List.eq_of_mem_replicate member]
  exact zero

/-- Slots are pushed onto the free list as long as their numbers fit. -/
theorem pushFreeFrom_ok {first count : ℕ} {b b' : IntentBook} {u : Unit} (inRange : b.InRange)
    (ran : (IntentBook.pushFreeFrom first count).run b = .ok u b') : b'.InRange := by
  induction count generalizing first b with
  | zero =>
    obtain ⟨-, rfl⟩ := Exec.pure_ok.mp ran
    exact inRange
  | succ count ih =>
    rw [IntentBook.pushFreeFrom, Exec.bind_ok] at ran
    obtain ⟨_, mid, pushed, ran⟩ := ran
    refine ih ?_ ran
    simp only [IntentBook.pushFree, Exec.bind_check, Exec.put_ok, exists_eq_left', exists_const, not_le] at pushed
    obtain ⟨inside, rfl⟩ := pushed
    have free : (RawNode.free b.header.freelistHead).InRange := inRange.header.freelistHead
    refine ⟨{ inRange.header with freelistHead := inRange.index inside }, IntentBook.inRange_set inRange.nodes free, ?_⟩
    rw [List.length_set]
    exact inRange.length

/-- Growth that returns has counted the new slots. -/
theorem expandNodes_ok {additional : ℕ} {b b' : IntentBook} {u : Unit} (inRange : b.InRange)
    (ran : (IntentBook.expandNodes additional).run b = .ok u b') : b'.InRange := by
  rw [IntentBook.expandNodes, Exec.bind_ok] at ran
  obtain ⟨_, mid, appended, ran⟩ := ran
  rw [Exec.modify_ok] at appended
  subst appended
  simp only [Exec.bind_check, exists_eq_left'] at ran
  obtain ⟨capacity, counted, ran⟩ := ran
  rw [Exec.bind_ok] at ran
  obtain ⟨_, grown, wrote, ran⟩ := ran
  rw [Exec.put_ok] at wrote
  subst wrote
  obtain ⟨small, rfl⟩ := checkedAdd_eq_some.mp counted
  have header : ({ b.header with capacity := b.header.capacity + additional } : IntentBookHeader).InRange :=
    { inRange.header with capacity := small }
  refine pushFreeFrom_ok ⟨header, fun node member => ?_, ?_⟩ ran
  · rcases List.mem_append.mp member with old | new
    · exact inRange.nodes node old
    · rw [List.eq_of_mem_replicate new]
      exact bounds_seats.zero
  · simp [inRange.length]

end Books

end Polyleverage
