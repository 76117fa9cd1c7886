import Polyleverage.Invariants.Upkeep
import Polyleverage.Sample

/-! # Books stay in order

A book that never grew is arranged in every state: both order trees, the seat tree and the free list
share its slots without overlap, the tags say which of them a slot is in, and the scan by id finds what
the trees hold.
-/

namespace Polyleverage

open RedBlack

variable {rt : Runtime} {s : Ledger} {k : Pubkey} {b : IntentBook}

/-- How the slots of a book are shared. -/
structure Arranged (b : IntentBook) (longs shorts seats : RedBlack.Tree ℕ) (free : List ℕ) : Prop where
  longTree : (IntentTree.pool SIDE_LONG).Valid b longs
  shortTree : (IntentTree.pool SIDE_SHORT).Valid b shorts
  seatTree : SeatTree.pool.Valid b seats
  freelist : FreeChain b.nodes b.header.freelistHead free ∧ free.Nodup
  longs_shorts : longs.toList.Disjoint shorts.toList
  orders_seats : (longs.toList ++ shorts.toList).Disjoint seats.toList
  used_free : (longs.toList ++ shorts.toList ++ seats.toList).Disjoint free
  /-- A slot is tagged as an intent exactly when it is in the tree of its own side. -/
  tagged_intent : ∀ (i : ℕ) node, b.nodes[i]? = some (.intent node) →
    node.side = SIDE_LONG ∧ i ∈ longs.toList ∨ node.side = SIDE_SHORT ∧ i ∈ shorts.toList
  in_longs : ∀ i ∈ longs.toList, ∃ node, b.nodes[i]? = some (.intent node) ∧ node.side = SIDE_LONG
  in_shorts : ∀ i ∈ shorts.toList, ∃ node, b.nodes[i]? = some (.intent node) ∧ node.side = SIDE_SHORT
  tagged_seat : ∀ i, i ∈ seats.toList ↔ ∃ node, b.nodes[i]? = some (.seat node)
  owner_seated : ∀ (i : ℕ) node, b.nodes[i]? = some (.intent node) → node.ownerSeat ∈ seats.toList
  ids : ∀ (i : ℕ) node, b.nodes[i]? = some (.intent node) → node.id < b.header.nextIntentId ∧
    ∀ (j : ℕ) other, b.nodes[j]? = some (.intent other) → other.id = node.id → j = i
  seqs : ∀ (i : ℕ) node, b.nodes[i]? = some (.intent node) → node.postSeq < b.header.nextSeq ∧
    ∀ (j : ℕ) other, b.nodes[j]? = some (.intent other) → other.postSeq = node.postSeq → j = i

/-- A tree's slots are not free. -/
theorem Laid.disjoint_chain {pending : ℕ} {orders : ℕ → RedBlack.Tree ℕ} {seats : RedBlack.Tree ℕ} {chain slots : List ℕ}
    (laid : Laid b pending orders seats chain)
    (used : ∀ i ∈ slots, ∃ raw, b.nodes[i]? = some raw ∧ ∀ next, raw ≠ .free next) : slots.Disjoint chain := by
  intro i inSlots inChain
  obtain ⟨raw, slot, notFree⟩ := used i inSlots
  exact laid.notMem_chain slot notFree inChain

/-- A consistent book is arranged. -/
theorem arranged_of_consistent (consistent : Consistent b) : ∃ longs shorts seats free, Arranged b longs shorts seats free := by
  obtain ⟨⟨orders, seats, chain, laid⟩, orderly⟩ := consistent
  have long := laid.ownSide SIDE_LONG (.inl rfl)
  have short := laid.ownSide SIDE_SHORT (.inr rfl)
  have seatOf : ∀ i ∈ seats.toList, ∃ node, b.nodes[i]? = some (.seat node) := fun i member =>
    SeatTree.seat_of_mem laid.seatTree member
  refine ⟨orders SIDE_LONG, orders SIDE_SHORT, seats, chain, ?_⟩
  constructor
  case longTree => exact laid.orderTree SIDE_LONG (.inl rfl)
  case shortTree => exact laid.orderTree SIDE_SHORT (.inr rfl)
  case seatTree => exact laid.seatTree
  case freelist => exact ⟨laid.freeChain, laid.nodup⟩
  case longs_shorts =>
    intro i inLong inShort
    obtain ⟨-, node, slot, side⟩ := long i inLong
    obtain ⟨-, node', slot', side'⟩ := short i inShort
    rw [slot] at slot'
    cases slot'
    rw [side] at side'
    cases side'
  case orders_seats =>
    intro i inOrders inSeats
    obtain ⟨seat, slot⟩ := seatOf i inSeats
    rcases List.mem_append.mp inOrders with inLong | inShort
    · exact laid.notMem_orders slot (by simp) (.inl rfl) inLong
    · exact laid.notMem_orders slot (by simp) (.inr rfl) inShort
  case used_free =>
    apply laid.disjoint_chain
    intro i used
    rcases List.mem_append.mp used with inOrders | inSeats
    · rcases List.mem_append.mp inOrders with inLong | inShort
      · obtain ⟨-, node, slot, -⟩ := long i inLong
        exact ⟨_, slot, by simp⟩
      · obtain ⟨-, node, slot, -⟩ := short i inShort
        exact ⟨_, slot, by simp⟩
    · obtain ⟨seat, slot⟩ := seatOf i inSeats
      exact ⟨_, slot, by simp⟩
  case tagged_intent =>
    intro i node slot
    obtain ⟨isSide, inTree⟩ := laid.inTree i node slot
    have member := inTree (laid.intent_used slot).1
    rcases isSide with side | side
    · exact .inl ⟨side, side ▸ member⟩
    · exact .inr ⟨side, side ▸ member⟩
  case in_longs => exact fun i member => (long i member).2
  case in_shorts => exact fun i member => (short i member).2
  case tagged_seat =>
    intro i
    constructor
    · exact seatOf i
    · rintro ⟨node, slot⟩
      exact laid.seated i node slot (laid.seat_used slot).1
  case owner_seated =>
    intro i node slot
    obtain ⟨t, seated⟩ := orderly.owned i _ (IntentBook.order_of_intent slot)
    obtain ⟨seat, slot', -⟩ := IntentBook.seat_of_trader seated
    exact laid.seated _ seat slot' (laid.seat_used slot').1
  case ids =>
    intro i node slot
    have below := orderly.id_lt i _ (IntentBook.order_of_intent slot)
    refine ⟨below, fun j other slot' same => ?_⟩
    exact orderly.id_inj j i _ _ (IntentBook.order_of_intent slot') (IntentBook.order_of_intent slot) same
  case seqs =>
    intro i node slot
    have below := orderly.seq_lt i _ (IntentBook.order_of_intent slot)
    refine ⟨below, fun j other slot' same => ?_⟩
    exact orderly.seq_inj j i _ _ (IntentBook.order_of_intent slot') (IntentBook.order_of_intent slot) same

/-- Every book of a run without growth is arranged, and the scan by id returns a slot and a side exactly
when the tree of this side holds the slot with this id. -/
theorem books_stay_arranged {allowed : Instruction → Prop} (plain : ∀ instr, allowed instr → instr.expands = false)
    (reached : Reachable rt allowed s) (held : s.get k = ⟨rt.programId, .intentBook b⟩) :
    ∃ longs shorts seats free, Arranged b longs shorts seats free ∧
      ∀ id i side, Book.findIntentById b id = .ok (i, side) ↔
        (side = SIDE_LONG ∧ i ∈ longs.toList ∨ side = SIDE_SHORT ∧ i ∈ shorts.toList) ∧
          ∃ node, b.nodes[i]? = some (.intent node) ∧ node.id = id := by
  have books := books_of_reachable plain reached
  obtain ⟨-, c, -, sound⟩ := books.book_ok (congrArg Account.owner held) (congrArg Account.data held)
  obtain ⟨longs, shorts, seats, free, arranged⟩ := arranged_of_consistent sound.consistent
  refine ⟨longs, shorts, seats, free, arranged, fun id i side => ?_⟩
  rw [Book.findIntentById_ok sound.consistent]
  constructor
  · rintro ⟨node, slot, named, rfl⟩
    exact ⟨arranged.tagged_intent i node slot, node, slot, named⟩
  · rintro ⟨inTree, node, slot, named⟩
    refine ⟨node, slot, named, ?_⟩
    rcases inTree with ⟨rfl, member⟩ | ⟨rfl, member⟩
    · obtain ⟨node', slot', sided⟩ := arranged.in_longs i member
      rw [slot] at slot'
      cases slot'
      exact sided
    · obtain ⟨node', slot', sided⟩ := arranged.in_shorts i member
      rw [slot] at slot'
      cases slot'
      exact sided

/-- The book of the sample is arranged. -/
theorem books_stay_arranged_traded : ∃ b, Sample.traded.get (Sample.book Sample.poly) = ⟨Runtime.sample.programId, .intentBook b⟩ ∧
    ∃ longs shorts seats free, Arranged b longs shorts seats free := by
  have reached : Reachable Runtime.sample (fun instr => instr.expands = false) Sample.traded :=
    Sample.reachable (by decide +kernel)
  have owned : Sample.traded.owner (Sample.book Sample.poly) = Runtime.sample.programId := by decide +kernel
  have isBook : (Sample.traded.data (Sample.book Sample.poly)).kind = .intentBook := by decide +kernel
  obtain ⟨b, held⟩ : ∃ b, Sample.traded.data (Sample.book Sample.poly) = .intentBook b := by
    cases found : Sample.traded.data (Sample.book Sample.poly) <;> simp_all
  have account := get_eq_of_data owned held
  obtain ⟨longs, shorts, seats, free, arranged, -⟩ := books_stay_arranged (fun _ plain => plain) reached account
  exact ⟨b, account, longs, shorts, seats, free, arranged⟩

end Polyleverage
