import Polyleverage.Guarantees.Discovery

/-! # Two ways to discover a match

A post that tries a match looks only at the side across from it, and the permissionless match looks at the
best of both sides. In a book that did not cross before the post they find the same trade: whatever
crosses now crosses the new order, and the new order is the best of its side.
-/

namespace Polyleverage

open RedBlack IntentTree

/-- The other side. -/
def opposite (side : ℕ) : ℕ := if side = SIDE_LONG then SIDE_SHORT else SIDE_LONG

theorem IsSide.opposite {side : ℕ} (isSide : IsSide side) : IsSide (opposite side) ∧ opposite side ≠ side := by
  unfold Polyleverage.opposite
  rcases isSide with rfl | rfl
  · exact ⟨.inr rfl, by decide⟩
  · exact ⟨.inl rfl, by decide⟩

/-- What belongs to an order of this side and to one of the other, the long one's first. -/
def longFirst {α : Type} (side : ℕ) (own other : α) : α × α := if side = SIDE_LONG then (own, other) else (other, own)

theorem longFirst_inj {α : Type} {side : ℕ} {own other own' other' : α} :
    longFirst side own other = longFirst side own' other' ↔ own = own' ∧ other = other' := by
  unfold longFirst
  split
  · exact Prod.mk.injEq _ _ _ _ ▸ Iff.rfl
  · rw [Prod.mk.injEq, and_comm]

theorem longFirst_ids (side : ℕ) (own other : IntentNode) :
    ((longFirst side own other).1.id, (longFirst side own other).2.id) = longFirst side own.id other.id := by
  unfold longFirst
  split
  · rfl
  · rfl

/-- No two live orders can be matched. -/
def Uncrossed (b : IntentBook) (nowSlot : ℕ) : Prop :=
  ∀ long short, LiveIn b SIDE_LONG nowSlot long → LiveIn b SIDE_SHORT nowSlot short → long.priceFp < short.priceFp

variable {b b' : IntentBook} {side nowSlot : ℕ}

/-- An order that is not outranked crosses whatever the other one crosses. -/
theorem CrossesTaker.of_better {x o other : IntentNode} (crosses : CrossesTaker (opposite side) o.priceFp other)
    (isSide : IsSide side) (first : ¬ Outranks side o x) : CrossesTaker (opposite side) x.priceFp other := by
  have price : ¬ BetterPrice side o.priceFp x.priceFp := fun better => first (.inl better)
  rcases isSide with rfl | rfl
  · have higher : o.priceFp ≤ x.priceFp := Nat.le_of_not_lt price
    have crossed : other.priceFp ≤ o.priceFp := crosses
    exact crossed.trans higher
  · have lower : x.priceFp ≤ o.priceFp := Nat.le_of_not_lt price
    have crossed : o.priceFp ≤ other.priceFp := crosses
    exact lower.trans crossed

namespace BookView

variable {v v' : BookView}

/-- The top pair, seen from one side. -/
theorem topPair_eq_longFirst (isSide : IsSide side) {own other : IntentNode} :
    v.topPair nowSlot = some (longFirst side own other) ↔ (v.queue side nowSlot).head? = some own ∧
      (v.queue (opposite side) nowSlot).head? = some other ∧ CrossesTaker (opposite side) own.priceFp other := by
  rcases isSide with rfl | rfl
  · exact topPair_eq_some
  · refine topPair_eq_some.trans ?_
    rw [and_left_comm]
    exact Iff.rfl

/-- In a book that does not cross the best order of one side does not cross the other side. -/
theorem not_crossesTaker_of_uncrossed (uncrossed : Uncrossed b nowSlot) (isSide : IsSide side) {own other : IntentNode}
    (first : own ∈ b.view.queue side nowSlot) (second : other ∈ b.view.queue (opposite side) nowSlot) :
    ¬ CrossesTaker (opposite side) own.priceFp other := by
  obtain ⟨x, liveX, rfl⟩ := liveIn_of_mem_queue first
  obtain ⟨y, liveY, rfl⟩ := liveIn_of_mem_queue second
  rcases isSide with rfl | rfl
  · have apart := uncrossed x y liveX liveY
    exact Nat.not_le_of_lt apart
  · have apart := uncrossed y x liveY liveX
    exact Nat.not_le_of_lt apart

variable {owner : Pubkey} {o : IntentNode} {slot seat : ℕ}

/-- A post adds its order to one queue. -/
theorem Posted.mem_queue (posted : v.Posted v' owner o slot seat) {x : IntentNode} (member : x ∈ v'.queue side nowSlot) :
    x = o ∨ x ∈ v.queue side nowSlot := by
  obtain ⟨i, inside, placed, sided, live⟩ := BookView.mem_queue.mp member
  rw [posted.order] at placed
  rw [posted.header] at inside
  by_cases here : i = slot
  · subst here
    rw [Function.update_self] at placed
    exact .inl (Option.some.inj placed).symm
  · rw [Function.update_of_ne here] at placed
    exact .inr (BookView.mem_queue.mpr ⟨i, inside, placed, sided, live⟩)

/-- Every pair is told by its orders on this side and on the other. -/
theorem exists_longFirst (side : ℕ) {α : Type} (pair : α × α) : ∃ own other, pair = longFirst side own other := by
  obtain ⟨long, short⟩ := pair
  by_cases isLong : side = SIDE_LONG
  · exact ⟨long, short, (if_pos isLong).symm⟩
  · exact ⟨short, long, (if_neg isLong).symm⟩

/-- After a post to a book that did not cross, the top pair is the posted order and the best of the other side, if
they cross. -/
theorem Posted.topPair_eq (posted : b.view.Posted b'.view owner o slot seat) (orderly : b'.view.Orderly)
    (uncrossed : Uncrossed b nowSlot) (isSide : IsSide side) (sided : o.side = side) (queued : o ∈ b'.view.queue side nowSlot) :
    b'.view.topPair nowSlot = ((b'.view.queue (opposite side) nowSlot).head?.filter fun c =>
      CrossesTaker (opposite side) o.priceFp c).map (longFirst side o) := by
  -- A best order other than the posted one was there before, and does not cross.
  have old : ∀ own other, (b'.view.queue side nowSlot).head? = some own →
      (b'.view.queue (opposite side) nowSlot).head? = some other → CrossesTaker (opposite side) own.priceFp other → own = o := by
    intro own other first best crosses
    have across : other ∈ b.view.queue (opposite side) nowSlot := by
      refine (posted.mem_queue (List.mem_of_head? best)).resolve_left ?_
      rintro rfl
      obtain ⟨_, -, -, other_side, -⟩ := BookView.mem_queue.mp (List.mem_of_head? best)
      exact isSide.opposite.2 (other_side.symm.trans sided)
    refine (posted.mem_queue (List.mem_of_head? first)).resolve_right fun there => ?_
    exact not_crossesTaker_of_uncrossed uncrossed isSide there across crosses
  refine Option.ext fun pair => ?_
  obtain ⟨x, y, rfl⟩ := exists_longFirst side pair
  rw [topPair_eq_longFirst isSide]
  simp only [Option.map_eq_some_iff, Option.filter_eq_some_iff, longFirst_inj, decide_eq_true_eq]
  constructor
  · rintro ⟨first, best, crosses⟩
    obtain rfl := old x y first best crosses
    exact ⟨y, ⟨best, crosses⟩, rfl, rfl⟩
  · rintro ⟨_, ⟨best, crosses⟩, rfl, rfl⟩
    -- The best order of the side is no worse than the posted one.
    have some_first := List.head?_eq_some_head (List.ne_nil_of_mem queued)
    generalize List.head _ (List.ne_nil_of_mem queued) = own at some_first
    have as_good : CrossesTaker (opposite side) own.priceFp _ :=
      crosses.of_better isSide (not_outranks_head orderly some_first queued)
    obtain rfl := old own _ some_first best as_good
    exact ⟨some_first, best, crosses⟩

end BookView

/-- A search that every member passes stops at the first one. -/
theorem find?_eq_head? {α : Type} {p : α → Bool} {l : List α} (passes : ∀ x ∈ l, p x = true) : l.find? p = l.head? := by
  cases l with
  | nil => rfl
  | cons x l => exact List.find?_cons_of_pos (passes x List.mem_cons_self)

/-- A post that its draft fits into leaves a well-formed book. -/
theorem WellFormed.post {owner : Pubkey} {d : Book.Draft} {id : ℕ} (wellFormed : WellFormed b) (isSide : IsSide d.side)
    (small : d.feeBuffer < 2 ^ 64) (ran : (Book.post owner d).run b = .ok id b') : WellFormed b' := by
  obtain ⟨-, -, slot, seat, posted, -⟩ := Book.post_ok wellFormed.consistent isSide ran
  refine ⟨Book.consistent_post wellFormed.consistent isSide ran, ?_, fun i o placed => ?_⟩
  · have capacity : b'.view.header.capacity = b.view.header.capacity := by rw [posted.header]
    exact capacity.trans_lt wellFormed.capacity_lt
  · change b'.view.order i = some o at placed
    rw [posted.order] at placed
    by_cases here : i = slot
    · subst here
      rw [Function.update_self] at placed
      cases placed
      exact small
    · rw [Function.update_of_ne here] at placed
      exact wellFormed.feeBuffer_lt i o placed

/-- After a post to a book that did not cross, the search of the post and the permissionless scan find the same trade:
the scan returns the posted order and the one that the search returns, and each finds nothing when the other does. -/
theorem inline_discovery_agrees {owner : Pubkey} {d : Book.Draft} {id : ℕ} (wellFormed : WellFormed b)
    (uncrossed : Uncrossed b nowSlot) (isSide : IsSide d.side) (small : d.feeBuffer < 2 ^ 64) (some_left : 0 < d.contracts)
    (unexpired : nowSlot < d.expirationSlot) (ran : (Book.post owner d).run b = .ok id b') :
    ∃ found scanned, (Book.findOverlapOnSide (opposite d.side) d.priceFp nowSlot id).run b' = .ok found b' ∧
      (Book.scanForFirstValidPair nowSlot).run b' = .ok scanned b' ∧
      (∀ cp, found = some cp ↔ scanned = some (longFirst d.side id cp)) ∧ (found = none ↔ scanned = none) := by
  have wellFormed' := wellFormed.post isSide small ran
  have orderly := wellFormed'.consistent.orderly
  obtain ⟨tidy, same, slot, seat, posted, -⟩ := Book.post_ok wellFormed.consistent isSide ran
  generalize orderEq : (d.node b.header.nextIntentId b.header.nextSeq seat).withLinks noLinks = o at posted
  have placed : b'.view.order slot = some o := by rw [posted.order, Function.update_self]
  have inside : slot < b'.view.header.capacity := by
    rw [posted.header]
    exact posted.inside tidy
  have queued : o ∈ b'.view.queue d.side nowSlot := by
    subst orderEq
    exact BookView.mem_queue.mpr ⟨slot, inside, placed, rfl, some_left, unexpired⟩
  have oid : o.id = id := by
    rw [same, ← orderEq]
    rfl
  have sided : o.side = d.side := by rw [← orderEq]; rfl
  have priced : o.priceFp = d.priceFp := by rw [← orderEq]; rfl
  -- The posted order is not on the other side, so the search skips nothing.
  have others : (b'.view.queue (opposite d.side) nowSlot).find? (fun x => x.id ≠ id) =
      (b'.view.queue (opposite d.side) nowSlot).head? := by
    apply find?_eq_head?
    intro x member
    obtain ⟨i, -, there, other_side, -⟩ := BookView.mem_queue.mp member
    rw [decide_eq_true_eq, ← oid]
    intro twin
    obtain rfl := orderly.id_inj i slot x o there placed twin
    cases there.symm.trans placed
    exact isSide.opposite.2 (other_side.symm.trans sided)
  have searched : (Book.findOverlapOnSide (opposite d.side) d.priceFp nowSlot id).run b' = _ :=
    run_findOverlapOnSide wellFormed' isSide.opposite.1 d.priceFp id
  have scanned : (Book.scanForFirstValidPair nowSlot).run b' = _ := run_scanForFirstValidPair wellFormed'
  rw [others] at searched
  rw [posted.topPair_eq orderly uncrossed isSide sided queued] at scanned
  refine ⟨_, _, searched, scanned, ?_⟩
  rw [priced]
  generalize (b'.view.queue (opposite d.side) nowSlot).head? = best
  cases best with
  | none => simp only [Option.bind_none, Option.filter_none, Option.map_none, reduceCtorEq, implies_true, and_self]
  | some c =>
    by_cases crosses : CrossesTaker (opposite d.side) d.priceFp c
    · -- Both find the posted order and the best of the other side.
      have kept : (some c).filter (fun c => decide (CrossesTaker (opposite d.side) d.priceFp c)) = some c :=
        Option.filter_some_pos (decide_eq_true crosses)
      rw [kept, Option.bind_some, if_pos crosses, Option.map_some, Option.map_some, longFirst_ids, oid]
      refine ⟨fun cp => ?_, iff_of_false (Option.some_ne_none _) (Option.some_ne_none _)⟩
      rw [Option.some_inj, Option.some_inj, longFirst_inj, and_iff_right rfl]
    · have dropped : (some c).filter (fun c => decide (CrossesTaker (opposite d.side) d.priceFp c)) = none :=
        Option.filter_some_neg (decide_eq_false crosses)
      rw [dropped, Option.bind_some, if_neg crosses]
      exact ⟨fun cp => iff_of_false (Option.some_ne_none cp).symm (Option.some_ne_none _).symm, iff_of_true rfl rfl⟩

namespace Sample

/-- One contract at the price, against no other order so far. -/
def draft (side priceFp : ℕ) : Book.Draft := ⟨side, 0, priceFp, 1, 100, 1000, 0⟩

def emptyBook : IntentBook := IntentBook.initIntentBook default 16 0 0

/-- A book in which Alice bids. -/
def bidden : IntentBook := ((Book.post alice (draft SIDE_LONG 600)).run emptyBook).state?.getD emptyBook

theorem wellFormed_emptyBook : WellFormed emptyBook := by
  refine ⟨consistent_init _ _ _ _, by decide, fun i o placed => ?_⟩
  obtain ⟨node, slot, -⟩ := IntentBook.intent_of_order placed
  cases List.eq_of_mem_replicate (List.mem_of_getElem? slot)

theorem post_bidden : (Book.post alice (draft SIDE_LONG 600)).run emptyBook = .ok 1 bidden := by
  have known : ((Book.post alice (draft SIDE_LONG 600)).run emptyBook).value? = some 1 := by decide +kernel
  obtain ⟨b, ran⟩ := Outcome.value?_eq_some.mp known
  rw [bidden, ran, Outcome.state?_ok, Option.getD_some]

theorem wellFormed_bidden : WellFormed bidden :=
  wellFormed_emptyBook.post (.inl rfl) (by decide) post_bidden

/-- Nobody asks. -/
theorem uncrossed_bidden : Uncrossed bidden 0 := by
  rintro long short - ⟨i, slot, sided, -⟩
  have bids : (List.range 16).all fun i => (bidden.order i).all fun o => o.side = SIDE_LONG := by decide +kernel
  have inside : i < 16 := wellFormed_bidden.consistent.tidy.intent_lt slot
  have bid := List.all_eq_true.mp bids i (List.mem_range.mpr inside)
  rw [IntentBook.order_of_intent slot, Option.all_some, decide_eq_true_eq] at bid
  exact absurd (bid.symm.trans sided) (by decide)

end Sample

/-- Bob asks for less than Alice bids, and both searches find the two. -/
theorem inline_discovery_agrees_ask : ∃ b', (Book.post Sample.bob (Sample.draft SIDE_SHORT 400)).run Sample.bidden = .ok 2 b' ∧
    ∃ found scanned, (Book.findOverlapOnSide SIDE_LONG 400 0 2).run b' = .ok found b' ∧
      (Book.scanForFirstValidPair 0).run b' = .ok scanned b' ∧
      (∀ cp, found = some cp ↔ scanned = some (cp, 2)) ∧ (found = none ↔ scanned = none) := by
  have known : ((Book.post Sample.bob (Sample.draft SIDE_SHORT 400)).run Sample.bidden).value? = some 2 := by decide +kernel
  obtain ⟨b', ran⟩ := Outcome.value?_eq_some.mp known
  exact ⟨b', ran, inline_discovery_agrees Sample.wellFormed_bidden Sample.uncrossed_bidden (.inr rfl) (by decide) (by decide)
    (by decide) ran⟩

/-- For more than she bids, she is not found. -/
example : ((Book.findOverlapOnSide SIDE_LONG 700 0 2).run Sample.bidden).value? = some none := by decide +kernel

end Polyleverage
