import Polyleverage.Invariants.BookFill
import Polyleverage.Processor.Position

/-! # Books under the handlers

A sound book is consistent, its orders reserve the collateral of the contracts they have left, and no
order reserves a fee. What the handlers do to a book keeps it sound, also when they fail, and moves
the reservations of the traders by what they hand on.
-/

namespace Polyleverage

open RedBlack Machine

/-- Every order has contracts left and reserves the collateral of one for each. -/
def BookView.Backed (v : BookView) (bucket : ℕ) : Prop :=
  ∀ i o, v.order i = some o → o.contractsRemaining ≠ 0 ∧ o.reservedCollateral = o.contractsRemaining * bucket

/-- No order has a fee buffer, and none is asked for. -/
def BookView.Unbuffered (v : BookView) : Prop :=
  v.header.cachedMaxFeeBps = 0 ∧ ∀ i o, v.order i = some o → o.feeBuffer = 0

structure Sound (bucket : ℕ) (b : IntentBook) : Prop where
  consistent : Consistent b
  backed : b.view.Backed bucket
  unbuffered : b.view.Unbuffered

/-- An order with one contract less. -/
def IntentNode.fill (node : IntentNode) (bucket release : ℕ) : IntentNode :=
  { node with
    contractsRemaining := node.contractsRemaining - 1
    reservedCollateral := node.reservedCollateral - bucket
    feeBuffer := node.feeBuffer - release }

variable {b b' : IntentBook} {i bucket : ℕ} {u : Unit}

/-- Orders keep their numbers and their traders, and a new order has a new number. -/
structure Heirs (b b' : IntentBook) : Prop where
  ids : b.header.nextIntentId ≤ b'.header.nextIntentId
  traders : ∀ i t, b.trader i = some t → b'.trader i = some t
  orders : ∀ i o, b'.order i = some o → b.header.nextIntentId ≤ o.id ∨
    ∃ o', b.order i = some o' ∧ o.ownerSeat = o'.ownerSeat ∧ o.id = o'.id

instance : Std.Refl Heirs := ⟨fun _ => ⟨le_rfl, fun _ _ => id, fun _ o placed => .inr ⟨o, placed, rfl, rfl⟩⟩⟩

instance : IsTrans IntentBook Heirs where
  trans _ _ _ first next := by
    refine ⟨first.ids.trans next.ids, fun i t seated => next.traders i t (first.traders i t seated), fun i o placed => ?_⟩
    rcases next.orders i o placed with new | ⟨o', old, owner, id⟩
    · exact .inl (first.ids.trans new)
    rcases first.orders i o' old with new | ⟨o'', older, owner', id'⟩
    · exact .inl (id ▸ new)
    · exact .inr ⟨o'', older, owner.trans owner', id.trans id'⟩

/-- The view decides whether a tidy book is sound: it may lose orders, fill them, and use up numbers. -/
theorem Sound.of_view (sound : Sound bucket b) (tidy : Tidy b') (traders : b'.trader = b.trader)
    (ids : b.header.nextIntentId ≤ b'.header.nextIntentId) (seqs : b.header.nextSeq ≤ b'.header.nextSeq)
    (cached : b'.header.cachedMaxFeeBps = b.header.cachedMaxFeeBps)
    (orders : ∀ i o, b'.order i = some o → ∃ o', b.order i = some o' ∧ o.ownerSeat = o'.ownerSeat ∧ o.id = o'.id ∧
      o.postSeq = o'.postSeq ∧ o.contractsRemaining ≠ 0 ∧
      o.reservedCollateral = o.contractsRemaining * bucket ∧ o.feeBuffer ≤ o'.feeBuffer) :
    Sound bucket b' ∧ Heirs b b' := by
  have stay : ∀ i t, b.trader i = some t → b'.trader i = some t := by
    intro i t seated
    rwa [traders]
  have orderly : b'.view.Orderly := by
    apply BookView.Orderly.mono sound.consistent.orderly
    · exact ids
    · exact seqs
    · exact stay
    · intro j o placed
      obtain ⟨o', old, owner, id, seq, -⟩ := orders j o placed
      exact ⟨o', old, owner, id, seq⟩
  refine ⟨⟨⟨tidy, orderly⟩, fun j o placed => ?_, cached.trans sound.unbuffered.1, fun j o placed => ?_⟩, ids, stay,
    fun j o placed => ?_⟩
  · obtain ⟨o', old, -, -, -, left, reserved, -⟩ := orders j o placed
    exact ⟨left, reserved⟩
  · obtain ⟨o', old, -, -, -, -, -, buffer⟩ := orders j o placed
    have none := sound.unbuffered.2 j o' old
    omega
  · obtain ⟨o', old, owner, id, -⟩ := orders j o placed
    exact .inr ⟨o', old, owner, id⟩

/-- An intent is backed like the order it is seen as. -/
theorem Sound.backed_of_intent (sound : Sound bucket b) {node : IntentNode}
    (slot : b.nodes[i]? = some (.intent node)) :
    node.contractsRemaining ≠ 0 ∧ node.reservedCollateral = node.contractsRemaining * bucket := by
  have := sound.backed i _ (IntentBook.order_of_intent slot)
  exact this

theorem Sound.buffer_of_intent (sound : Sound bucket b) {node : IntentNode}
    (slot : b.nodes[i]? = some (.intent node)) : node.feeBuffer = 0 := by
  have := sound.unbuffered.2 i _ (IntentBook.order_of_intent slot)
  exact this

theorem sound_init (instrument : Pubkey) (capacity bump : ℕ) :
    Sound bucket (IntentBook.initIntentBook instrument capacity bump 0) := by
  have empty : ∀ i, (IntentBook.initIntentBook instrument capacity bump 0).order i = none := by
    intro i
    unfold IntentBook.order IntentBook.initIntentBook
    rw [List.getElem?_replicate]
    split <;> rfl
  refine ⟨consistent_init instrument capacity bump 0, fun i o placed => ?_, rfl, fun i o placed => ?_⟩
  · have := (empty i).symm.trans placed
    cases this
  · have := (empty i).symm.trans placed
    cases this

/-! ### Fills -/

/-- One contract of this order is filled. -/
def BookView.fillAt (v : BookView) (i : ℕ) (node : IntentNode) (bucket release : ℕ) : BookView :=
  { v with order := Function.update v.order i (node.fill bucket release).rest }

/-- One contract of a pair is filled. -/
def BookView.fill (v : BookView) (p : Book.Pair) (bucket longRelease shortRelease : ℕ) : BookView :=
  { v with
    order := Function.update (Function.update v.order p.longIdx (p.long.fill bucket longRelease).rest) p.shortIdx
      (p.short.fill bucket shortRelease).rest }

namespace Book

/-- A pair that was found lies in the book, on its two sides, and crosses. -/
structure Found (b : IntentBook) (nowSlot : ℕ) (p : Pair) : Prop where
  long : b.nodes[p.longIdx]? = some (.intent p.long)
  short : b.nodes[p.shortIdx]? = some (.intent p.short)
  longSide : p.long.side = SIDE_LONG
  shortSide : p.short.side = SIDE_SHORT
  longLive : nowSlot < p.long.expirationSlot ∧ p.long.contractsRemaining ≠ 0
  shortLive : nowSlot < p.short.expirationSlot ∧ p.short.contractsRemaining ≠ 0
  cross : p.short.priceFp ≤ p.long.priceFp

/-- The search of a pair passes only what lies in the book. -/
theorem found_of_findPair {longId shortId nowSlot : ℕ} {p : Pair} (ok : findPair longId shortId nowSlot b = .ok p) :
    Found b nowSlot p ∧ p.long.id = longId ∧ p.short.id = shortId := by
  unfold findPair at ok
  cases foundLong : findIntentById b longId with
  | error e => simp [foundLong, bind, Except.bind] at ok
  | ok long =>
    cases foundShort : findIntentById b shortId with
    | error e => simp [foundLong, foundShort, bind, Except.bind] at ok
    | ok short =>
      obtain ⟨longIdx, longSide⟩ := long
      obtain ⟨shortIdx, shortSide⟩ := short
      obtain ⟨ln, slotL, idL, sideL⟩ := intent_of_findIntentById foundLong
      obtain ⟨sn, slotS, idS, sideS⟩ := intent_of_findIntentById foundShort
      simp only [foundLong, foundShort, bind, Except.bind, IntentBook.intent_eq_ok.mpr slotL,
        IntentBook.intent_eq_ok.mpr slotS] at ok
      split at ok
      · cases ok
      next sides =>
        split at ok
        · cases ok
        next live =>
          split at ok
          · cases ok
          next left =>
            split at ok
            · cases ok
            next cross =>
              cases ok
              refine ⟨⟨slotL, slotS, ?_, ?_, ?_, ?_, Nat.le_of_not_lt cross⟩, idL, idS⟩
              · by_contra other
                exact sides (.inl (sideL ▸ other))
              · by_contra other
                exact sides (.inr (sideS ▸ other))
              · constructor
                · exact Nat.lt_of_not_le fun expired => live (.inl expired)
                · exact fun zero => left (.inl zero)
              · constructor
                · exact Nat.lt_of_not_le fun expired => live (.inr expired)
                · exact fun zero => left (.inr zero)

theorem findPair_ok {longId shortId nowSlot : ℕ} {p : Pair} (consistent : Consistent b) :
    findPair longId shortId nowSlot b = .ok p ↔ Found b nowSlot p ∧ p.long.id = longId ∧ p.short.id = shortId := by
  constructor
  · exact found_of_findPair
  · rintro ⟨found, rfl, rfl⟩
    have foundLong := (findIntentById_ok consistent).mpr ⟨p.long, found.long, rfl, rfl⟩
    have foundShort := (findIntentById_ok consistent).mpr ⟨p.short, found.short, rfl, rfl⟩
    have sides : ¬ (p.long.side ≠ SIDE_LONG ∨ p.short.side ≠ SIDE_SHORT) := by
      simp [found.longSide, found.shortSide]
    have live : ¬ (p.long.expirationSlot ≤ nowSlot ∨ p.short.expirationSlot ≤ nowSlot) := by
      have := found.longLive.1
      have := found.shortLive.1
      omega
    have left : ¬ (p.long.contractsRemaining = 0 ∨ p.short.contractsRemaining = 0) := by
      simp [found.longLive.2, found.shortLive.2]
    have cross : ¬ p.long.priceFp < p.short.priceFp := Nat.not_lt.mpr found.cross
    simp only [findPair, foundLong, foundShort, bind, Except.bind, IntentBook.intent_eq_ok.mpr found.long,
      IntentBook.intent_eq_ok.mpr found.short, if_neg sides, if_neg live, if_neg left, if_neg cross]

theorem Found.ne {nowSlot : ℕ} {p : Pair} (found : Found b nowSlot p) : p.shortIdx ≠ p.longIdx := by
  intro same
  have slot := found.short
  rw [same, found.long] at slot
  have equal : p.long = p.short := by simpa using slot
  have side := found.longSide
  rw [equal, found.shortSide] at side
  cases side

/-- What a fill takes out of a fee buffer is at most what is there, and all of it for the last contract. -/
theorem fillRelease_ok {node : IntentNode} {release : ℕ} (released : fillRelease node = .ok release) :
    release ≤ node.feeBuffer ∧ (node.contractsRemaining = 1 → release = node.feeBuffer) := by
  unfold fillRelease at released
  split at released
  · cases released
    exact ⟨le_refl _, fun _ => rfl⟩
  next several =>
    refine ⟨?_, fun last => absurd last several⟩
    unfold releaseFeeBufferForFill orOverflow at released
    split at released
    · cases released
    · split at released
      · cases released
        exact le_refl _
      · split at released
        next share found =>
          cases released
          simp only at found
          split at found
          · cases found
            rw [Nat.mul_one]
            exact Nat.div_le_self _ _
          · cases found
        · cases released

/-- The pair with one contract less on each side. -/
theorem consume_ok {p q : Pair} {longRelease shortRelease : ℕ}
    (consumed : consume bucket p = .ok (q, longRelease, shortRelease)) :
    q = { p with long := p.long.fill bucket longRelease, short := p.short.fill bucket shortRelease } ∧
      bucket ≤ p.long.reservedCollateral ∧ bucket ≤ p.short.reservedCollateral ∧
      fillRelease p.long = .ok longRelease ∧ fillRelease p.short = .ok shortRelease := by
  simp only [consume, bind, Except.bind] at consumed
  have reserved : ∀ {have_ want : ℕ} {v : ℕ}, consume.insufficientReserved (checkedSub have_ want) = .ok v →
      want ≤ have_ ∧ have_ - want = v := by
    intro have_ want v ok
    unfold consume.insufficientReserved at ok
    split at ok
    next found =>
      cases ok
      exact checkedSub_eq_some.mp found
    · cases ok
  have buffered : ∀ {have_ want : ℕ} {v : ℕ}, consume.underflow (checkedSub have_ want) = .ok v →
      want ≤ have_ ∧ have_ - want = v := by
    intro have_ want v ok
    unfold consume.underflow at ok
    split at ok
    next found =>
      cases ok
      exact checkedSub_eq_some.mp found
    · cases ok
  split at consumed
  · cases consumed
  next longReserved hl =>
    split at consumed
    · cases consumed
    next shortReserved hs =>
      split at consumed
      · cases consumed
      next lr hlr =>
        split at consumed
        · cases consumed
        next sr hsr =>
          split at consumed
          · cases consumed
          next longBuffer hlb =>
            split at consumed
            · cases consumed
            next shortBuffer hsb =>
              obtain ⟨enoughL, rfl⟩ := reserved hl
              obtain ⟨enoughS, rfl⟩ := reserved hs
              obtain ⟨-, rfl⟩ := buffered hlb
              obtain ⟨-, rfl⟩ := buffered hsb
              cases consumed
              exact ⟨rfl, enoughL, enoughS, hlr, hsr⟩

/-- Writing a filled pair back. -/
theorem run_writePair (tidy : Tidy b) {nowSlot : ℕ} {p : Pair} (found : Found b nowSlot p)
    (bucket longRelease shortRelease : ℕ) :
    ∃ b', (writePair { p with long := p.long.fill bucket longRelease, short := p.short.fill bucket shortRelease }).run b =
        .ok () b' ∧ Tidy b' ∧ b'.view = b.view.fill p bucket longRelease shortRelease := by
  have different := found.ne
  let long := p.long.fill bucket longRelease
  let short := p.short.fill bucket shortRelease
  let b1 := b.setNode p.longIdx (.intent long)
  let b2 := b1.setNode p.shortIdx (.intent short)
  have short1 : b1.nodes[p.shortIdx]? = some (.intent p.short) := by
    rw [IntentBook.getElem?_setNode_of_ne different]
    exact found.short
  have ran1 : (IntentBook.updateIntent p.longIdx fun _ => long).run b = .ok () b1 := by
    refine Exec.bind_ok.mpr ⟨p.long, b, ?_, rfl⟩
    exact Exec.gets_ok.mpr ⟨IntentBook.intent_eq_ok.mpr found.long, rfl⟩
  have ran2 : (IntentBook.updateIntent p.shortIdx fun _ => short).run b1 = .ok () b2 := by
    refine Exec.bind_ok.mpr ⟨p.short, b1, ?_, rfl⟩
    exact Exec.gets_ok.mpr ⟨IntentBook.intent_eq_ok.mpr short1, rfl⟩
  have tidy2 : Tidy b2 := by
    obtain ⟨orders, seats, chain, laid⟩ := tidy
    have laid1 := laid.rewrite_intent found.long (rfl : long.links = _) rfl rfl
    exact ⟨orders, seats, chain, laid1.rewrite_intent short1 (rfl : short.links = _) rfl rfl⟩
  have slotL : b2.nodes[p.longIdx]? = some (.intent long) := by
    rw [IntentBook.getElem?_setNode_of_ne (Ne.symm different)]
    exact IntentBook.getElem?_setNode_self (IntentBook.lt_length_of_getElem? found.long)
  have slotS : b2.nodes[p.shortIdx]? = some (.intent short) :=
    IntentBook.getElem?_setNode_self (IntentBook.lt_length_of_getElem? short1)
  have view2 : b2.view = { b.view with
      order := Function.update (Function.update b.order p.longIdx (some (long.withLinks noLinks))) p.shortIdx
        (some (short.withLinks noLinks)) } := by
    have viewL := IntentBook.view_setNode (IntentBook.lt_length_of_getElem? found.long) (.intent long)
    have viewS := IntentBook.view_setNode (IntentBook.lt_length_of_getElem? short1) (.intent short)
    have traderL : Function.update b.trader p.longIdx (RawNode.trader (.intent long)) = b.trader := by
      apply Function.update_eq_self_iff.mpr
      rw [IntentBook.trader, found.long]
      rfl
    have traderS : Function.update b1.trader p.shortIdx (RawNode.trader (.intent short)) = b1.trader := by
      apply Function.update_eq_self_iff.mpr
      rw [IntentBook.trader, short1]
      rfl
    have order1 : b1.order = Function.update b.order p.longIdx (some (long.withLinks noLinks)) :=
      congrArg BookView.order viewL
    have trader1 : b1.trader = b.trader := (congrArg BookView.trader viewL).trans traderL
    rw [viewS, traderS, order1, trader1]
    rfl
  have order2 : b2.order = Function.update (Function.update b.order p.longIdx (some (long.withLinks noLinks))) p.shortIdx
      (some (short.withLinks noLinks)) := congrArg BookView.order view2
  have trader2 : b2.trader = b.trader := congrArg BookView.trader view2
  have header2 : b2.header.terms = b.header.terms := congrArg BookView.header view2
  -- Each side is taken out when it is used up.
  obtain ⟨b3, ran3, tidy3, order3, trader3, header3⟩ : ∃ b3,
      (Exec.when (long.contractsRemaining = 0) (removeIntent SIDE_LONG p.longIdx)).run b2 = .ok () b3 ∧ Tidy b3 ∧
      b3.order = Function.update (Function.update b.order p.longIdx long.rest) p.shortIdx
        (some (short.withLinks noLinks)) ∧ b3.trader = b.trader ∧ b3.header.terms = b.header.terms := by
    by_cases done : long.contractsRemaining = 0
    · obtain ⟨b3, ran3, tidy3, view3⟩ := run_removeIntent tidy2 slotL
      have sided : long.side = SIDE_LONG := found.longSide
      rw [sided] at ran3
      refine ⟨b3, ?_, tidy3, ?_, ?_, ?_⟩
      · rw [Exec.run_when, if_pos done]
        exact ran3
      · have order3 : b3.order = Function.update b2.order p.longIdx none := congrArg BookView.order view3
        rw [order3, order2, Function.update_comm different, Function.update_idem, IntentNode.rest, if_pos done]
      · have trader3 : b3.trader = b2.trader := congrArg BookView.trader view3
        exact trader3.trans trader2
      · have header3 : b3.header.terms = b2.header.terms := congrArg BookView.header view3
        exact header3.trans header2
    · refine ⟨b2, ?_, tidy2, ?_, trader2, header2⟩
      · rw [Exec.run_when, if_neg done]
      · rw [order2, IntentNode.rest, if_neg done]
  have placedS : b3.order p.shortIdx = some (short.withLinks noLinks) := by
    rw [order3, Function.update_self]
  obtain ⟨l, slotS3⟩ := slot_of_order placedS
  obtain ⟨b4, ran4, tidy4, order4, trader4, header4⟩ : ∃ b4,
      (Exec.when (short.contractsRemaining = 0) (removeIntent SIDE_SHORT p.shortIdx)).run b3 = .ok () b4 ∧ Tidy b4 ∧
      b4.order = Function.update (Function.update b.order p.longIdx long.rest) p.shortIdx short.rest ∧
      b4.trader = b.trader ∧ b4.header.terms = b.header.terms := by
    by_cases done : short.contractsRemaining = 0
    · obtain ⟨b4, removed, tidy4, view4⟩ := run_removeIntent tidy3 slotS3
      have sided : ((short.withLinks noLinks).withLinks l).side = SIDE_SHORT := found.shortSide
      rw [sided] at removed
      refine ⟨b4, ?_, tidy4, ?_, ?_, ?_⟩
      · rw [Exec.run_when, if_pos done]
        exact removed
      · have order4 : b4.order = Function.update b3.order p.shortIdx none := congrArg BookView.order view4
        have rest : short.rest = none := if_pos done
        rw [order4, order3, Function.update_idem, rest]
      · have trader4 : b4.trader = b3.trader := congrArg BookView.trader view4
        exact trader4.trans trader3
      · have header4 : b4.header.terms = b3.header.terms := congrArg BookView.header view4
        exact header4.trans header3
    · refine ⟨b3, ?_, tidy3, ?_, trader3, header3⟩
      · rw [Exec.run_when, if_neg done]
      · have rest : short.rest = some (short.withLinks noLinks) := if_neg done
        rw [order3, rest]
  refine ⟨b4, ?_, tidy4, ?_⟩
  · rw [writePair, Exec.run_bind_of_ok ran1, Exec.run_bind_of_ok ran2, Exec.run_bind_of_ok ran3]
    exact ran4
  · simp only [IntentBook.view, BookView.fill, BookView.mk.injEq]
    exact ⟨order4, trader4, header4⟩

/-- A filled order is still its owner's. -/
theorem rest_owned {node : IntentNode} {release : ℕ} {o : IntentNode} (left : (node.fill bucket release).rest = some o) :
    o.ownerSeat = node.ownerSeat ∧ o.id = node.id ∧ o.postSeq = node.postSeq := by
  unfold IntentNode.rest at left
  split at left
  · cases left
  · cases left
    exact ⟨rfl, rfl, rfl⟩

/-- What is left of one filled order stays in order with the others. -/
theorem orderly_fillAt {v : BookView} (orderly : v.Orderly) {node : IntentNode} (placed : v.order i = some (node.withLinks noLinks))
    (bucket release : ℕ) : (v.fillAt i node bucket release).Orderly := by
  apply orderly.mono
  · exact le_refl _
  · exact le_refl _
  · exact fun _ _ seated => seated
  · intro j o left
    change Function.update v.order i _ j = some o at left
    by_cases here : j = i
    · rw [here, Function.update_self] at left
      exact ⟨node.withLinks noLinks, here ▸ placed, rest_owned left⟩
    · rw [Function.update_of_ne here] at left
      exact ⟨o, left, rfl, rfl, rfl⟩

/-- The short order is where it was after the long one was filled. -/
theorem Found.short_fillAt {nowSlot : ℕ} {p : Pair} (found : Found b nowSlot p) (bucket release : ℕ) :
    (b.view.fillAt p.longIdx p.long bucket release).order p.shortIdx = some (p.short.withLinks noLinks) := by
  change Function.update b.order p.longIdx _ p.shortIdx = _
  rw [Function.update_of_ne found.ne, IntentBook.order_of_intent found.short]

/-- A fill keeps the orders in order. -/
theorem orderly_fill {nowSlot : ℕ} {p : Pair} (orderly : b.view.Orderly) (found : Found b nowSlot p)
    (bucket longRelease shortRelease : ℕ) : (b.view.fill p bucket longRelease shortRelease).Orderly :=
  orderly_fillAt (orderly_fillAt orderly (IntentBook.order_of_intent found.long) bucket longRelease)
    (found.short_fillAt bucket longRelease) bucket shortRelease

/-- What a filled order still reserves is what its remaining contracts need. -/
theorem rest_fill {node : IntentNode} {release : ℕ} {o : IntentNode}
    (reserved : node.reservedCollateral = node.contractsRemaining * bucket)
    (left : (node.fill bucket release).rest = some o) :
    o.ownerSeat = node.ownerSeat ∧ o.id = node.id ∧ o.postSeq = node.postSeq ∧ o.contractsRemaining ≠ 0 ∧
      o.reservedCollateral = o.contractsRemaining * bucket ∧ o.feeBuffer ≤ node.feeBuffer := by
  unfold IntentNode.rest at left
  split at left
  · cases left
  next some_left =>
    cases left
    refine ⟨rfl, rfl, rfl, some_left, ?_, Nat.sub_le _ _⟩
    change node.reservedCollateral - bucket = (node.contractsRemaining - 1) * bucket
    rw [reserved, Nat.sub_mul, Nat.one_mul]

/-- A filled order reserves the bucket and the release less than before, also when it is used up. -/
theorem weigh_rest {v : BookView} {t : Pubkey} {node : IntentNode} {release : ℕ}
    (backed : node.contractsRemaining ≠ 0 ∧ node.reservedCollateral = node.contractsRemaining * bucket)
    (released : fillRelease node = .ok release) :
    ((node.fill bucket release).rest).elim 0 (v.weigh t) +
      (if v.trader node.ownerSeat = some t then bucket + release else 0) = v.weigh t (node.withLinks noLinks) := by
  obtain ⟨some_left, reserved⟩ := backed
  obtain ⟨enough, last⟩ := fillRelease_ok released
  have collateral : bucket ≤ node.reservedCollateral := by
    rw [reserved]
    exact Nat.le_mul_of_pos_left bucket (Nat.pos_of_ne_zero some_left)
  have whole : v.weigh t (node.withLinks noLinks) =
      if v.trader node.ownerSeat = some t then node.reservedCollateral + node.feeBuffer else 0 := rfl
  rw [whole]
  unfold IntentNode.rest
  split
  next done =>
    have one : node.contractsRemaining = 1 := by
      change node.contractsRemaining - 1 = 0 at done
      omega
    rw [last one, reserved, one, Nat.one_mul]
    exact Nat.zero_add _
  next more =>
    have rest : v.weigh t ((node.fill bucket release).withLinks noLinks) =
        if v.trader node.ownerSeat = some t then node.reservedCollateral - bucket + (node.feeBuffer - release) else 0 := rfl
    rw [Option.elim_some, rest]
    split <;> omega

/-- Filling keeps the book sound. -/
theorem sound_fill (sound : Sound bucket b) {nowSlot longRelease shortRelease : ℕ} {p : Pair}
    (found : Found b nowSlot p) (tidy : Tidy b') (view : b'.view = b.view.fill p bucket longRelease shortRelease) :
    Sound bucket b' ∧ Heirs b b' := by
  have order : b'.order = (b.view.fill p bucket longRelease shortRelease).order := congrArg BookView.order view
  have header : b'.header.terms = b.header.terms := congrArg BookView.header view
  apply sound.of_view tidy
  · exact congrArg BookView.trader view
  · have := congrArg IntentBookHeader.nextIntentId header
    exact Nat.le_of_eq this.symm
  · have := congrArg IntentBookHeader.nextSeq header
    exact Nat.le_of_eq this.symm
  · have := congrArg IntentBookHeader.cachedMaxFeeBps header
    exact this
  · intro i o placed
    rw [order] at placed
    change Function.update (Function.update b.order p.longIdx _) p.shortIdx _ i = some o at placed
    by_cases short : i = p.shortIdx
    · rw [short, Function.update_self] at placed
      have old := IntentBook.order_of_intent found.short
      obtain ⟨owner, id, seq, left, reserved, buffer⟩ := rest_fill (sound.backed_of_intent found.short).2 placed
      exact ⟨p.short.withLinks noLinks, short ▸ old, owner, id, seq, left, reserved, buffer⟩
    · rw [Function.update_of_ne short] at placed
      by_cases long : i = p.longIdx
      · rw [long, Function.update_self] at placed
        have old := IntentBook.order_of_intent found.long
        obtain ⟨owner, id, seq, left, reserved, buffer⟩ := rest_fill (sound.backed_of_intent found.long).2 placed
        exact ⟨p.long.withLinks noLinks, long ▸ old, owner, id, seq, left, reserved, buffer⟩
      · rw [Function.update_of_ne long] at placed
        obtain ⟨left, reserved⟩ := sound.backed i o placed
        exact ⟨o, placed, rfl, rfl, rfl, left, reserved, le_refl _⟩

/-- A fill takes the bucket and the release off what each owner has reserved. -/
theorem reserved_fill (sound : Sound bucket b) {nowSlot longRelease shortRelease : ℕ} {p : Pair} (t : Pubkey)
    (found : Found b nowSlot p) (releasedL : fillRelease p.long = .ok longRelease)
    (releasedS : fillRelease p.short = .ok shortRelease) :
    (b.view.fill p bucket longRelease shortRelease).reserved t +
      (if b.trader p.long.ownerSeat = some t then bucket + longRelease else 0) +
      (if b.trader p.short.ownerSeat = some t then bucket + shortRelease else 0) = b.view.reserved t := by
  have oldL := IntentBook.order_of_intent found.long
  have weightL := weigh_rest (v := b.view) (t := t) (sound.backed_of_intent found.long) releasedL
  have weightS := weigh_rest (v := b.view) (t := t) (sound.backed_of_intent found.short) releasedS
  let v1 : BookView := b.view.fillAt p.longIdx p.long bucket longRelease
  have orderly1 : v1.Orderly := orderly_fillAt sound.consistent.orderly oldL bucket longRelease
  have stepL := BookView.reserved_update (t := t) sound.consistent.orderly
    (sound.consistent.tidy.intent_lt found.long) (rfl : v1.order = _) rfl fun _ _ seated => seated
  have stepS := BookView.reserved_update (t := t) orderly1
    (sound.consistent.tidy.intent_lt found.short) (rfl : (b.view.fill p bucket longRelease shortRelease).order = _) rfl fun _ _ seated => seated
  have hereL : b.view.order p.longIdx = some (p.long.withLinks noLinks) := oldL
  have hereS : v1.order p.shortIdx = some (p.short.withLinks noLinks) := found.short_fillAt bucket longRelease
  rw [hereL, Option.elim_some] at stepL
  rw [hereS, Option.elim_some] at stepS
  have sameL : v1.weigh t = b.view.weigh t := rfl
  have sameS : (b.view.fill p bucket longRelease shortRelease).weigh t = b.view.weigh t := rfl
  have traders : b.view.trader = b.trader := rfl
  rw [sameL] at stepL stepS
  rw [sameS] at stepS
  rw [traders] at weightL weightS
  omega

end Book

end Polyleverage
