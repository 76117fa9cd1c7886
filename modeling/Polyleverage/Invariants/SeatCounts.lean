import Polyleverage.Exec.Keeping
import Polyleverage.Invariants.BookMatch

/-! # What the seats count

A seat counts its owner's intents. Posting, cancelling and pruning keep the counts exact. A fill never
tells a seat, so it keeps them exact only when no intent is used up.
-/

namespace Polyleverage

open RedBlack Machine

def RawNode.count : RawNode → Option ℕ
  | .seat node => some node.activeIntentCount
  | _ => none

namespace IntentBook

/-- What the seat in a slot counts. -/
def count (b : IntentBook) (i : ℕ) : Option ℕ := b.nodes[i]?.bind RawNode.count

variable {b b' : IntentBook} {i : ℕ}

theorem count_of_seat {node : SeatNode} (slot : b.nodes[i]? = some (.seat node)) : b.count i = some node.activeIntentCount := by
  rw [count, slot]
  rfl

theorem seat_of_count {n : ℕ} (counted : b.count i = some n) :
    ∃ node, b.nodes[i]? = some (.seat node) ∧ node.activeIntentCount = n := by
  unfold count at counted
  cases slot : b.nodes[i]? with
  | none => simp [slot] at counted
  | some raw =>
    cases raw with
    | seat node => exact ⟨node, rfl, by simpa [slot, RawNode.count] using counted⟩
    | _ => simp [slot, RawNode.count] at counted

theorem count_of_bare (same : b'.bare = b.bare) : b'.count = b.count := by
  have forget : ∀ c : IntentBook, c.count = c.bare.count := by
    intro c
    funext j
    rw [count, count, getElem?_bare]
    cases c.nodes[j]? with
    | none => rfl
    | some raw => cases raw <;> rfl
  rw [forget b', same, ← forget]

theorem count_setNode (inside : i < b.nodes.length) (raw : RawNode) :
    (b.setNode i raw).count = Function.update b.count i raw.count := by
  funext j
  by_cases same : j = i
  · subst same
    rw [count, getElem?_setNode_self inside, Function.update_self]
    rfl
  · rw [count, getElem?_setNode_of_ne same, Function.update_of_ne same]
    rfl

end IntentBook

/-- Every seat counts the orders that it has. -/
def Counted (b : IntentBook) : Prop := ∀ i n, b.count i = some n → n = b.view.ordersOf i

/-! ### Programs that count nothing -/

/-- No seat counts anew. -/
def SameCounts (b b' : IntentBook) : Prop := ∀ i n, b'.count i = some n → b.count i = some n

instance : Std.Refl SameCounts := ⟨fun _ _ _ counted => counted⟩

instance : IsTrans IntentBook SameCounts where
  trans _ _ _ first next := fun i n counted => first i n (next i n counted)

theorem sameCounts_of_bare {b b' : IntentBook} (same : b'.bare = b.bare) : SameCounts b b' := by
  intro i n counted
  rwa [IntentBook.count_of_bare same] at counted

theorem sameCounts_of_nodes {b b' : IntentBook} (same : b'.nodes = b.nodes) : SameCounts b b' := by
  intro i n counted
  rwa [IntentBook.count, same] at counted

/-- A slot that is overwritten by something else than a seat. -/
theorem sameCounts_set {b : IntentBook} {h : IntentBookHeader} {i : ℕ} {raw : RawNode} (other : raw.count = none) :
    SameCounts b ⟨h, b.nodes.set i raw⟩ := by
  intro j n counted
  rw [IntentBook.count, List.getElem?_set] at counted
  split at counted
  · split at counted
    · rw [Option.bind_some, other] at counted
      cases counted
    · cases counted
  · exact counted

section Programs

variable {i side now : ℕ}

instance : Exec.Keeping SameCounts (IntentTree.remove side i) := by
  have keeps : Exec.Keeps (IntentTree.pool side).Relinked (IntentTree.remove side i) := LinkedPool.keeps_remove i
  exact ⟨keeps.mono fun _ _ relinked => sameCounts_of_bare (sameButTree_of_relinked relinked).bare⟩

instance : Exec.Keeping SameCounts (IntentTree.insert side i) := by
  have keeps : Exec.Keeps (IntentTree.pool side).Relinked (IntentTree.insert side i) := LinkedPool.keeps_insert i
  exact ⟨keeps.mono fun _ _ relinked => sameCounts_of_bare (sameButTree_of_relinked relinked).bare⟩

instance : Exec.Keeping SameCounts (SeatTree.insert i) := by
  have keeps : Exec.Keeps SeatTree.pool.Relinked (SeatTree.insert i) := LinkedPool.keeps_insert i
  exact ⟨keeps.mono fun _ _ relinked => sameCounts_of_bare (sameButSeats_of_relinked relinked).bare⟩

instance : Exec.Keeping SameCounts (IntentBook.freeNode i) where
  keeps := Exec.keeps_bind_get fun b b' left => by
    rcases Exec.left_bind_check left with rfl | ⟨_, -, left⟩
    · exact Std.Refl.refl _
    · cases left
      exact sameCounts_set rfl

instance : Exec.Keeping SameCounts IntentBook.allocNode where
  keeps := Exec.keeps_bind_get fun b b' left => by
    split at left
    · split at left
      · simp at left
      · cases left
        exact sameCounts_of_nodes rfl
    · rcases Exec.left_bind_check left with rfl | ⟨_, -, left⟩
      · exact Std.Refl.refl _
      rcases Exec.left_bind_check left with rfl | ⟨_, -, left⟩
      · exact Std.Refl.refl _
      cases left
      exact sameCounts_of_nodes rfl

instance (node) : Exec.Keeping SameCounts (IntentBook.writeIntent i node) where
  keeps := Exec.keeps_bind_get fun b b' left => by
    rcases Exec.left_bind_check left with rfl | ⟨_, -, left⟩
    · exact Std.Refl.refl _
    · cases left
      exact sameCounts_set rfl

instance (f : IntentNode → IntentNode) : Exec.Keeping SameCounts (IntentBook.updateIntent i f) := by
  refine Exec.keeping_bind inferInstance fun node => ⟨Exec.keeps_modify fun b => ?_⟩
  exact sameCounts_set rfl

instance : Exec.Keeping SameCounts IntentBook.nextSeq where
  keeps := Exec.keeps_bind_get fun b b' left => by
    rcases Exec.left_bind_check left with rfl | ⟨_, -, left⟩
    · exact Std.Refl.refl _
    · cases left
      exact sameCounts_of_nodes rfl

instance : Exec.Keeping SameCounts IntentBook.nextIntentId where
  keeps := Exec.keeps_bind_get fun b b' left => by
    rcases Exec.left_bind_check left with rfl | ⟨_, -, left⟩
    · exact Std.Refl.refl _
    · cases left
      exact sameCounts_of_nodes rfl

instance : Exec.Keeping SameCounts (Book.removeIntent side i) := by
  unfold Book.removeIntent
  infer_instance

instance (work refund) : Exec.Keeping SameCounts (Book.removeAll work refund) := by
  induction work generalizing refund with
  | nil =>
    unfold Book.removeAll
    infer_instance
  | cons e rest ih => exact Exec.keeping_bind inferInstance fun _ => Exec.keeping_bind inferInstance ih

instance (p) : Exec.Keeping SameCounts (Book.writePair p) := by
  unfold Book.writePair
  infer_instance

end Programs

/-! ### Telling a seat -/

variable {b b' : IntentBook} {i bucket : ℕ} {u : Unit}

/-- A seat counts so much less, and the others what they did. -/
theorem releaseSeat_count {k j n : ℕ} (ran : (Book.releaseSeat i k).run b = .ok u b') (counted : b'.count j = some n) :
    (j = i ∧ ∃ m, b.count i = some m ∧ n = m - k) ∨ (j ≠ i ∧ b.count j = some n) := by
  simp only [Book.releaseSeat, Exec.bind_ok, Exec.gets_ok, Exec.modify_ok] at ran
  obtain ⟨seat, _, ⟨slot, rfl⟩, rfl⟩ := ran
  rw [IntentBook.seat_eq_ok] at slot
  rw [IntentBook.count_setNode (IntentBook.lt_length_of_getElem? slot)] at counted
  by_cases here : j = i
  · subst here
    rw [Function.update_self] at counted
    exact .inl ⟨rfl, _, IntentBook.count_of_seat slot, (Option.some.inj counted).symm⟩
  · rw [Function.update_of_ne here] at counted
    exact .inr ⟨here, counted⟩

/-- A seat counts one more, and the others what they did. -/
theorem chargeSeat_count {j n : ℕ} (ran : (Book.chargeSeat i).run b = .ok u b') (counted : b'.count j = some n) :
    (j = i ∧ ∃ m, b.count i = some m ∧ n = m + 1) ∨ (j ≠ i ∧ b.count j = some n) := by
  simp only [Book.chargeSeat, Exec.bind_ok, Exec.gets_ok, Exec.orErr_ok, Exec.modify_ok, checkedAdd_eq_some] at ran
  obtain ⟨seat, _, ⟨slot, rfl⟩, _, _, ⟨⟨-, rfl⟩, rfl⟩, rfl⟩ := ran
  rw [IntentBook.seat_eq_ok] at slot
  rw [IntentBook.count_setNode (IntentBook.lt_length_of_getElem? slot)] at counted
  by_cases here : j = i
  · subst here
    rw [Function.update_self] at counted
    exact .inl ⟨rfl, _, IntentBook.count_of_seat slot, (Option.some.inj counted).symm⟩
  · rw [Function.update_of_ne here] at counted
    exact .inr ⟨here, counted⟩

/-- Only a seat that is new counts anew, and it counts nothing. -/
theorem findOrCreate_count {trader : Pubkey} {j n : ℕ} (tidy : Tidy b)
    (ran : (SeatTree.findOrCreate trader).run b = .ok i b') (counted : b'.count j = some n) :
    b.count j = some n ∨ (j = i ∧ n = 0 ∧ b.trader i = none) := by
  rw [SeatTree.findOrCreate, Exec.bind_ok] at ran
  obtain ⟨existing, b0, found, ran⟩ := ran
  obtain ⟨rfl, -⟩ := SeatTree.find_ok found tidy
  split at ran
  · obtain ⟨rfl, rfl⟩ := Exec.pure_ok.mp ran
    exact .inl counted
  · simp only [Exec.bind_ok, IntentBook.writeSeat, Exec.get_ok, Exec.rejectIf_ok, Exec.put_ok, Exec.pure_ok] at ran
    obtain ⟨idx, b1, allocated, _, _, ⟨_, _, ⟨rfl, rfl⟩, _, _, ⟨inside, rfl⟩, rfl⟩, _, b3, inserted, rfl, rfl⟩ := ran
    have linked : SameCounts _ b3 := Exec.Keeping.keeps.ok inserted
    have before := linked j n counted
    rw [IntentBook.count_setNode (Nat.lt_of_not_le inside)] at before
    by_cases here : j = idx
    · subst here
      rw [Function.update_self] at before
      obtain ⟨orders, seats, chain, laid⟩ := tidy
      obtain ⟨chain', -, spare, view⟩ := laid.allocNode allocated
      obtain ⟨next, free⟩ := spare.free
      have vacant := IntentBook.trader_of_free free
      rw [show b1.trader = b0.trader from congrArg BookView.trader view] at vacant
      exact .inr ⟨rfl, (Option.some.inj before).symm, vacant⟩
    · rw [Function.update_of_ne here] at before
      have taken : SameCounts b0 b1 := Exec.Keeping.keeps.ok allocated
      exact .inl (taken j n before)

/-! ### Intents that come and go -/

/-- A consistent book stays consistent, and its counts stay exact. -/
structure StaysCounted (b b' : IntentBook) : Prop where
  consistent : Consistent b'
  counted : Counted b → Counted b'

theorem StaysCounted.trans {b'' : IntentBook} (first : StaysCounted b b') (next : StaysCounted b' b'') : StaysCounted b b'' :=
  ⟨next.consistent, fun counted => next.counted (first.counted counted)⟩

/-- A batch of intents of one seat leaves, and the seat is told. -/
theorem staysCounted_without (consistent : Consistent b) {work : List (ℕ × IntentNode × ℕ)} {b1 : IntentBook}
    {seat k : ℕ} (placed : Book.Placed b work) (owned : ∀ e ∈ work, e.2.1.ownerSeat = seat) (tidy : Tidy b1)
    (view : b1.view = Book.without b.view (work.map Prod.fst)) (same : SameCounts b b1)
    (ran : (Book.releaseSeat seat k).run b1 = .ok u b') (told : k = work.length) : StaysCounted b b' := by
  obtain ⟨tidy', view'⟩ := Book.releaseSeat_ok tidy ran
  have live : ∀ j, b'.view.ordersOf j + (if seat = j then work.length else 0) = b.view.ordersOf j := by
    intro j
    have left := tally_without (v := b.view) (fun o => if o.ownerSeat = j then 1 else 0)
      (fun idx node total member => by
        obtain ⟨found, -⟩ := placed.1 idx node total member
        obtain ⟨n, slot, -⟩ := IntentBook.intent_of_order found
        exact ⟨consistent.tidy.intent_lt slot, found⟩) placed.2
    have ones : (work.map fun e => if (e.2.1.withLinks noLinks).ownerSeat = j then 1 else 0) =
        work.map fun _ => if seat = j then 1 else 0 := by
      apply List.map_congr_left
      intro e member
      rw [← owned e member]
      rfl
    rw [ones, List.map_const', List.sum_replicate, Nat.nsmul_eq_mul, mul_ite, Nat.mul_one, Nat.mul_zero] at left
    rw [view', view]
    exact left
  constructor
  · refine ⟨tidy', ?_⟩
    rw [view', view]
    exact orderly_without consistent.orderly _
  · intro counted j n after
    have left := live j
    rcases releaseSeat_count ran after with ⟨rfl, m, before, rfl⟩ | ⟨other, before⟩
    · have exact_before := counted _ m (same _ m before)
      rw [if_pos rfl] at left
      omega
    · have exact_before := counted j n (same j n before)
      rw [if_neg (Ne.symm other)] at left
      omega

/-- An intent is taken out, and its seat is told. -/
theorem staysCounted_cancel (consistent : Consistent b) {node : IntentNode} (slot : b.nodes[i]? = some (.intent node))
    (ran : (Book.cancel node.side i node.ownerSeat).run b = .ok u b') : StaysCounted b b' := by
  obtain ⟨b1, removed, tidy1, view1⟩ := Book.run_removeIntent consistent.tidy slot
  rw [Book.cancel, Exec.run_bind_of_ok removed] at ran
  have same : SameCounts b b1 := Exec.Keeping.keeps.ok removed
  let work := [(i, node, node.reservedCollateral + node.feeBuffer)]
  have placed : Book.Placed b work := by
    refine ⟨fun idx n total member => ?_, List.nodup_singleton i⟩
    cases List.mem_singleton.mp member
    exact ⟨IntentBook.order_of_intent slot, rfl⟩
  refine staysCounted_without consistent placed (fun e member => ?_) tidy1 ?_ same ran rfl
  · cases List.mem_singleton.mp member
    rfl
  · rw [view1, List.map_singleton, ← Book.without_cons]
    simp only [Book.without, List.not_mem_nil, if_false]
    rfl

theorem staysCounted_pruneOwnExpired (consistent : Consistent b) {owner : Pubkey} {now refund : ℕ}
    (ran : (Book.pruneOwnExpired owner now).run b = .ok refund b') : StaysCounted b b' := by
  rw [Book.pruneOwnExpired, Exec.bind_ok] at ran
  obtain ⟨seat, b0, found, ran⟩ := ran
  obtain ⟨rfl, -⟩ := SeatTree.find_ok found consistent.tidy
  split at ran
  · obtain ⟨rfl, rfl⟩ := Exec.pure_ok.mp ran
    exact ⟨consistent, id⟩
  · simp only [Exec.bind_ok, Exec.gets_ok, Exec.when_ok, Exec.pure_ok] at ran
    obtain ⟨work, _, ⟨scanned, rfl⟩, total, b1, removed, _, b2, released, rfl, rfl⟩ := ran
    have placed := Book.placed_of_scan scanned
    obtain ⟨tidy1, view1, -⟩ := Book.removeAll_ok consistent.tidy placed removed
    have same : SameCounts b0 b1 := Exec.Keeping.keeps.ok removed
    rcases released with ⟨-, released⟩ | ⟨none, rfl⟩
    · refine staysCounted_without consistent placed (fun e member => ?_) tidy1 view1 same released rfl
      obtain ⟨-, -, picked, -⟩ := (Book.scanIntents_ok scanned).1 e.1 e.2.1 e.2.2 member
      simp only [Book.isOwnExpired, decide_eq_true_eq] at picked
      exact picked.1
    · obtain rfl := not_not.mp none
      cases removed
      exact ⟨consistent, id⟩

/-- A post counts one more on the seat that it found or made. -/
theorem post_count {owner : Pubkey} {d : Book.Draft} {id seat j n : ℕ} {b1 : IntentBook} (tidy : Tidy b)
    (seated : (SeatTree.findOrCreate owner).run b = .ok seat b1) (ran : (Book.post owner d).run b = .ok id b')
    (after : b'.count j = some n) :
    (j = seat ∧ ∃ m, (b.count seat = some m ∨ m = 0 ∧ b.trader seat = none) ∧ n = m + 1) ∨ (j ≠ seat ∧ b.count j = some n) := by
  rw [Book.post, Exec.run_bind_of_ok seated, Exec.bind_ok] at ran
  obtain ⟨_, b2, charged, ran⟩ := ran
  have rest : Exec.Keeping SameCounts (do
      let intentId ← IntentBook.nextIntentId
      let postSeq ← IntentBook.nextSeq
      let nodeIdx ← IntentBook.allocNode
      IntentBook.writeIntent nodeIdx (d.node intentId postSeq seat)
      IntentTree.insert d.side nodeIdx
      pure intentId) := inferInstance
  have same : SameCounts b2 b' := rest.keeps.ok ran
  rcases chargeSeat_count charged (same j n after) with ⟨rfl, m, counts, rfl⟩ | ⟨other, counts⟩
  · left
    refine ⟨rfl, m, ?_, rfl⟩
    rcases findOrCreate_count tidy seated counts with before | ⟨-, zero, vacant⟩
    · exact .inl before
    · exact .inr ⟨zero, vacant⟩
  · rcases findOrCreate_count tidy seated counts with before | ⟨here, -⟩
    · exact .inr ⟨other, before⟩
    · exact absurd here other

/-- Nobody's seat has no orders. -/
theorem ordersOf_vacant {v : BookView} (orderly : v.Orderly) {seat : ℕ} (vacant : v.trader seat = none) : v.ordersOf seat = 0 := by
  unfold BookView.ordersOf BookView.tally
  apply Finset.sum_eq_zero
  intro j _
  cases placed : v.order j with
  | none => rfl
  | some o =>
    rw [Option.elim_some, if_neg]
    rintro rfl
    obtain ⟨t, seated⟩ := orderly.owned j o placed
    rw [vacant] at seated
    cases seated

/-- An intent is posted, and its seat is told. -/
theorem staysCounted_post (consistent : Consistent b) {owner : Pubkey} {d : Book.Draft} {id : ℕ} (isSide : IsSide d.side)
    (ran : (Book.post owner d).run b = .ok id b') : StaysCounted b b' := by
  obtain ⟨tidy, -, slot, seat, posted, b1, seated⟩ := Book.post_ok consistent isSide ran
  refine ⟨Book.consistent_post consistent isSide ran, fun counted j n after => ?_⟩
  have live := BookView.tally_update (fun o => if o.ownerSeat = j then 1 else 0) (fun o => if o.ownerSeat = j then 1 else 0)
    (posted.inside tidy) posted.order (by rw [posted.header]) fun _ _ _ => rfl
  rw [posted.vacant, Option.elim_none, Option.elim_some, Nat.add_zero] at live
  change b'.view.ordersOf j = b.view.ordersOf j + if seat = j then 1 else 0 at live
  rcases post_count consistent.tidy seated ran after with ⟨rfl, m, before, rfl⟩ | ⟨other, before⟩
  · rw [live, if_pos rfl]
    rcases before with before | ⟨rfl, vacant⟩
    · rw [counted _ m before]
    · rw [ordersOf_vacant consistent.orderly vacant]
  · rw [live, if_neg (Ne.symm other), Nat.add_zero]
    exact counted j n before

/-! ### Fills -/

namespace Book

/-- A fill of the pair takes the last contract of an intent. -/
def Pair.usesUp (p : Pair) : Prop := p.long.contractsRemaining = 1 ∨ p.short.contractsRemaining = 1

instance (p : Pair) : Decidable p.usesUp := inferInstanceAs (Decidable (_ ∨ _))

/-- A filled order is one order still, unless it is used up. -/
theorem elim_rest {node : IntentNode} {release : ℕ} (some_left : node.contractsRemaining ≠ 0) (seat : ℕ) :
    ((node.fill bucket release).rest.elim 0 fun o => if o.ownerSeat = seat then 1 else 0) =
      if node.contractsRemaining ≠ 1 ∧ node.ownerSeat = seat then 1 else 0 := by
  have left : (node.fill bucket release).contractsRemaining = node.contractsRemaining - 1 := rfl
  unfold IntentNode.rest
  by_cases last : node.contractsRemaining = 1
  · rw [if_pos (by omega), if_neg fun both => both.1 last]
    rfl
  · rw [if_neg (by omega), Option.elim_some]
    simp only [ne_eq, last, not_false_eq_true, true_and]
    rfl

/-- A seat loses the intents of a fill that are used up. -/
theorem ordersOf_fill (tidy : Tidy b) (bucket longRelease shortRelease : ℕ) {nowSlot : ℕ} {p : Pair} (found : Found b nowSlot p) (seat : ℕ) :
    (b.view.fill p bucket longRelease shortRelease).ordersOf seat +
      ((if p.long.contractsRemaining = 1 ∧ p.long.ownerSeat = seat then 1 else 0) +
        if p.short.contractsRemaining = 1 ∧ p.short.ownerSeat = seat then 1 else 0) = b.view.ordersOf seat := by
  let weight : IntentNode → ℕ := fun o => if o.ownerSeat = seat then 1 else 0
  let v1 : BookView := { b.view with
    order := Function.update b.order p.longIdx (p.long.fill bucket longRelease).rest }
  have first := BookView.tally_update (v := b.view) weight weight (tidy.intent_lt found.long)
    (rfl : v1.order = _) rfl fun _ _ _ => rfl
  have next := @BookView.tally_update v1 (b.view.fill p bucket longRelease shortRelease) weight weight p.shortIdx _
    (tidy.intent_lt found.short) rfl rfl fun _ _ _ => rfl
  have long : b.view.order p.longIdx = _ := IntentBook.order_of_intent found.long
  have short : v1.order p.shortIdx = some (p.short.withLinks noLinks) := by
    change Function.update b.order p.longIdx _ p.shortIdx = _
    rw [Function.update_of_ne found.ne]
    exact IntentBook.order_of_intent found.short
  rw [long, Option.elim_some, elim_rest found.longLive.2] at first
  rw [short, Option.elim_some, elim_rest found.shortLive.2] at next
  have weights : ∀ node : IntentNode, weight (node.withLinks noLinks) =
      (if node.contractsRemaining ≠ 1 ∧ node.ownerSeat = seat then 1 else 0) +
        if node.contractsRemaining = 1 ∧ node.ownerSeat = seat then 1 else 0 := by
    intro node
    change (if node.ownerSeat = seat then 1 else 0) = _
    by_cases last : node.contractsRemaining = 1
    · simp [last]
    · simp [last]
  rw [weights] at first next
  change _ = v1.tally weight + _ at next
  unfold BookView.ordersOf
  change BookView.tally _ weight + _ = BookView.tally _ weight
  omega

/-- After a fill the seats count exactly what they have only when no intent was used up. -/
theorem counted_writePair (consistent : Consistent b) {nowSlot longRelease shortRelease : ℕ} {p q : Pair}
    (found : Found b nowSlot p) (consumed : consume bucket p = .ok (q, longRelease, shortRelease))
    (ran : (writePair q).run b = .ok u b') : Consistent b' ∧ (Counted b → (Counted b' ↔ ¬ p.usesUp)) := by
  have same : SameCounts b b' := Exec.Keeping.keeps.ok ran
  obtain ⟨rfl, -⟩ := consume_ok consumed
  obtain ⟨b1, ran1, tidy, view⟩ := run_writePair consistent.tidy found bucket longRelease shortRelease
  rw [ran] at ran1
  cases ran1
  have lost := fun seat => view ▸ ordersOf_fill consistent.tidy bucket longRelease shortRelease found seat
  have orderly := orderly_fill consistent.orderly found bucket longRelease shortRelease
  refine ⟨⟨tidy, view ▸ orderly⟩, fun counted => ⟨fun counted' used => ?_, fun kept => ?_⟩⟩
  · -- The seat of the intent that was used up is still there.
    have gone : ∀ (j : ℕ) (node : IntentNode), b.nodes[j]? = some (.intent node) →
        b'.view.ordersOf node.ownerSeat = b.view.ordersOf node.ownerSeat := by
      intro j node slot
      obtain ⟨t, seated⟩ := consistent.orderly.owned j _ (IntentBook.order_of_intent slot)
      have seated' : b'.trader node.ownerSeat = some t := (congrFun (congrArg BookView.trader view) _).trans seated
      obtain ⟨seat, there, -⟩ := IntentBook.seat_of_trader seated'
      have count := IntentBook.count_of_seat there
      rw [← counted' _ _ count, ← counted _ _ (same _ _ count)]
    rcases used with long | short
    · have less := lost p.long.ownerSeat
      rw [if_pos ⟨long, rfl⟩, gone _ _ found.long] at less
      omega
    · have less := lost p.short.ownerSeat
      rw [if_pos (c := p.short.contractsRemaining = 1 ∧ _) ⟨short, rfl⟩, gone _ _ found.short] at less
      omega
  · intro j n count
    have none : ¬ p.long.contractsRemaining = 1 ∧ ¬ p.short.contractsRemaining = 1 := not_or.mp kept
    have all := lost j
    rw [if_neg fun both => none.1 both.1, if_neg fun both => none.2 both.1] at all
    rw [counted j n (same j n count)]
    exact all.symm

end Book

end Polyleverage
