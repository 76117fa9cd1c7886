import Polyleverage.Guarantees.Amortisation
import Polyleverage.Guarantees.InlineDiscovery

/-! # Uncrossing

Matching the best pair again and again, until the scan finds none, fills what a merge of the two queues
fills, in the same order, and leaves no live bid at or above a live ask.
-/

namespace Polyleverage

open RedBlack Machine IntentTree

variable {b b' : IntentBook} {side bucket nowSlot : ℕ}

/-! ### The loop -/

namespace Book

/-- The book's part of a match: one contract of each of these two intents is filled. -/
def fillPair (bucket longIntentId shortIntentId nowSlot : ℕ) : BookM Unit := do
  let pair ← Exec.gets (findPair longIntentId shortIntentId nowSlot)
  let (filled, _, _) ← Exec.ofExcept (consume bucket pair)
  writePair filled

/-- Scan, and fill what is found. -/
def fillBest (bucket nowSlot : ℕ) : BookM (Option (ℕ × ℕ)) := do
  let found ← scanForFirstValidPair nowSlot
  match found with
  | some (longId, shortId) => do
    fillPair bucket longId shortId nowSlot
    pure found
  | none => pure none

/-- Scan and fill until nothing is found. The result is the pairs that were filled. -/
def uncross (bucket nowSlot : ℕ) : ℕ → BookM (List (ℕ × ℕ))
  | 0 => Exec.abort
  | fuel + 1 => do
    let found ← fillBest bucket nowSlot
    match found with
    | some pair => do
      let later ← uncross bucket nowSlot fuel
      pure (pair :: later)
    | none => pure []

end Book

/-- A match changes the book by its fill, and then numbers the position. -/
theorem fillPair_of_matchInBook {rt : Runtime} {instrument pmlc : Pubkey} {longId shortId : ℕ} {r : MatchResult}
    (ran : (matchInBook rt instrument pmlc bucket longId shortId nowSlot).run b = .ok r b') :
    ∃ b1, (Book.fillPair bucket longId shortId nowSlot).run b = .ok () b1 ∧
      IntentBook.nextIntentId.run b1 = .ok r.pmlcId b' := by
  simp only [matchInBook, Exec.bind_ok, Exec.gets_ok, Exec.ofExcept_ok, Exec.rejectIf_ok, Exec.pure_ok] at ran
  obtain ⟨p, _, ⟨paired, rfl⟩, ⟨q, longRelease, shortRelease⟩, _, ⟨consumed, rfl⟩, _, b1, written, id, b2, numbered,
    _, _, ⟨-, rfl⟩, _, _, ⟨-, rfl⟩, _, _, ⟨-, rfl⟩, rfl, rfl⟩ := ran
  refine ⟨b1, ?_, numbered⟩
  have found : (Exec.gets (Book.findPair longId shortId nowSlot) : BookM Book.Pair).run b = .ok p b :=
    Exec.gets_ok.mpr ⟨paired, rfl⟩
  have filled : (Exec.ofExcept (Book.consume bucket p) : BookM _).run b = .ok (q, longRelease, shortRelease) b :=
    Exec.ofExcept_ok.mpr ⟨consumed, rfl⟩
  rw [Book.fillPair, Exec.run_bind_of_ok found, Exec.run_bind_of_ok filled]
  exact written

/-! ### The merge -/

/-- What is left of an order is the order but for what was filled. -/
theorem rest_eq {node : IntentNode} {release : ℕ} {o : IntentNode} (left : (node.fill bucket release).rest = some o) :
    o = (node.fill bucket release).withLinks noLinks ∧ 0 < o.contractsRemaining := by
  unfold IntentNode.rest at left
  split at left
  · cases left
  next some_left =>
    cases left
    exact ⟨rfl, Nat.pos_of_ne_zero some_left⟩

namespace BookView

/-- The contracts of a side, best first, each under the key of its order. -/
def contracts (v : BookView) (side nowSlot : ℕ) : List OrderKey :=
  (v.queue side nowSlot).flatMap fun o => List.replicate o.contractsRemaining o.key

/-- Bids against asks, contract by contract, up to the first bid below its ask. -/
def merge (v : BookView) (nowSlot : ℕ) : List (ℕ × ℕ) :=
  (((v.contracts SIDE_LONG nowSlot).zip (v.contracts SIDE_SHORT nowSlot)).takeWhile
    fun x => x.2.priceFp ≤ x.1.priceFp).map fun x => (x.1.id, x.2.id)

variable {v : BookView}

/-- The first contract is one of the first order. -/
theorem contracts_of_head {o : IntentNode} (first : (v.queue side nowSlot).head? = some o) :
    (v.contracts side nowSlot).head? = some o.key := by
  obtain ⟨others, split⟩ := List.head?_eq_some_iff.mp first
  have member : o ∈ v.queue side nowSlot := List.mem_of_head? first
  obtain ⟨-, -, -, -, left, -⟩ := mem_queue.mp member
  obtain ⟨n, several⟩ := Nat.exists_eq_succ_of_ne_zero left.ne'
  rw [contracts, split, List.flatMap_cons, several, List.replicate_succ]
  rfl

/-- Without orders there are no contracts. -/
theorem contracts_of_empty (none : (v.queue side nowSlot).head? = none) : v.contracts side nowSlot = [] := by
  rw [contracts, List.head?_eq_none_iff.mp none, List.flatMap_nil]

/-- Without a top pair the merge is empty. -/
theorem merge_of_topPair_none (none : v.topPair nowSlot = none) : v.merge nowSlot = [] := by
  rw [merge]
  cases bid : (v.queue SIDE_LONG nowSlot).head? with
  | none => rw [contracts_of_empty bid, List.zip_nil_left, List.takeWhile_nil, List.map_nil]
  | some long =>
    cases ask : (v.queue SIDE_SHORT nowSlot).head? with
    | none => rw [contracts_of_empty ask, List.zip_nil_right, List.takeWhile_nil, List.map_nil]
    | some short =>
      have apart : ¬ short.priceFp ≤ long.priceFp := by
        intro cross
        cases none.symm.trans (topPair_eq_some.mpr ⟨bid, ask, cross⟩)
      obtain ⟨longs, longSplit⟩ := List.head?_eq_some_iff.mp (contracts_of_head bid)
      obtain ⟨shorts, shortSplit⟩ := List.head?_eq_some_iff.mp (contracts_of_head ask)
      rw [longSplit, shortSplit, List.zip_cons_cons, List.takeWhile_cons_of_neg (by rwa [decide_eq_true_eq]), List.map_nil]

/-! ### A fill takes the first contracts -/

section FillAt

variable {i release : ℕ} {node : IntentNode}

/-- A fill of an order leaves the other side's queue alone. -/
theorem queue_fillAt_other (orderly : v.Orderly) (inside : i < v.header.capacity)
    (placed : v.order i = some (node.withLinks noLinks)) (other : node.side ≠ side) :
    (v.fillAt i node bucket release).queue side nowSlot = v.queue side nowSlot := by
  apply queue_eq (queue_sorted orderly)
  have others : List.Perm ((v.fillAt i node bucket release).live side nowSlot) (v.live side nowSlot) := by
    apply queue_update_other inside placed other
    intro o left
    obtain ⟨rfl, -⟩ := rest_eq left
    rfl
  exact others.trans (List.perm_insertionSort _ _).symm

/-- A fill of the first order of a queue takes one contract of it. -/
theorem contracts_fillAt_first (orderly : v.Orderly) (inside : i < v.header.capacity)
    (placed : v.order i = some (node.withLinks noLinks)) (first : (v.queue side nowSlot).head? = some (node.withLinks noLinks)) :
    v.contracts side nowSlot = node.key :: (v.fillAt i node bucket release).contracts side nowSlot := by
  obtain ⟨others, split⟩ := List.head?_eq_some_iff.mp first
  obtain ⟨-, -, -, sided, some_left, unexpired⟩ := mem_queue.mp (List.mem_of_head? first)
  obtain ⟨count, several⟩ : ∃ count, node.contractsRemaining = count + 1 := Nat.exists_eq_succ_of_ne_zero some_left.ne'
  have queue := queue_update_first (x := (node.fill bucket release).rest) orderly inside placed split (by
    intro o left
    obtain ⟨rfl, -⟩ := rest_eq left
    rfl)
  have one_less : (node.fill bucket release).contractsRemaining = count := by
    change node.contractsRemaining - 1 = count
    rw [several, Nat.add_sub_cancel]
  have left : ((node.fill bucket release).rest.filter fun o => o.side = side ∧ o.IsLive nowSlot).toList.flatMap
      (fun o => List.replicate o.contractsRemaining o.key) = List.replicate count node.key := by
    cases count with
    | zero =>
      rw [IntentNode.rest, if_pos one_less]
      rfl
    | succ count =>
      have stays : ((node.fill bucket release).withLinks noLinks).IsLive nowSlot :=
        ⟨Nat.lt_of_lt_of_eq (Nat.succ_pos count) one_less.symm, unexpired⟩
      have same_side : ((node.fill bucket release).withLinks noLinks).side = side := sided
      rw [IntentNode.rest, if_neg (by rw [one_less]; exact Nat.succ_ne_zero count),
        Option.filter_some_pos (by rw [decide_eq_true_eq]; exact ⟨same_side, stays⟩)]
      change List.replicate (node.fill bucket release).contractsRemaining node.key ++ [] = _
      rw [one_less, List.append_nil]
  have contracts : v.contracts side nowSlot =
      List.replicate node.contractsRemaining node.key ++ others.flatMap fun o => List.replicate o.contractsRemaining o.key := by
    rw [BookView.contracts, split, List.flatMap_cons]
    rfl
  have queue' : (v.fillAt i node bucket release).queue side nowSlot = _ := queue
  rw [contracts, several, List.replicate_succ, List.cons_append, BookView.contracts, queue', List.flatMap_append, left]

end FillAt

/-- A fill of the top pair takes the first contract of each side. -/
theorem merge_fill (consistent : Consistent b) {p : Book.Pair} (found : Book.Found b nowSlot p)
    (top : b.view.topPair nowSlot = some (p.long.withLinks noLinks, p.short.withLinks noLinks)) (longRelease shortRelease : ℕ) :
    b.view.merge nowSlot = (p.long.id, p.short.id) :: (b.view.fill p bucket longRelease shortRelease).merge nowSlot := by
  obtain ⟨bid, ask, cross⟩ := topPair_eq_some.mp top
  have placedL : b.view.order p.longIdx = some (p.long.withLinks noLinks) := IntentBook.order_of_intent found.long
  have placedS : b.view.order p.shortIdx = some (p.short.withLinks noLinks) := IntentBook.order_of_intent found.short
  have insideL := consistent.tidy.intent_lt found.long
  have insideS := consistent.tidy.intent_lt found.short
  let v1 := b.view.fillAt p.longIdx p.long bucket longRelease
  have orderly1 : v1.Orderly := Book.orderly_fillAt consistent.orderly placedL bucket longRelease
  have placed1 : v1.order p.shortIdx = some (p.short.withLinks noLinks) := found.short_fillAt bucket longRelease
  have notShort : p.long.side ≠ SIDE_SHORT := by
    rw [found.longSide]
    decide
  have notLong : p.short.side ≠ SIDE_LONG := by
    rw [found.shortSide]
    decide
  have filled : b.view.fill p bucket longRelease shortRelease = v1.fillAt p.shortIdx p.short bucket shortRelease := rfl
  have longs : b.view.contracts SIDE_LONG nowSlot = p.long.key ::
      (b.view.fill p bucket longRelease shortRelease).contracts SIDE_LONG nowSlot := by
    have later := @queue_fillAt_other SIDE_LONG bucket nowSlot v1 p.shortIdx shortRelease p.short orderly1 insideS placed1 notLong
    rw [contracts_fillAt_first consistent.orderly insideL placedL bid, filled, contracts, contracts, later]
  have shorts : b.view.contracts SIDE_SHORT nowSlot = p.short.key ::
      (b.view.fill p bucket longRelease shortRelease).contracts SIDE_SHORT nowSlot := by
    have same : v1.queue SIDE_SHORT nowSlot = b.view.queue SIDE_SHORT nowSlot :=
      queue_fillAt_other consistent.orderly insideL placedL notShort
    have here : b.view.contracts SIDE_SHORT nowSlot = v1.contracts SIDE_SHORT nowSlot := by rw [contracts, contracts, same]
    rw [here, contracts_fillAt_first orderly1 insideS placed1 (same ▸ ask), filled]
  rw [merge, longs, shorts, List.zip_cons_cons, List.takeWhile_cons_of_pos (by rw [decide_eq_true_eq]; exact cross),
    List.map_cons, merge]
  rfl

end BookView

/-! ### The whole loop -/

/-- A well-formed book whose live orders are backed. -/
structure Book.Backed (bucket nowSlot : ℕ) (b : IntentBook) : Prop where
  wellFormed : WellFormed b
  reserved : ∀ (i : ℕ) o, b.order i = some o → o.IsLive nowSlot → o.reservedCollateral = o.contractsRemaining * bucket

/-- What lies in a slot after a fill is what lay there, or what is left of an order of the pair. -/
theorem order_of_fill {v : BookView} {p : Book.Pair} {longRelease shortRelease i : ℕ} {o : IntentNode}
    (placed : (v.fill p bucket longRelease shortRelease).order i = some o) :
    v.order i = some o ∨ (p.long.fill bucket longRelease).rest = some o ∨ (p.short.fill bucket shortRelease).rest = some o := by
  change Function.update (Function.update v.order p.longIdx _) p.shortIdx _ i = some o at placed
  by_cases short : i = p.shortIdx
  · rw [short, Function.update_self] at placed
    exact .inr (.inr placed)
  · rw [Function.update_of_ne short] at placed
    by_cases long : i = p.longIdx
    · rw [long, Function.update_self] at placed
      exact .inr (.inl placed)
    · rw [Function.update_of_ne long] at placed
      exact .inl placed

/-- A live order of a backed book is, and so is what a fill leaves of it. -/
theorem Book.Backed.node (backed : Book.Backed bucket nowSlot b) {i : ℕ} {node : IntentNode}
    (placed : b.order i = some (node.withLinks noLinks)) (live : node.IsLive nowSlot) :
    node.feeBuffer < 2 ^ 64 ∧ node.reservedCollateral = node.contractsRemaining * bucket :=
  ⟨backed.wellFormed.feeBuffer_lt i (node.withLinks noLinks) placed, backed.reserved i (node.withLinks noLinks) placed live⟩

theorem Book.Backed.rest (backed : Book.Backed bucket nowSlot b) {i release : ℕ} {node o : IntentNode}
    (placed : b.order i = some (node.withLinks noLinks)) (live : node.IsLive nowSlot)
    (left : (node.fill bucket release).rest = some o) :
    o.feeBuffer < 2 ^ 64 ∧ o.reservedCollateral = o.contractsRemaining * bucket := by
  obtain ⟨small, reserved⟩ := backed.node placed live
  obtain ⟨rfl, -⟩ := rest_eq left
  constructor
  · exact Nat.lt_of_le_of_lt (Nat.sub_le _ _) small
  · change node.reservedCollateral - bucket = (node.contractsRemaining - 1) * bucket
    rw [reserved, Nat.sub_mul, Nat.one_mul]

/-- A fill keeps a book backed. -/
theorem Book.Backed.fill (backed : Book.Backed bucket nowSlot b) {p : Book.Pair} (found : Book.Found b nowSlot p) {longRelease shortRelease : ℕ}
    (tidy : Tidy b') (view : b'.view = b.view.fill p bucket longRelease shortRelease) : Book.Backed bucket nowSlot b' := by
  have order : b'.order = (b.view.fill p bucket longRelease shortRelease).order := congrArg BookView.order view
  have header : b'.header.terms = b.header.terms := congrArg BookView.header view
  have liveL : p.long.IsLive nowSlot := ⟨Nat.pos_of_ne_zero found.longLive.2, found.longLive.1⟩
  have liveS : p.short.IsLive nowSlot := ⟨Nat.pos_of_ne_zero found.shortLive.2, found.shortLive.1⟩
  have placedL := IntentBook.order_of_intent found.long
  have placedS := IntentBook.order_of_intent found.short
  refine ⟨⟨⟨tidy, ?_⟩, ?_, fun i o placed => ?_⟩, fun i o placed live => ?_⟩
  · rw [view]
    exact Book.orderly_fill backed.wellFormed.consistent.orderly found bucket longRelease shortRelease
  · have capacity : b'.header.terms.capacity = b.header.terms.capacity := congrArg IntentBookHeader.capacity header
    exact capacity.trans_lt backed.wellFormed.capacity_lt
  · rw [order] at placed
    rcases order_of_fill placed with old | left | left
    · exact backed.wellFormed.feeBuffer_lt i o old
    · exact (backed.rest placedL liveL left).1
    · exact (backed.rest placedS liveS left).1
  · rw [order] at placed
    rcases order_of_fill placed with old | left | left
    · exact backed.reserved i o old live
    · exact (backed.rest placedL liveL left).2
    · exact (backed.rest placedS liveS left).2

/-- One round of the loop fills the first pair of the merge. -/
theorem Book.Backed.fillBest (backed : Book.Backed bucket nowSlot b) {long short : IntentNode}
    (top : b.view.topPair nowSlot = some (long, short)) :
    ∃ b', (Book.fillBest bucket nowSlot).run b = .ok (some (long.id, short.id)) b' ∧ Book.Backed bucket nowSlot b' ∧
      b.view.merge nowSlot = (long.id, short.id) :: b'.view.merge nowSlot := by
  have consistent := backed.wellFormed.consistent
  obtain ⟨p, paired, rfl, rfl⟩ := exists_pair_of_topPair consistent top
  obtain ⟨found, -, -⟩ := Book.found_of_findPair paired
  have liveL : p.long.IsLive nowSlot := ⟨Nat.pos_of_ne_zero found.longLive.2, found.longLive.1⟩
  have liveS : p.short.IsLive nowSlot := ⟨Nat.pos_of_ne_zero found.shortLive.2, found.shortLive.1⟩
  have placedL := IntentBook.order_of_intent found.long
  have placedS := IntentBook.order_of_intent found.short
  obtain ⟨longRelease, shortRelease, consumed⟩ := Book.exists_consume ⟨found.longLive.2, found.shortLive.2⟩
    ⟨(backed.node placedL liveL).2, (backed.node placedS liveS).2⟩ (backed.node placedL liveL).1 (backed.node placedS liveS).1
  obtain ⟨b', wrote, tidy, view⟩ := Book.run_writePair consistent.tidy found bucket longRelease shortRelease
  have scanned : (Book.scanForFirstValidPair nowSlot).run b = _ := run_scanForFirstValidPair backed.wellFormed
  rw [top, Option.map_some] at scanned
  have filled : (Book.fillPair bucket (p.long.withLinks noLinks).id (p.short.withLinks noLinks).id nowSlot).run b = .ok () b' := by
    have read : (Exec.gets (Book.findPair (p.long.withLinks noLinks).id (p.short.withLinks noLinks).id nowSlot) :
        BookM Book.Pair).run b = .ok p b := Exec.gets_ok.mpr ⟨paired, rfl⟩
    have taken : (Exec.ofExcept (Book.consume bucket p) : BookM _).run b = .ok _ b := Exec.ofExcept_ok.mpr ⟨consumed, rfl⟩
    rw [Book.fillPair, Exec.run_bind_of_ok read, Exec.run_bind_of_ok taken]
    exact wrote
  refine ⟨b', ?_, backed.fill found tidy view, ?_⟩
  · rw [Book.fillBest, Exec.run_bind_of_ok scanned]
    dsimp only
    rw [Exec.run_bind_of_ok filled]
    rfl
  · rw [view]
    exact BookView.merge_fill consistent found top longRelease shortRelease

/-- Without a pair the loop is over. -/
theorem fillBest_none (wellFormed : WellFormed b) (ended : b.view.topPair nowSlot = none) :
    (Book.fillBest bucket nowSlot).run b = .ok none b := by
  have scanned : (Book.scanForFirstValidPair nowSlot).run b = _ := run_scanForFirstValidPair wellFormed
  rw [ended, Option.map_none] at scanned
  rw [Book.fillBest, Exec.run_bind_of_ok scanned]
  rfl

/-- With fuel for one round more than the merge has pairs the loop ends, by the merge. -/
theorem run_uncross {pairs : List (ℕ × ℕ)} (backed : Book.Backed bucket nowSlot b) (merge : b.view.merge nowSlot = pairs) :
    ∃ b', (∀ fuel, pairs.length < fuel → (Book.uncross bucket nowSlot fuel).run b = .ok pairs b') ∧
      b'.view.topPair nowSlot = none ∧ WellFormed b' := by
  induction pairs generalizing b with
  | nil =>
    have ended : b.view.topPair nowSlot = none := by
      cases top : b.view.topPair nowSlot with
      | none => rfl
      | some pair =>
        obtain ⟨b1, -, -, some_pair⟩ := backed.fillBest top
        cases merge.symm.trans some_pair
    refine ⟨b, fun fuel enough => ?_, ended, backed.wellFormed⟩
    obtain ⟨fuel, rfl⟩ := Nat.exists_eq_succ_of_ne_zero (Nat.ne_of_gt enough)
    rw [Book.uncross, Exec.run_bind_of_ok (fillBest_none backed.wellFormed ended)]
    rfl
  | cons pair pairs ih =>
    cases top : b.view.topPair nowSlot with
    | none => cases (BookView.merge_of_topPair_none top).symm.trans merge
    | some best =>
      obtain ⟨b1, filled, backed1, merge'⟩ := backed.fillBest top
      obtain ⟨rfl, later⟩ := List.cons.inj (merge.symm.trans merge')
      obtain ⟨b', loops, ended, wellFormed'⟩ := ih backed1 later.symm
      refine ⟨b', fun fuel enough => ?_, ended, wellFormed'⟩
      obtain ⟨fuel, rfl⟩ := Nat.exists_eq_succ_of_ne_zero (Nat.ne_of_gt (Nat.zero_lt_of_lt enough))
      rw [List.length_cons, Nat.succ_lt_succ_iff] at enough
      rw [Book.uncross, Exec.run_bind_of_ok filled]
      dsimp only
      rw [Exec.run_bind_of_ok (loops fuel enough)]
      rfl

/-- Matching the best pair again and again ends after the pairs of the merge, has filled these in this order, and leaves
no live bid at or above a live ask. -/
theorem matching_uncrosses (backed : Book.Backed bucket nowSlot b) :
    ∃ b', (∀ fuel, (b.view.merge nowSlot).length < fuel →
        (Book.uncross bucket nowSlot fuel).run b = .ok (b.view.merge nowSlot) b') ∧ Uncrossed b' nowSlot := by
  obtain ⟨b', loops, ended, wellFormed'⟩ := run_uncross backed rfl
  refine ⟨b', loops, fun long short bid ask => ?_⟩
  by_contra cross
  obtain ⟨top, found⟩ := exists_topPair wellFormed'.consistent bid ask (Nat.le_of_not_lt cross)
  cases ended.symm.trans found

namespace Sample

/-- Alice bids, and Bob asks for less. -/
def asked : IntentBook := ((Book.post bob (draft SIDE_SHORT 400)).run bidden).state?.getD bidden

theorem post_asked : (Book.post bob (draft SIDE_SHORT 400)).run bidden = .ok 2 asked := by
  have known : ((Book.post bob (draft SIDE_SHORT 400)).run bidden).value? = some 2 := by decide +kernel
  obtain ⟨b, ran⟩ := Outcome.value?_eq_some.mp known
  rw [asked, ran, Outcome.state?_ok, Option.getD_some]

theorem backed_asked : Book.Backed 1000 0 asked := by
  have wellFormed : WellFormed asked := wellFormed_bidden.post (.inr rfl) (by decide) post_asked
  refine ⟨wellFormed, fun i o placed _ => ?_⟩
  have reserved : (List.range 16).all fun i => (asked.order i).all fun o => o.reservedCollateral = o.contractsRemaining * 1000 := by
    decide +kernel
  obtain ⟨node, slot, -⟩ := IntentBook.intent_of_order placed
  have inside : i < 16 := wellFormed.consistent.tidy.intent_lt slot
  have here := List.all_eq_true.mp reserved i (List.mem_range.mpr inside)
  rw [placed, Option.all_some, decide_eq_true_eq] at here
  exact here

end Sample

/-- The two orders are filled against each other. -/
theorem matching_uncrosses_asked : ∃ b', (Book.uncross 1000 0 2).run Sample.asked = .ok [(1, 2)] b' ∧ Uncrossed b' 0 := by
  have merge : Sample.asked.view.merge 0 = [(1, 2)] := by decide +kernel
  obtain ⟨b', loops, uncrossed⟩ := matching_uncrosses Sample.backed_asked
  rw [merge] at loops
  exact ⟨b', loops 2 (by decide), uncrossed⟩

end Polyleverage
