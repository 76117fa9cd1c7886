import Polyleverage.Invariants.Queue
import Polyleverage.Invariants.Upkeep
import Polyleverage.Sample

/-! # Discovery

What the searches of a book find is told by its queues: the best bid and the best ask when they cross, and
the best order that crosses a taker. So they find something exactly when a match is possible, and
nothing that is left behind outranks what they find.
-/

namespace Polyleverage

open RedBlack IntentTree

variable {b : IntentBook} {side nowSlot : ℕ}

/-! ### Searches and queues -/

/-- A walk that passes over the dead orders finds the first that it wants of the queue. -/
theorem run_search {α β : Type} (wellFormed : WellFormed b) (isSide : IsSide side) {visitor : ℕ → IntentNode → Option α}
    {view : α → β} {pick : IntentNode → Option β}
    (visits : ∀ i node, (visitor i node).map view = if node.IsLive nowSlot then pick (node.withLinks noLinks) else none) :
    ∃ found, (forEachBestFirst side visitor).run b = .ok found b ∧
      found.map view = (b.view.queue side nowSlot).findSome? pick := by
  obtain ⟨⟨orders, seats, chain, laid⟩, -⟩ := wellFormed.consistent
  have valid := laid.orderTree side isSide
  have small : b.nodes.length < 2 ^ 32 := laid.length ▸ wellFormed.capacity_lt
  refine ⟨_, run_forEachBestFirst visitor valid small, ?_⟩
  rw [laid.queue_eq isSide, ← List.head?_filterMap, ← List.head?_filterMap, List.filterMap_filterMap, ← List.head?_map,
    List.map_filterMap]
  congr 1
  apply List.filterMap_congr
  intro i member
  obtain ⟨o, placed, -⟩ := (laid.mem_tree isSide).mp member
  obtain ⟨node, slot, rfl⟩ := IntentBook.intent_of_order placed
  have same : (node.withLinks noLinks).IsLive nowSlot ↔ node.IsLive nowSlot := Iff.rfl
  rw [seen_of_intent slot, visits, placed, Option.filter_some]
  simp only [same, decide_eq_true_eq]
  split <;> rfl

/-- The first live order of a side is the first of its queue. -/
theorem run_firstLive (wellFormed : WellFormed b) (isSide : IsSide side) (nowSlot : ℕ) :
    ∃ found, (firstLive side nowSlot).run b = .ok found b ∧
      (found.map fun x => x.2.withLinks noLinks) = (b.view.queue side nowSlot).head? := by
  have first : ∀ l : List IntentNode, l.findSome? some = l.head? := fun l => by cases l <;> rfl
  rw [← first]
  apply run_search wellFormed isSide
  intro i node
  change (if node.IsLive nowSlot then some (i, node) else none).map _ = _
  split <;> rfl

namespace BookView

/-- The best bid and the best ask, when they cross. -/
def topPair (v : BookView) (nowSlot : ℕ) : Option (IntentNode × IntentNode) :=
  match (v.queue SIDE_LONG nowSlot).head?, (v.queue SIDE_SHORT nowSlot).head? with
  | some long, some short => if short.priceFp ≤ long.priceFp then some (long, short) else none
  | _, _ => none

theorem topPair_eq_some {v : BookView} {long short : IntentNode} :
    v.topPair nowSlot = some (long, short) ↔ (v.queue SIDE_LONG nowSlot).head? = some long ∧
      (v.queue SIDE_SHORT nowSlot).head? = some short ∧ short.priceFp ≤ long.priceFp := by
  unfold topPair
  split
  next l s bid ask =>
    rw [bid, ask]
    split
    next cross =>
      simp only [Option.some.injEq, Prod.mk.injEq]
      constructor
      · rintro ⟨rfl, rfl⟩
        exact ⟨rfl, rfl, cross⟩
      · rintro ⟨rfl, rfl, -⟩
        exact ⟨rfl, rfl⟩
    next apart =>
      simp only [Option.some.injEq, reduceCtorEq, false_iff]
      rintro ⟨rfl, rfl, cross⟩
      exact apart cross
  next missing =>
    simp only [reduceCtorEq, false_iff]
    rintro ⟨bid, ask, -⟩
    exact missing long short bid ask

end BookView

/-- The scan returns the best bid and the best ask, when they cross. -/
theorem run_scanForFirstValidPair (wellFormed : WellFormed b) :
    (Book.scanForFirstValidPair nowSlot).run b = .ok ((b.view.topPair nowSlot).map fun x => (x.1.id, x.2.id)) b := by
  obtain ⟨bestLong, ranLong, long⟩ := run_firstLive wellFormed (.inl rfl : IsSide SIDE_LONG) nowSlot
  obtain ⟨bestShort, ranShort, short⟩ := run_firstLive wellFormed (.inr rfl : IsSide SIDE_SHORT) nowSlot
  rw [Book.scanForFirstValidPair, Exec.run_bind_of_ok ranLong, Exec.run_bind_of_ok ranShort, BookView.topPair, ← long, ← short]
  cases bestLong with
  | none => rfl
  | some x =>
    cases bestShort with
    | none => rfl
    | some y =>
      have same : (y.2.withLinks noLinks).priceFp ≤ (x.2.withLinks noLinks).priceFp ↔ y.2.priceFp ≤ x.2.priceFp := Iff.rfl
      simp only [Option.map_some, same]
      split <;> rfl

/-- An order of this side and price crosses an order of the other side at the taker's price. -/
def CrossesTaker (side takerPrice : ℕ) (node : IntentNode) : Prop :=
  if side = SIDE_SHORT then node.priceFp ≤ takerPrice else takerPrice ≤ node.priceFp

instance (side takerPrice : ℕ) (node : IntentNode) : Decidable (CrossesTaker side takerPrice node) := by
  unfold CrossesTaker
  infer_instance

/-- The overlap search looks at the best order of the side but for the skipped one, and returns it when it crosses. -/
theorem run_findOverlapOnSide (wellFormed : WellFormed b) (isSide : IsSide side) (takerPrice skipId : ℕ) :
    (Book.findOverlapOnSide side takerPrice nowSlot skipId).run b =
      .ok (((b.view.queue side nowSlot).find? fun o => o.id ≠ skipId).bind fun o =>
        if CrossesTaker side takerPrice o then some o.id else none) b := by
  let pick : IntentNode → Option (Option ℕ) := fun o =>
    if o.id ≠ skipId then some (if CrossesTaker side takerPrice o then some o.id else none) else none
  have visits : ∀ (i : ℕ) node, (Book.overlapVisitor side takerPrice nowSlot skipId node).map id =
      if node.IsLive nowSlot then pick (node.withLinks noLinks) else none := by
    intro i node
    have dead : node.contractsRemaining = 0 ∨ node.expirationSlot ≤ nowSlot ↔ ¬ node.IsLive nowSlot := by
      unfold IntentNode.IsLive
      omega
    have same : pick (node.withLinks noLinks) = pick node := rfl
    rw [Option.map_id, id_eq, Book.overlapVisitor, same]
    simp only [← or_assoc, dead]
    by_cases live : node.IsLive nowSlot
    · by_cases skipped : node.id = skipId
      · simp [pick, live, skipped]
      · simp only [pick, live, skipped, not_true_eq_false, or_self, if_false, if_true, ne_eq, not_false_eq_true]
        unfold CrossesTaker
        split <;> split <;> rfl
    · simp [live]
  obtain ⟨found, ran, seen⟩ := run_search wellFormed isSide visits
  rw [Option.map_id, id_eq] at seen
  rw [Book.findOverlapOnSide, Exec.run_bind_of_ok ran, seen]
  change Outcome.ok _ b = _
  congr 1
  induction b.view.queue side nowSlot with
  | nil => rfl
  | cons o rest ih =>
    rw [List.findSome?_cons, List.find?_cons]
    by_cases skipped : o.id = skipId
    · simp only [pick, skipped, ne_eq, not_true_eq_false, if_false, decide_false]
      exact ih
    · simp [pick, skipped]

/-! ### Nothing outranks what is found -/

/-- A live order of this side lies in the book. -/
def LiveIn (b : IntentBook) (side nowSlot : ℕ) (node : IntentNode) : Prop :=
  ∃ i : ℕ, b.nodes[i]? = some (.intent node) ∧ node.side = side ∧ node.IsLive nowSlot

theorem LiveIn.mem_queue {node : IntentNode} (consistent : Consistent b) (live : LiveIn b side nowSlot node) :
    node.withLinks noLinks ∈ b.view.queue side nowSlot := by
  obtain ⟨i, slot, sided, isLive⟩ := live
  exact BookView.mem_queue.mpr ⟨i, consistent.tidy.intent_lt slot, IntentBook.order_of_intent slot, sided, isLive⟩

theorem liveIn_of_mem_queue {o : IntentNode} (member : o ∈ b.view.queue side nowSlot) :
    ∃ node, LiveIn b side nowSlot node ∧ node.withLinks noLinks = o := by
  obtain ⟨i, -, placed, sided, isLive⟩ := BookView.mem_queue.mp member
  obtain ⟨node, slot, rfl⟩ := IntentBook.intent_of_order placed
  exact ⟨node, ⟨i, slot, sided, isLive⟩, rfl⟩

/-- In a queue nothing from an order on outranks the order. -/
theorem BookView.Orderly.not_outranks {v : BookView} (orderly : v.Orderly) {before after : List IntentNode} {o x : IntentNode}
    (split : v.queue side nowSlot = before ++ o :: after) (member : x ∈ v.queue side nowSlot) (later : x ∉ before) :
    ¬ Outranks side x o := by
  intro outranks
  have sorted : (v.queue side nowSlot).Pairwise (InFront side) := queue_sorted orderly
  rw [split, List.pairwise_append, List.pairwise_cons] at sorted
  rw [split, List.mem_append, List.mem_cons] at member
  rcases member with member | rfl | member
  · exact later member
  · exact InFront.irrefl outranks.inFront
  · exact InFront.irrefl ((sorted.2.1.1 x member).trans outranks.inFront)

theorem not_outranks_head {v : BookView} (orderly : v.Orderly) {o x : IntentNode} (first : (v.queue side nowSlot).head? = some o)
    (member : x ∈ v.queue side nowSlot) : ¬ Outranks side x o := by
  obtain ⟨after, split⟩ := List.head?_eq_some_iff.mp first
  have from_start : v.queue side nowSlot = [] ++ o :: after := split
  exact orderly.not_outranks from_start member List.not_mem_nil

/-- Two live orders that cross pass the checks of a match, and nothing else does. -/
theorem findPair_iff (consistent : Consistent b) {longId shortId : ℕ} {long short : IntentNode} :
    (∃ p, Book.findPair longId shortId nowSlot b = .ok p ∧ p.long = long ∧ p.short = short) ↔
      LiveIn b SIDE_LONG nowSlot long ∧ LiveIn b SIDE_SHORT nowSlot short ∧ short.priceFp ≤ long.priceFp ∧
        long.id = longId ∧ short.id = shortId := by
  constructor
  · rintro ⟨p, ok, rfl, rfl⟩
    obtain ⟨found, isLong, isShort⟩ := (Book.findPair_ok consistent).mp ok
    exact ⟨⟨p.longIdx, found.long, found.longSide, Nat.pos_of_ne_zero found.longLive.2, found.longLive.1⟩,
      ⟨p.shortIdx, found.short, found.shortSide, Nat.pos_of_ne_zero found.shortLive.2, found.shortLive.1⟩,
      found.cross, isLong, isShort⟩
  · rintro ⟨⟨i, slot, sided, left, unexpired⟩, ⟨j, slot', sided', left', unexpired'⟩, cross, isLong, isShort⟩
    have found : Book.Found b nowSlot ⟨i, j, long, short⟩ :=
      ⟨slot, slot', sided, sided', ⟨unexpired, left.ne'⟩, ⟨unexpired', left'.ne'⟩, cross⟩
    exact ⟨_, (Book.findPair_ok consistent).mpr ⟨found, isLong, isShort⟩, rfl, rfl⟩

/-- The orders of the top pair are the first of their queues, and pass the checks of a match. -/
theorem exists_pair_of_topPair (consistent : Consistent b) {long short : IntentNode}
    (top : b.view.topPair nowSlot = some (long, short)) :
    ∃ p, Book.findPair long.id short.id nowSlot b = .ok p ∧ p.long.withLinks noLinks = long ∧
      p.short.withLinks noLinks = short := by
  obtain ⟨bid, ask, cross⟩ := BookView.topPair_eq_some.mp top
  obtain ⟨x, liveX, rfl⟩ := liveIn_of_mem_queue (List.mem_of_head? bid)
  obtain ⟨y, liveY, rfl⟩ := liveIn_of_mem_queue (List.mem_of_head? ask)
  obtain ⟨p, ok, rfl, rfl⟩ := (findPair_iff consistent).mpr ⟨liveX, liveY, cross, rfl, rfl⟩
  exact ⟨p, ok, rfl, rfl⟩

/-- When two orders can be matched, there is a top pair. -/
theorem exists_topPair (consistent : Consistent b) {long short : IntentNode} (bid : LiveIn b SIDE_LONG nowSlot long)
    (ask : LiveIn b SIDE_SHORT nowSlot short) (cross : short.priceFp ≤ long.priceFp) :
    ∃ top, b.view.topPair nowSlot = some top := by
  have inLongs := bid.mem_queue consistent
  have inShorts := ask.mem_queue consistent
  have bestLong := List.head?_eq_some_head (List.ne_nil_of_mem inLongs)
  have bestShort := List.head?_eq_some_head (List.ne_nil_of_mem inShorts)
  generalize List.head _ (List.ne_nil_of_mem inLongs) = l at bestLong
  generalize List.head _ (List.ne_nil_of_mem inShorts) = s at bestShort
  have noBetterBid := not_outranks_head consistent.orderly bestLong inLongs
  have noBetterAsk := not_outranks_head consistent.orderly bestShort inShorts
  have higher : long.priceFp ≤ l.priceFp := by
    by_contra lower
    exact noBetterBid (.inl (Nat.lt_of_not_le lower))
  have lower : s.priceFp ≤ short.priceFp := by
    by_contra higher
    exact noBetterAsk (.inl (Nat.lt_of_not_le higher))
  exact ⟨(l, s), BookView.topPair_eq_some.mpr ⟨bestLong, bestShort, lower.trans (cross.trans higher)⟩⟩

/-- The first of a queue but for one id outranks the others. -/
theorem first_but {v : BookView} (orderly : v.Orderly) {skipId : ℕ} {o : IntentNode}
    (first : ((v.queue side nowSlot).find? fun x => x.id ≠ skipId) = some o) :
    o ∈ v.queue side nowSlot ∧ o.id ≠ skipId ∧
      ∀ x ∈ v.queue side nowSlot, x.id ≠ skipId → ¬ Outranks side x o := by
  obtain ⟨kept, before, after, split, passed⟩ := List.find?_eq_some_iff_append.mp first
  refine ⟨List.mem_of_find?_eq_some first, of_decide_eq_true kept, fun x member other => ?_⟩
  apply orderly.not_outranks split member
  intro early
  have skipped := passed x early
  simp [other] at skipped

/-- An order at a price that is not worse crosses as well. -/
theorem CrossesTaker.better {takerPrice : ℕ} {x o : IntentNode} (crosses : CrossesTaker side takerPrice x) (isSide : IsSide side)
    (first : ¬ Outranks side x o) : CrossesTaker side takerPrice o := by
  have price : ¬ BetterPrice side x.priceFp o.priceFp := fun better => first (.inl better)
  unfold CrossesTaker at crosses ⊢
  unfold BetterPrice at price
  rcases isSide with rfl | rfl
  · rw [if_pos rfl] at price
    rw [if_neg (by decide)] at crosses ⊢
    omega
  · rw [if_neg (by decide)] at price
    rw [if_pos rfl] at crosses ⊢
    omega

/-- What an overlap search returns, and what it means that it returns nothing. -/
theorem overlap_spec (wellFormed : WellFormed b) (isSide : IsSide side) (takerPrice skipId : ℕ) :
    ∃ found, (Book.findOverlapOnSide side takerPrice nowSlot skipId).run b = .ok found b ∧
      (found.isSome ↔ ∃ node, LiveIn b side nowSlot node ∧ node.id ≠ skipId ∧ CrossesTaker side takerPrice node) ∧
      ∀ id, found = some id → ∃ node, LiveIn b side nowSlot node ∧ node.id = id ∧ id ≠ skipId ∧
        CrossesTaker side takerPrice node ∧
        ∀ other, LiveIn b side nowSlot other → other.id ≠ skipId → ¬ Outranks side other node := by
  have consistent := wellFormed.consistent
  have returned : ∀ id, (((b.view.queue side nowSlot).find? fun o => o.id ≠ skipId).bind fun o =>
      if CrossesTaker side takerPrice o then some o.id else none) = some id →
      ∃ node, LiveIn b side nowSlot node ∧ node.id = id ∧ id ≠ skipId ∧ CrossesTaker side takerPrice node ∧
        ∀ other, LiveIn b side nowSlot other → other.id ≠ skipId → ¬ Outranks side other node := by
    intro id found
    obtain ⟨o, first, crossing⟩ := Option.bind_eq_some_iff.mp found
    split at crossing
    next crosses =>
      cases crossing
      obtain ⟨member, kept, ranked⟩ := first_but consistent.orderly first
      obtain ⟨node, live, rfl⟩ := liveIn_of_mem_queue member
      exact ⟨node, live, rfl, kept, crosses, fun other live skipped => by
        have outranked := ranked _ (live.mem_queue consistent) skipped
        exact outranked⟩
    · cases crossing
  refine ⟨_, run_findOverlapOnSide wellFormed isSide takerPrice skipId, ?_, returned⟩
  constructor
  · intro isSome
    obtain ⟨id, found⟩ := Option.isSome_iff_exists.mp isSome
    obtain ⟨node, live, rfl, kept, crosses, -⟩ := returned id found
    exact ⟨node, live, kept, crosses⟩
  · rintro ⟨node, live, kept, crosses⟩
    have member := live.mem_queue consistent
    have some_ : ((b.view.queue side nowSlot).find? fun o => o.id ≠ skipId).isSome :=
      List.find?_isSome.mpr ⟨_, member, decide_eq_true (kept : (node.withLinks noLinks).id ≠ skipId)⟩
    obtain ⟨o, first⟩ := Option.isSome_iff_exists.mp some_
    obtain ⟨-, -, ranked⟩ := first_but consistent.orderly first
    have crosses' : CrossesTaker side takerPrice (node.withLinks noLinks) := crosses
    rw [first, Option.bind_some, if_pos (crosses'.better isSide (ranked _ member kept))]
    rfl

/-- The scan finds a pair exactly when two live orders pass the checks of a match, the pair passes them, and no
live order outranks one of the two. The overlap search finds an order exactly when a live one but the skipped one
crosses the taker, and no other live one outranks the order that it finds. -/
theorem discovery_spec (wellFormed : WellFormed b) (nowSlot : ℕ) :
    (∃ found, (Book.scanForFirstValidPair nowSlot).run b = .ok found b ∧
      (found.isSome ↔ ∃ longId shortId p, Book.findPair longId shortId nowSlot b = .ok p) ∧
      ∀ longId shortId, found = some (longId, shortId) → ∃ p, Book.findPair longId shortId nowSlot b = .ok p ∧
        (∀ other, LiveIn b SIDE_LONG nowSlot other → ¬ Outranks SIDE_LONG other p.long) ∧
        ∀ other, LiveIn b SIDE_SHORT nowSlot other → ¬ Outranks SIDE_SHORT other p.short) ∧
    ∀ side takerPrice skipId, IsSide side →
      ∃ found, (Book.findOverlapOnSide side takerPrice nowSlot skipId).run b = .ok found b ∧
        (found.isSome ↔ ∃ node, LiveIn b side nowSlot node ∧ node.id ≠ skipId ∧ CrossesTaker side takerPrice node) ∧
        ∀ id, found = some id → ∃ node, LiveIn b side nowSlot node ∧ node.id = id ∧ id ≠ skipId ∧
          CrossesTaker side takerPrice node ∧
          ∀ other, LiveIn b side nowSlot other → other.id ≠ skipId → ¬ Outranks side other node := by
  have consistent := wellFormed.consistent
  refine ⟨⟨_, run_scanForFirstValidPair wellFormed, ?_, ?_⟩, fun side takerPrice skipId isSide =>
    overlap_spec wellFormed isSide takerPrice skipId⟩
  · rw [Option.isSome_map, Option.isSome_iff_exists]
    constructor
    · rintro ⟨⟨long, short⟩, top⟩
      obtain ⟨p, ok, -⟩ := exists_pair_of_topPair consistent top
      exact ⟨long.id, short.id, p, ok⟩
    · rintro ⟨longId, shortId, p, ok⟩
      obtain ⟨bid, ask, cross, -⟩ := (findPair_iff consistent).mp ⟨p, ok, rfl, rfl⟩
      exact exists_topPair consistent bid ask cross
  · intro longId shortId found
    obtain ⟨⟨long, short⟩, top, ids⟩ := Option.map_eq_some_iff.mp found
    cases ids
    obtain ⟨p, ok, rfl, rfl⟩ := exists_pair_of_topPair consistent top
    obtain ⟨bid, ask, -⟩ := BookView.topPair_eq_some.mp top
    refine ⟨p, ok, fun other live => ?_, fun other live => ?_⟩
    · have ranked := not_outranks_head consistent.orderly bid (live.mem_queue consistent)
      exact ranked
    · have ranked := not_outranks_head consistent.orderly ask (live.mem_queue consistent)
      exact ranked

namespace Sample

/-- The book that Alice and Bob have posted to is well formed. -/
theorem wellFormed_posted : ∃ b, (posted 0 1).get (book poly) = ⟨Runtime.sample.programId, .intentBook b⟩ ∧ WellFormed b := by
  have owned : (posted 0 1).owner (book poly) = Runtime.sample.programId := by decide +kernel
  have reached : Reachable Runtime.sample (fun instr => instr.expands = false) (posted 0 1) :=
    Sample.reachable (by decide +kernel)
  have books := @books_of_reachable Runtime.sample (posted 0 1) _ (fun _ plain => plain) reached
  have capacity : (((posted 0 1).data (book poly)).loadBook.toOption.map fun b => b.header.capacity) = some 16 := by
    decide +kernel
  cases held : ((posted 0 1).data (book poly)).loadBook with
  | error e =>
    rw [held] at capacity
    cases capacity
  | ok b =>
    rw [held] at capacity
    have found := AccountData.loadBook_ok.mp held
    obtain ⟨-, c, -, sound⟩ := books.book_ok owned found
    have sixteen : b.header.capacity = 16 := Option.some.inj capacity
    refine ⟨b, get_eq_of_data owned found, sound.consistent, by omega, fun i o placed => ?_⟩
    have none := sound.unbuffered.2 i o placed
    omega

end Sample

/-- In the book that Alice and Bob have posted to, the scan finds what can be matched. -/
theorem discovery_spec_posted : ∃ b, (Sample.posted 0 1).get (Sample.book Sample.poly) =
      ⟨Runtime.sample.programId, .intentBook b⟩ ∧
    ∃ found, (Book.scanForFirstValidPair 1).run b = .ok found b ∧
      (found.isSome ↔ ∃ longId shortId p, Book.findPair longId shortId 1 b = .ok p) := by
  obtain ⟨b, held, wellFormed⟩ := Sample.wellFormed_posted
  obtain ⟨⟨found, ran, some_iff, -⟩, -⟩ := discovery_spec wellFormed 1
  exact ⟨b, held, found, ran, some_iff⟩

end Polyleverage
