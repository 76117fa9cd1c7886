import Polyleverage.Guarantees.Amortisation
import Polyleverage.Guarantees.Discovery
import Polyleverage.Guarantees.Exits
import Polyleverage.Guarantees.InlineMatches
import Polyleverage.Guarantees.SeatCounters

/-! # A match that fails in a post

A post logs the error of the match that it tries, and returns. The match fills its pair in the book before it checks
the accounts that it was given, so the post that returns has left the fill behind. Only a match that the book refuses
leaves what the same post leaves without a match.
-/

namespace Polyleverage

open RedBlack Machine

variable {rt : Runtime} {inv : rt.Invocation} {s t : Ledger}

/-! ### Orders that are taken out -/

/-- Orders are taken out of their slots, and that is all that happens to them. -/
def OnlyRemoves (b b' : IntentBook) : Prop := ∀ i o, b'.order i = some o → b.order i = some o

instance : Std.Refl OnlyRemoves := ⟨fun _ _ _ => id⟩

instance : IsTrans IntentBook OnlyRemoves where
  trans _ _ _ first next i o there := first i o (next i o there)

instance (side i : ℕ) : Exec.Keeping OnlyRemoves (IntentTree.remove side i) where
  keeps := by
    have keeps : Exec.Keeps (IntentTree.pool side).Relinked (IntentTree.remove side i) := LinkedPool.keeps_remove i
    refine keeps.mono fun b b' relinked => ?_
    have same := congrArg BookView.order (IntentBook.view_of_bare (sameButTree_of_relinked relinked).bare)
    change b'.order = b.order at same
    intro j o there
    rwa [← same]

instance (i : ℕ) : Exec.Keeping OnlyRemoves (IntentBook.freeNode i) where
  keeps := Exec.keeps_bind_get fun b b' left => by
    rcases Exec.left_bind_check left with rfl | ⟨_, inside, left⟩
    · exact Std.Refl.refl _
    · cases left
      rw [not_or, Nat.not_le] at inside
      have emptied := congrArg BookView.order (IntentBook.view_setNode inside.2 (.free b.header.freelistHead))
      intro j o there
      have there' : Function.update b.order i none j = some o := (congrFun emptied j).symm.trans there
      by_cases here : j = i
      · rw [here, Function.update_self] at there'
        cases there'
      · rwa [Function.update_of_ne here] at there'

instance (side i : ℕ) : Exec.Keeping OnlyRemoves (Book.removeIntent side i) := by
  unfold Book.removeIntent
  infer_instance

theorem OnlyRemoves.remaining_le {b b' : IntentBook} (removes : OnlyRemoves b b') (i : ℕ) :
    b'.remainingAt i ≤ b.remainingAt i := by
  rw [IntentBook.remainingAt]
  cases there : b'.order i with
  | none => exact Nat.zero_le _
  | some o =>
    rw [IntentBook.remainingAt, removes i o there]

/-- However the writing of a filled pair ends, a contract of its long order is gone. -/
theorem Book.Found.remaining_lt {b b' : IntentBook} {nowSlot bucket longRelease shortRelease : ℕ} {p q : Book.Pair}
    (found : Book.Found b nowSlot p) (consumed : Book.consume bucket p = .ok (q, longRelease, shortRelease))
    (left : b' ∈ ((Book.writePair q).run b).state?) : b'.remainingAt p.longIdx < b.remainingAt p.longIdx := by
  obtain ⟨rfl, -⟩ := Book.consume_ok consumed
  have short1 : (b.setNode p.longIdx (.intent (p.long.fill bucket longRelease))).nodes[p.shortIdx]? =
      some (.intent p.short) := by
    rw [IntentBook.getElem?_setNode_of_ne found.ne]
    exact found.short
  rw [Book.writePair, Exec.run_bind, run_updateIntent found.long, Outcome.bind_ok, Exec.run_bind, run_updateIntent short1,
    Outcome.bind_ok] at left
  have removes := Exec.Keeping.keeps (R := OnlyRemoves) _ b' left
  refine (removes.remaining_le p.longIdx).trans_lt ?_
  have written : ((b.setNode p.longIdx (.intent (p.long.fill bucket longRelease))).setNode p.shortIdx
      (.intent (p.short.fill bucket shortRelease))).nodes[p.longIdx]? = some (.intent (p.long.fill bucket longRelease)) := by
    rw [IntentBook.getElem?_setNode_of_ne (Ne.symm found.ne)]
    exact IntentBook.getElem?_setNode_self (IntentBook.lt_length_of_getElem? found.long)
  rw [IntentBook.remainingAt, IntentBook.remainingAt, IntentBook.order_of_intent written, IntentBook.order_of_intent found.long]
  exact Nat.sub_lt (Nat.pos_of_ne_zero found.longLive.2) Nat.one_pos

theorem Renumbered.remainingAt_eq {b b' : IntentBook} (renumbered : Renumbered b b') (i : ℕ) :
    b'.remainingAt i = b.remainingAt i := by
  obtain ⟨id, -, rfl⟩ := renumbered
  rfl

/-! ### What a match leaves -/

/-- The accounts that a match writes, apart from the position that it opens. -/
def MatchCtx.written (ctx : MatchCtx) : List Pubkey :=
  [ctx.book, ctx.longMargin, ctx.shortMargin, ctx.takerVolume, ctx.makerVolume, ctx.feeTreasury]

/-- However a match ends that could fill its pair, the book is not what it was. -/
theorem FillsPair.book_ne {ctx : MatchCtx} {longId shortId : ℕ} {p : Book.Pair}
    (fills : FillsPair rt s ctx.instrument ctx.book longId shortId inv.slot p)
    (left : t ∈ ((matchPairCore rt inv ctx longId shortId).run s).state?) : t.get ctx.book ≠ s.get ctx.book := by
  rcases matchPairCore_left left with ⟨-, none⟩ | ⟨inst, b, b', found, -, -, held, -, inner, rest⟩
  · exact absurd fills (none p)
  obtain ⟨x, c, held_inst, held_book, -, -, consumes⟩ := fills
  rw [found] at held_inst
  cases held_inst
  rw [Ledger.data, held_book] at held
  cases held
  rcases matchInBook_left inner with ⟨-, none⟩ | ⟨p', q, longRelease, shortRelease, b1, paired, consumed, written, renumbered⟩
  · exact absurd consumes (none p)
  have less := (Book.found_of_findPair paired).1.remaining_lt consumed written
  rw [← renumbered.remainingAt_eq] at less
  have kept : t.get ctx.book = (s.setData ctx.book (.intentBook b')).get ctx.book := by
    apply rest.get_eq
    rw [Ledger.data_setData_self]
    simp
  rw [kept, Ledger.get_setData_self, held_book]
  intro same
  cases congrArg Account.data same
  exact absurd less (Nat.lt_irrefl _)

/-- However a match ends that could not fill its pair, nothing has changed. -/
theorem get_eq_of_not_fills {ctx : MatchCtx} {longId shortId : ℕ} (owned : s.owner ctx.book = rt.programId)
    (none : ∀ p, ¬ FillsPair rt s ctx.instrument ctx.book longId shortId inv.slot p)
    (left : t ∈ ((matchPairCore rt inv ctx longId shortId).run s).state?) (k : Pubkey) : t.get k = s.get k := by
  rcases matchPairCore_left left with ⟨same, -⟩ | ⟨inst, b, _, found, active, at_book, held, ⟨p, consumes⟩, -⟩
  · exact same k
  · have held_book : s.get ctx.book = ⟨rt.programId, .intentBook b⟩ := by rw [← owned, ← held]; rfl
    exact absurd ⟨inst, b, found, held_book, active, at_book, consumes⟩ (none p)

/-! ### The post goes on -/

/-- A post whose match fails returns what the match left. -/
theorem TriesMatch.run_of_err {post : PostCtx} {args : PostIntentArgs} {ctx : MatchCtx} {longId shortId : ℕ} {v : Ledger}
    {e : ProgramError} (tries : TriesMatch inv post args s ctx longId shortId v)
    (failed : (matchPairCore rt inv ctx longId shortId).run v = .err e t) :
    (doPostIntentInner rt inv post args).run s = .ok () t := by
  obtain ⟨wanted, id, mid, other, _, _, _, _, _, _, _, _, posted, given, looked, here, ids⟩ := tries
  have inner : (inlineMatchPair rt inv ctx args id other).run v = .err e t := by
    rw [← failed, inlineMatchPair]
    split at ids
    next long =>
      cases ids
      rw [if_pos long]
    next short =>
      cases ids
      rw [if_neg short]
  rw [doPostIntentInner, Exec.run_bind_of_ok posted, Exec.run_when, if_pos wanted, inlineMatch, given]
  dsimp only
  rw [Exec.run_bind_of_ok looked]
  dsimp only
  rw [← here, Exec.run_bind, Exec.run_swallow, inner]
  rfl

/-- The book that a post tries a match in is the program's. -/
theorem TriesMatch.owner_book {post : PostCtx} {args : PostIntentArgs} {ctx : MatchCtx} {longId shortId : ℕ} {v : Ledger}
    (tries : TriesMatch inv post args s ctx longId shortId v) : v.owner ctx.book = rt.programId := by
  obtain ⟨-, id, mid, other, _, _, _, _, _, _, _, _, posted, -, looked, rfl, -⟩ := tries
  obtain ⟨posting⟩ := postIntent_ok posted
  rw [Ledger.owner, get_of_look (keeps_findOverlapOnSide _ _ _ _) looked]
  exact congrArg Account.owner posting.book_after

/-! ### The pair of a post -/

/-- What the search of a post finds is a live order of the side that is searched, which the price crosses. -/
theorem found_of_findOverlapOnSide {b b' : IntentBook} {side takerPrice nowSlot skipId id : ℕ} (tidy : Tidy b)
    (isSide : IsSide side)
    (ran : (Book.findOverlapOnSide side takerPrice nowSlot skipId).run b = .ok (some id) b') :
    ∃ (i : ℕ) (node : IntentNode), b.nodes[i]? = some (.intent node) ∧ node.side = side ∧ node.id = id ∧
      node.contractsRemaining ≠ 0 ∧ nowSlot < node.expirationSlot ∧ CrossesTaker side takerPrice node := by
  obtain ⟨orders, seats, chain, laid⟩ := tidy
  simp only [Book.findOverlapOnSide, Exec.bind_ok, Exec.pure_ok] at ran
  obtain ⟨found, b1, walked, joined, -⟩ := ran
  have first := IntentTree.found_of_forEachBestFirst (laid.orderTree side isSide) walked
  obtain rfl : found = some (some id) := by
    cases found with
    | none => cases joined
    | some found => exact congrArg some joined
  obtain ⟨i, member, visited⟩ := List.exists_of_findSome?_eq_some first.symm
  obtain ⟨-, node, slot, sided⟩ := laid.ownSide side isSide i member
  rw [IntentTree.seen_of_intent slot, Book.overlapVisitor] at visited
  split at visited
  · cases visited
  next live =>
    rw [not_or, not_or, Nat.not_le] at live
    by_cases crosses : if side = SIDE_SHORT then node.priceFp ≤ takerPrice else takerPrice ≤ node.priceFp
    · rw [if_pos crosses] at visited
      cases visited
      exact ⟨i, node, slot, sided, rfl, live.1, live.2.1, crosses⟩
    · rw [if_neg crosses] at visited
      cases visited

/-- Two live orders of a sound book that cross can be filled against each other. -/
theorem Sound.consumes {b : IntentBook} {bucket nowSlot : ℕ} {p : Book.Pair} (sound : Sound bucket b)
    (found : Book.Found b nowSlot p) : Book.Consumes b bucket p.long.id p.short.id nowSlot p := by
  have long := sound.backed _ _ (IntentBook.order_of_intent found.long)
  have short := sound.backed _ _ (IntentBook.order_of_intent found.short)
  have longBuffer := sound.buffer_of_intent found.long
  have shortBuffer := sound.buffer_of_intent found.short
  obtain ⟨longRelease, shortRelease, consumed⟩ := Book.exists_consume ⟨long.1, short.1⟩ ⟨long.2, short.2⟩
    (by omega) (by omega)
  exact ⟨(Book.findPair_ok sound.consistent).mpr ⟨found, rfl, rfl⟩, _, consumed⟩

/-- A post puts its draft into the book, under the number that it returns. -/
theorem Book.placed_of_post {b b' : IntentBook} {owner : Pubkey} {d : Book.Draft} {id : ℕ} (consistent : Consistent b)
    (isSide : IsSide d.side) (ran : (Book.post owner d).run b = .ok id b') :
    ∃ (i : ℕ) (node : IntentNode), b'.nodes[i]? = some (.intent node) ∧ node.side = d.side ∧ node.id = id ∧
      node.priceFp = d.priceFp ∧ node.contractsRemaining = d.contracts ∧ node.expirationSlot = d.expirationSlot := by
  obtain ⟨-, numbered, i, seat, posted, -⟩ := Book.post_ok consistent isSide ran
  have there : b'.order i = _ := (congrFun posted.order i).trans (Function.update_self _ _ _)
  obtain ⟨node, slot, as_posted⟩ := IntentBook.intent_of_order there
  have same_id : node.id = b.header.nextIntentId := congrArg IntentNode.id as_posted
  exact ⟨i, node, slot, congrArg IntentNode.side as_posted, same_id.trans numbered.symm,
    congrArg IntentNode.priceFp as_posted, congrArg IntentNode.contractsRemaining as_posted,
    congrArg IntentNode.expirationSlot as_posted⟩

theorem postIntent_active {post : PostCtx} {args : PostIntentArgs} {id : ℕ}
    (ran : (postIntent rt inv post args).run s = .ok id t) :
    ∃ inst, s.data post.instrument = .instrumentConfig inst ∧ inst.requireActive = .ok () := by
  simp only [postIntent, Exec.bind_check, exists_const] at ran
  obtain ⟨-, -, -, cfg, -, -, inst, found, active, -⟩ := ran
  exact ⟨inst, found, active⟩

/-- A post into a sound book tries only a match that the book can fill. -/
theorem TriesMatch.fills {post : PostCtx} {args : PostIntentArgs} {ctx : MatchCtx} {longId shortId : ℕ} {v : Ledger}
    (genuine : Genuine rt s) (books : Books rt s) (tries : TriesMatch inv post args s ctx longId shortId v) :
    ∃ p, FillsPair rt v ctx.instrument ctx.book longId shortId inv.slot p := by
  obtain ⟨-, id, mid, other, _, _, _, _, _, _, _, _, ran, -, looked, rfl, ids⟩ := tries
  obtain ⟨inst, found, active⟩ := postIntent_active ran
  obtain ⟨posting⟩ := postIntent_ok ran
  obtain rfl : posting.inst = inst := by
    have same := posting.instrument_eq.symm.trans found
    cases same
    rfl
  have touches : Touches [.intentBook, .marginAccount, .session] [.intentBook, .marginAccount, .session] s mid :=
    (within_postIntent post args fun _ => by simp).keeps.ok ran
  have same := get_of_look (keeps_findOverlapOnSide _ _ _ _) looked
  have instrument : v.data post.instrument = .instrumentConfig posting.inst := by
    rw [Ledger.data, same, touches.get_eq (k := post.instrument) (by rw [posting.instrument_eq]; simp)]
    exact posting.instrument_eq
  have held : v.get post.book = ⟨rt.programId, .intentBook posting.b2⟩ := (same _).trans posting.book_after
  -- The book is sound after the post.
  obtain ⟨-, sound⟩ := posting.sound genuine books
  have pruned := posting.step_prune sound
  have posted := posting.step_post sound
  have fills {p : Book.Pair} (pair : Book.Found posting.b2 inv.slot p) :
      FillsPair rt v post.instrument post.book p.long.id p.short.id inv.slot p :=
    ⟨_, _, instrument, held, active, posting.book_of, posted.sound.consumes pair⟩
  -- The posted order is in the book, and so is the one that is found for it.
  obtain ⟨i, own, slot, own_side, rfl, own_price, own_left, own_expiration⟩ :=
    Book.placed_of_post pruned.sound.consistent posting.isSide posting.posted
  have own_live : inv.slot < own.expirationSlot ∧ own.contractsRemaining ≠ 0 := by
    rw [own_expiration, own_left]
    exact ⟨posting.unexpired, posting.some_contracts⟩
  obtain ⟨b, b', read, inner, -⟩ := atAccount_ok looked
  obtain rfl : posting.b2 = b := by
    rw [AccountData.loadBook_ok, Ledger.data, posting.book_after] at read
    cases read
    rfl
  rcases posting.isSide with long | short
  · rw [if_pos long] at ids
    rw [if_pos long] at inner
    cases ids
    obtain ⟨j, node, slot', sided, rfl, left, live, crosses⟩ :=
      found_of_findOverlapOnSide posted.sound.consistent.tidy (.inr rfl) inner
    have cross : node.priceFp ≤ own.priceFp := own_price ▸ crosses
    have pair : Book.Found posting.b2 inv.slot ⟨i, j, own, node⟩ :=
      ⟨slot, slot', own_side.trans long, sided, own_live, ⟨live, left⟩, cross⟩
    exact ⟨_, fills pair⟩
  · have not_long : args.side.toNat ≠ SIDE_LONG := by
      rw [short]
      decide
    rw [if_neg not_long] at ids
    rw [if_neg not_long] at inner
    cases ids
    obtain ⟨j, node, slot', sided, rfl, left, live, crosses⟩ :=
      found_of_findOverlapOnSide posted.sound.consistent.tidy (.inl rfl) inner
    have cross : own.priceFp ≤ node.priceFp := own_price ▸ crosses
    have pair : Book.Found posting.b2 inv.slot ⟨j, i, node, own⟩ :=
      ⟨slot', slot, sided, own_side.trans short, ⟨live, left⟩, own_live, cross⟩
    exact ⟨_, fills pair⟩

/-! ### What the post leaves -/

/-- A post whose match fails returns all the same. Then the book, the two margin accounts, the two volumes and the
treasury are as the same post without a match leaves them exactly when the book refuses the pair. As long as no book
has been expanded, none does. -/
theorem failed_match_undone_iff {c : Call rt} {ctx : MatchCtx} {longId shortId : ℕ} {e : ProgramError}
    (tries : c.instruction.triesMatch = true) (matching : c.Matches s ctx longId shortId (execute rt c.plain s))
    (failed : (matchPairCore rt c.inv ctx longId shortId).run (execute rt c.plain s) = .err e t) :
    c.returns s = true ∧
      ((∀ k ∈ ctx.written, (execute rt c s).get k = (execute rt c.plain s).get k) ↔
        ∀ p, ¬ FillsPair rt (execute rt c.plain s) ctx.instrument ctx.book longId shortId c.inv.slot p) ∧
      (Reachable rt (fun i => i.expands = false) s →
        ∃ p, FillsPair rt (execute rt c.plain s) ctx.instrument ctx.book longId shortId c.inv.slot p) := by
  obtain ⟨post, args, matching, runs, -⟩ := matching.of_post tries
  have ran := runs.trans (matching.run_of_err failed)
  have left : t ∈ ((matchPairCore rt c.inv ctx longId shortId).run (execute rt c.plain s)).state? := by
    rw [failed]
    rfl
  refine ⟨by rw [Call.returns, ran], ?_, fun reached => ?_⟩
  · rw [execute_of_ran ran]
    constructor
    · intro undone p fills
      exact fills.book_ne left (undone _ List.mem_cons_self)
    · intro none k _
      exact get_eq_of_not_fills matching.owner_book none left k
  · exact matching.fills (genuine_of_reachable reached) (books_of_reachable (fun _ plain => plain) reached)

namespace Sample

/-- Carol offers too, after Alice has looked at the book. -/
def moved : Ledger := runCalls Runtime.sample (offering ++ [post poly carol 1 1]) genesis

/-- The match of Alice's post. It names the position that would have been the next one. -/
def staleMatch : MatchCtx where
  payer := alice
  instrument := instrument poly
  book := book poly
  longMargin := marginOf alice
  shortMargin := marginOf bob
  pmlc := pmlc poly 3
  feeSchedule
  takerVolume := volumeOf alice
  makerVolume := volumeOf bob
  feeTreasury := treasury

theorem matches_moved : postCrossing.Matches moved staleMatch 3 1 (execute Runtime.sample postCrossing.plain moved) := by
  obtain ⟨v, matching⟩ : ∃ v, postCrossing.Matches moved staleMatch 3 1 v := by
    have which : ((unpackPostIntent Runtime.sample postCrossing.inv).run moved).value? =
        some ⟨alice, alice, config, instrument poly, book poly, marginOf alice, none, 5⟩ := by decide +kernel
    obtain ⟨u, unpacked⟩ := Outcome.value?_eq_some.mp which
    obtain ⟨rfl, -⟩ := unpackPostIntent_ok unpacked
    have found : ((do
        let id ← postIntent Runtime.sample postCrossing.inv
          ⟨alice, alice, config, instrument poly, book poly, marginOf alice, none, 5⟩ ⟨0, 500000000000000000, 1, 100, 0, 1⟩
        let other ← atBook Runtime.sample postCrossing.inv (book poly)
          (Book.findOverlapOnSide SIDE_SHORT 500000000000000000 1 id)
        pure (id, other)).run moved).value? = some (3, some 1) := by decide +kernel
    obtain ⟨w, ran⟩ := Outcome.value?_eq_some.mp found
    simp only [Exec.bind_ok, Exec.pure_ok] at ran
    obtain ⟨id, mid, posted, other, v, looked, same, -⟩ := ran
    cases same
    exact ⟨v, _, _, unpacked, by decide, _, mid, _, _, _, _, _, _, _, _, _, posted, rfl, looked, rfl, rfl⟩
  rwa [← matching.eq_plain rfl]

/-- The pair is filled in the book, and then the position is found to have another address. -/
theorem staleMatch_fails : ∃ t, (matchPairCore Runtime.sample postCrossing.inv staleMatch 3 1).run
    (execute Runtime.sample postCrossing.plain moved) = .err PolyleverageError.invalidPda t := by
  apply Outcome.error?_eq_some.mp
  decide +kernel

end Sample

/-- Alice's post returns without the position that she wanted to open, and her match with Bob stays in the book. -/
theorem failed_match_stays : Reachable Runtime.sample (fun i => i.expands = false) Sample.moved ∧
    Sample.postCrossing.returns Sample.moved = true ∧
    Sample.postCrossing.Matches Sample.moved Sample.staleMatch 3 1
      (execute Runtime.sample Sample.postCrossing.plain Sample.moved) ∧
    (∃ t, (matchPairCore Runtime.sample Sample.postCrossing.inv Sample.staleMatch 3 1).run
      (execute Runtime.sample Sample.postCrossing.plain Sample.moved) = .err PolyleverageError.invalidPda t) ∧
    (execute Runtime.sample Sample.postCrossing Sample.moved).get Sample.staleMatch.book ≠
      (execute Runtime.sample Sample.postCrossing.plain Sample.moved).get Sample.staleMatch.book :=
  ⟨Sample.reachable (by decide +kernel), by decide +kernel, Sample.matches_moved, Sample.staleMatch_fails,
    by decide +kernel⟩

/-- Her post returns, and what it leaves would be what it leaves without a match if the book had refused the pair. It has
not refused it. -/
theorem failed_match_undone_iff_moved : Sample.postCrossing.returns Sample.moved = true ∧
    ((∀ k ∈ Sample.staleMatch.written, (execute Runtime.sample Sample.postCrossing Sample.moved).get k =
        (execute Runtime.sample Sample.postCrossing.plain Sample.moved).get k) ↔
      ∀ p, ¬ FillsPair Runtime.sample (execute Runtime.sample Sample.postCrossing.plain Sample.moved)
        Sample.staleMatch.instrument Sample.staleMatch.book 3 1 Sample.postCrossing.inv.slot p) ∧
    ∃ p, FillsPair Runtime.sample (execute Runtime.sample Sample.postCrossing.plain Sample.moved)
      Sample.staleMatch.instrument Sample.staleMatch.book 3 1 Sample.postCrossing.inv.slot p := by
  obtain ⟨t, failed⟩ := Sample.staleMatch_fails
  obtain ⟨returns, undone_iff, fills⟩ := failed_match_undone_iff rfl Sample.matches_moved failed
  exact ⟨returns, undone_iff, fills (Sample.reachable (by decide +kernel))⟩

end Polyleverage
