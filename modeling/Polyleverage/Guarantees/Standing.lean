import Polyleverage.Guarantees.Exits
import Polyleverage.Guarantees.Nodes

/-! # Nobody else can pull an order

An order that is not expired stays in the book, whoever else signs: it can be cancelled by its trader and by
the delegate of the trader's active session only, and a prune takes out expired orders only. All that others
can do is to fill it, contract by contract.
-/

namespace Polyleverage

open RedBlack Machine

variable {rt : Runtime} {b b' : IntentBook} {i now : ℕ} {o : IntentNode} {u : Unit}

/-! ### Orders that stand -/

namespace IntentBook

/-- An order lies in this slot, and in the tree of its side. -/
structure Stands (b : IntentBook) (i : ℕ) (o : IntentNode) : Prop where
  placed : b.order i = some o
  inTree : ∃ w, (IntentTree.pool o.side).Valid b w ∧ i ∈ w.toList

/-- In a tidy book every order stands. -/
theorem stands_of_tidy (tidy : Tidy b) (placed : b.order i = some o) : b.Stands i o := by
  obtain ⟨orders, seats, chain, laid⟩ := tidy
  obtain ⟨node, slot, rfl⟩ := intent_of_order placed
  obtain ⟨isSide, member⟩ := laid.inTree i node slot
  exact ⟨placed, orders node.side, laid.orderTree node.side isSide, member (laid.intent_used slot).1⟩

/-- The order lost a contract: with the last one it left, and else it stands with one contract less. -/
def LosesOne (b' : IntentBook) (i : ℕ) (o : IntentNode) : Prop :=
  (o.contractsRemaining = 1 ∧ b'.order i = none) ∨
    ∃ o', b'.Stands i o' ∧ 0 < o'.contractsRemaining ∧ o'.contractsRemaining + 1 = o.contractsRemaining ∧
      o'.id = o.id ∧ o'.side = o.side ∧ o'.priceFp = o.priceFp ∧ o'.ownerSeat = o.ownerSeat ∧
      o'.contractsTotal = o.contractsTotal ∧ o'.expirationSlot = o.expirationSlot ∧ o'.postSeq = o.postSeq ∧
      o'.flags = o.flags

/-- A fill takes one contract. -/
theorem losesOne_of_fill {node : IntentNode} {bucket release : ℕ} (tidy : Tidy b') (some_left : node.contractsRemaining ≠ 0)
    (left : b'.order i = (node.fill bucket release).rest) : b'.LosesOne i (node.withLinks noLinks) := by
  have contracts : (node.fill bucket release).contractsRemaining = node.contractsRemaining - 1 := rfl
  unfold IntentNode.rest at left
  split at left
  next used_up =>
    left
    refine ⟨?_, left⟩
    change node.contractsRemaining = 1
    omega
  next more =>
    right
    refine ⟨_, stands_of_tidy tidy left, Nat.pos_of_ne_zero more, ?_, rfl, rfl, rfl, rfl, rfl, rfl, rfl, rfl⟩
    change node.contractsRemaining - 1 + 1 = node.contractsRemaining
    omega

end IntentBook

/-! ### Programs on a book -/

namespace Book

/-- A post prunes no order that is not expired. -/
theorem order_pruneOwnExpired {owner : Pubkey} {refund : ℕ} (tidy : Tidy b) (placed : b.order i = some o)
    (unexpired : now < o.expirationSlot) (ran : (pruneOwnExpired owner now).run b = .ok refund b') : b'.order i = some o := by
  obtain ⟨work, batch, expired, -, view, -⟩ := pruneOwnExpired_ok tidy ran
  have order : b'.order = (without b.view (work.map Prod.fst)).order := congrArg BookView.order view
  have kept : i ∉ work.map Prod.fst := by
    intro member
    obtain ⟨⟨idx, node, total⟩, listed, rfl⟩ := List.mem_map.mp member
    have here := (batch.1 idx node total listed).1
    cases here.symm.trans placed
    exact absurd unexpired (Nat.not_lt_of_le (expired _ listed).2)
  rw [order, without]
  dsimp only
  rw [if_neg kept]
  exact placed

/-- A post leaves the orders that are there. -/
theorem order_post {owner : Pubkey} {d : Draft} {id : ℕ} (consistent : Consistent b) (isSide : IsSide d.side)
    (placed : b.order i = some o) (ran : (post owner d).run b = .ok id b') : b'.order i = some o := by
  obtain ⟨-, -, slot, seat, posted, -⟩ := post_ok consistent isSide ran
  have order : b'.order = Function.update b.order slot _ := posted.order
  have vacant : b.order slot = none := posted.vacant
  have other : i ≠ slot := by
    rintro rfl
    cases placed.symm.trans vacant
  rw [order, Function.update_of_ne other, placed]

/-- A cancel leaves the orders that it is not authorized for. -/
theorem order_cancelInBook {margin mint : Pubkey} {id : ℕ} {authorize : Pubkey → IntentNode → Except ProgramError Unit}
    {refund : Refund} (consistent : Consistent b) (placed : b.order i = some o)
    (denied : ∀ trader node, b.trader o.ownerSeat = some trader → node.withLinks noLinks = o → authorize trader node ≠ .ok ())
    (ran : (cancelInBook rt margin mint id authorize).run b = .ok refund b') : b'.order i = some o := by
  simp only [cancelInBook, Exec.bind_check, exists_const] at ran
  obtain ⟨⟨idx, side⟩, found, node, slot, seat, seated, authorized, -, ran⟩ := ran
  rw [Exec.bind_ok] at ran
  obtain ⟨_, b1, cancelled, ran⟩ := ran
  simp only [Exec.bind_check] at ran
  obtain ⟨total, -, ran⟩ := ran
  obtain ⟨-, rfl⟩ := Exec.pure_ok.mp ran
  obtain ⟨node', slot', -, rfl⟩ := intent_of_findIntentById found
  have here := IntentBook.intent_eq_ok.mp slot
  cases here.symm.trans slot'
  have order : b1.order = Function.update b.order idx none := congrArg BookView.order (cancel_ok consistent.tidy here cancelled).2
  have other : i ≠ idx := by
    rintro rfl
    cases placed.symm.trans (IntentBook.order_of_intent here)
    exact denied _ node (IntentBook.trader_of_seat (IntentBook.seat_eq_ok.mp seated)) rfl authorized
  rw [order, Function.update_of_ne other, placed]

/-- Taking out other slots leaves an order. -/
theorem order_pruneSlots {work : List (ℕ × IntentNode × Pubkey × ℕ)} {bucket : ℕ} (sound : Sound bucket b)
    (measured : Measured b work) (other : i ∉ work.map Prod.fst) (placed : b.order i = some o) (ran : (pruneSlots work).run b = .ok u b') :
    b'.order i = some o := by
  induction work generalizing b with
  | nil =>
    obtain ⟨-, rfl⟩ := Exec.pure_ok.mp ran
    exact placed
  | cons entry work ih =>
    obtain ⟨idx, node, trader, total⟩ := entry
    rw [pruneSlots, Exec.bind_ok] at ran
    obtain ⟨_, b1, pruned, ran⟩ := ran
    rw [List.map_cons, List.mem_cons, not_or] at other
    obtain ⟨lies, seated, -⟩ := measured.1 idx node trader total List.mem_cons_self
    have view := pruneSlot_ok sound.consistent.tidy lies pruned
    have order : b1.order = Function.update b.order idx none := congrArg BookView.order view
    have kept : b1.order i = some o := by rw [order, Function.update_of_ne other.1, placed]
    exact ih (bookStep_pruneSlot sound lies seated pruned).sound (measured.tail view) other.2 kept ran

/-- A growth leaves the slots below it, and the roots of the trees. -/
theorem nodes_pushFreeFrom {first count : ℕ} (below : i < first) (ran : (IntentBook.pushFreeFrom first count).run b = .ok u b') :
    b'.nodes[i]? = b.nodes[i]? := by
  induction count generalizing first b with
  | zero =>
    obtain ⟨-, rfl⟩ := Exec.pure_ok.mp ran
    rfl
  | succ count ih =>
    rw [IntentBook.pushFreeFrom, Exec.bind_ok] at ran
    obtain ⟨_, b1, pushed, ran⟩ := ran
    rw [ih (Nat.lt_succ_of_lt below) ran]
    simp only [IntentBook.pushFree, Exec.bind_ok, Exec.get_ok, Exec.abortIf_ok, Exec.put_ok] at pushed
    obtain ⟨_, _, ⟨rfl, rfl⟩, _, _, ⟨-, rfl⟩, rfl⟩ := pushed
    exact List.getElem?_set_ne (Nat.ne_of_gt below)

theorem treeRoot_pushFreeFrom {first count side : ℕ} (ran : (IntentBook.pushFreeFrom first count).run b = .ok u b') :
    IntentTree.treeRoot b' side = IntentTree.treeRoot b side := by
  induction count generalizing first b with
  | zero =>
    obtain ⟨-, rfl⟩ := Exec.pure_ok.mp ran
    rfl
  | succ count ih =>
    rw [IntentBook.pushFreeFrom, Exec.bind_ok] at ran
    obtain ⟨_, b1, pushed, ran⟩ := ran
    rw [ih ran]
    simp only [IntentBook.pushFree, Exec.bind_ok, Exec.get_ok, Exec.abortIf_ok, Exec.put_ok] at pushed
    obtain ⟨_, _, ⟨rfl, rfl⟩, _, _, ⟨-, rfl⟩, rfl⟩ := pushed
    rfl

/-- A growth leaves the orders and their trees. -/
theorem stands_expandNodes {additionalNodes : ℕ} (tidy : Tidy b) (placed : b.order i = some o)
    (ran : (IntentBook.expandNodes additionalNodes).run b = .ok u b') : b'.Stands i o := by
  rw [IntentBook.expandNodes, Exec.bind_ok] at ran
  obtain ⟨_, b1, appended, ran⟩ := ran
  obtain rfl := Exec.modify_ok.mp appended
  simp only [Exec.bind_ok, Exec.get_ok, Exec.orErr_ok, Exec.put_ok] at ran
  obtain ⟨_, _, ⟨rfl, rfl⟩, capacity, _, ⟨-, rfl⟩, _, _, rfl, pushed⟩ := ran
  obtain ⟨placed, w, valid, member⟩ := IntentBook.stands_of_tidy tidy placed
  have length : b.nodes.length = b.header.capacity := by
    obtain ⟨orders, seats, chain, laid⟩ := tidy
    exact laid.length
  have nodes : ∀ j < b.nodes.length, b'.nodes[j]? = b.nodes[j]? := by
    intro j below
    rw [nodes_pushFreeFrom (length ▸ below) pushed]
    exact List.getElem?_append_left below
  constructor
  · rw [IntentBook.order, nodes i (IntentBook.order_lt placed)]
    exact placed
  · have root : IntentTree.treeRoot b' o.side = IntentTree.treeRoot b o.side := by
      rw [treeRoot_pushFreeFrom pushed]
      rfl
    refine ⟨w, IntentTree.valid_frame valid (fun j inside => nodes j ?_) root, member⟩
    obtain ⟨node, slot⟩ := IntentTree.intent_of_mem valid inside
    exact IntentBook.lt_length_of_getElem? slot

/-- What a pair leaves in the other slots and in its own. -/
theorem order_of_match {instrument pmlc : Pubkey} {bucket longId shortId : ℕ} {r : MatchResult}
    (ran : (matchInBook rt instrument pmlc bucket longId shortId now).run b = .ok r b') :
    ∃ pair longRelease shortRelease, findPair longId shortId now b = .ok pair ∧
      b'.order = (b.view.fill pair bucket longRelease shortRelease).order := by
  simp only [matchInBook, Exec.bind_ok, Exec.gets_ok, Exec.ofExcept_ok, Exec.rejectIf_ok, Exec.pure_ok] at ran
  obtain ⟨p, _, ⟨paired, rfl⟩, ⟨q, longRelease, shortRelease⟩, _, ⟨consumed, rfl⟩, _, b1, written, id, b2, numbered,
    _, _, ⟨-, rfl⟩, _, _, ⟨-, rfl⟩, _, _, ⟨-, rfl⟩, -, rfl⟩ := ran
  obtain ⟨rfl, rfl⟩ := IntentBook.nextIntentId_ok numbered
  obtain ⟨rfl, -⟩ := consume_ok consumed
  have order := order_writePair (q := ⟨_, _, p.long.fill bucket longRelease, p.short.fill bucket shortRelease⟩)
    (found_of_findPair paired).1 rfl rfl written
  exact ⟨p, longRelease, shortRelease, paired, order⟩

theorem order_of_substitute {substitutor : Pubkey} {p : Pmlc} {bucket longId shortId : ℕ} {c : SubstitutionCtx}
    (ran : (substituteInBook substitutor p bucket longId shortId now).run b = .ok c b') :
    ∃ pair longRelease shortRelease, findPair longId shortId now b = .ok pair ∧
      b'.order = (b.view.fill pair bucket longRelease shortRelease).order := by
  simp only [substituteInBook, Exec.bind_ok, Exec.gets_ok, Exec.ofExcept_ok, Exec.rejectIf_ok, Exec.pure_ok] at ran
  obtain ⟨pair, _, ⟨paired, rfl⟩, _, _, ⟨-, rfl⟩, _, _, ⟨-, rfl⟩, _, _, ⟨-, rfl⟩, _, _, ⟨-, rfl⟩, _, _, ⟨-, rfl⟩,
    ⟨q, longRelease, shortRelease⟩, _, ⟨consumed, rfl⟩, _, b1, written, -, rfl⟩ := ran
  obtain ⟨rfl, -⟩ := consume_ok consumed
  exact ⟨pair, longRelease, shortRelease, paired,
    order_writePair (q := ⟨_, _, pair.long.fill bucket longRelease, pair.short.fill bucket shortRelease⟩)
      (found_of_findPair paired).1 rfl rfl written⟩

/-- The fill of a pair leaves the orders in other slots, and takes one contract of those in its own. -/
theorem order_fill {pair : Pair} {bucket longId shortId longRelease shortRelease : ℕ}
    (paired : findPair longId shortId now b = .ok pair) (placed : b.order i = some o)
    (filled : b'.order = (b.view.fill pair bucket longRelease shortRelease).order) (tidy : Tidy b') :
    (i ≠ pair.longIdx ∧ i ≠ pair.shortIdx → b'.order i = some o) ∧ (i = pair.longIdx ∨ i = pair.shortIdx → b'.LosesOne i o) := by
  obtain ⟨found, -, -⟩ := found_of_findPair paired
  have order : b'.order = Function.update (Function.update b.order pair.longIdx (pair.long.fill bucket longRelease).rest)
      pair.shortIdx (pair.short.fill bucket shortRelease).rest := filled
  constructor
  · rintro ⟨notLong, notShort⟩
    rw [order, Function.update_of_ne notShort, Function.update_of_ne notLong, placed]
  · rintro (rfl | rfl)
    · cases placed.symm.trans (IntentBook.order_of_intent found.long)
      apply IntentBook.losesOne_of_fill tidy found.longLive.2
      rw [order, Function.update_of_ne found.ne.symm, Function.update_self]
    · cases placed.symm.trans (IntentBook.order_of_intent found.short)
      apply IntentBook.losesOne_of_fill tidy found.shortLive.2
      rw [order, Function.update_self]

end Book

/-! ### Instructions that leave an order -/

section Ledgers

variable {inv : rt.Invocation} {s t v : Ledger} {k book instrument : Pubkey} {bucket : ℕ}

/-- The book at this key has this order. -/
def OrderAt (rt : Runtime) (k : Pubkey) (i : ℕ) (o : IntentNode) (s : Ledger) : Prop :=
  ∃ b, s.get k = ⟨rt.programId, .intentBook b⟩ ∧ b.order i = some o

theorem orderAt_of_touches {old new : List AccountKind} (touches : Touches old new s t) (unwritten : AccountKind.intentBook ∉ old)
    (before : OrderAt rt k i o s) : OrderAt rt k i o t := by
  obtain ⟨b, held, placed⟩ := before
  exact ⟨b, kept_of_touches touches unwritten held, placed⟩

/-- A program on some book leaves the order if it does so in the order's book. -/
theorem orderAt_atBook {α : Type} {m : BookM α} {a : α} (held : s.get k = ⟨rt.programId, .intentBook b⟩)
    (placed : b.order i = some o) (ran : (atBook rt inv book m).run s = .ok a t)
    (keeps : k = book → ∀ b', m.run b = .ok a b' → b'.order i = some o) : OrderAt rt k i o t := by
  obtain ⟨c, c', found, inner, rfl⟩ := atBook_ok ran
  by_cases here : k = book
  · subst here
    rw [Ledger.data, held] at found
    cases found
    exact ⟨c', by rw [Ledger.get_setData_self, Ledger.owner, held], keeps rfl c' inner⟩
  · exact ⟨b, by rw [Ledger.get_setData_of_ne _ _ here, held], placed⟩

section Steps

variable (sound : Sound bucket b) (held : s.get k = ⟨rt.programId, .intentBook b⟩) (placed : b.order i = some o)
include sound held placed

theorem orderAt_postIntent {ctx : PostCtx} {args : PostIntentArgs} {id : ℕ} (unexpired : inv.slot < o.expirationSlot)
    (ran : (postIntent rt inv ctx args).run s = .ok id t) : OrderAt rt k i o t := by
  obtain ⟨posting⟩ := postIntent_ok ran
  by_cases book : k = ctx.book
  · subst book
    have found := posting.book_eq
    rw [Ledger.data, held] at found
    cases found
    refine ⟨posting.b2, posting.book_after, ?_⟩
    have pruned := Book.order_pruneOwnExpired sound.consistent.tidy placed unexpired posting.pruned
    exact Book.order_post (bookStep_pruneOwnExpired sound posting.pruned).sound.consistent posting.isSide pruned posting.posted
  · refine ⟨b, ?_, placed⟩
    rw [← held]
    apply posting.others k book
    · rintro rfl
      have found := posting.margin_eq
      rw [Ledger.data, held] at found
      cases found
    · intro session
      have charged := posting.charged
      rw [session] at charged
      obtain ⟨x, x', found, -⟩ := charged
      rw [Ledger.data, held] at found
      cases found

theorem orderAt_cancelIntent {margin : Pubkey} {intentId : ℕ} {authorize : Pubkey → IntentNode → Except ProgramError Unit}
    (denied : ∀ trader node, b.trader o.ownerSeat = some trader → node.withLinks noLinks = o → authorize trader node ≠ .ok ())
    (ran : (cancelIntent rt inv instrument book margin intentId authorize).run s = .ok () t) : OrderAt rt k i o t := by
  simp only [cancelIntent, Exec.bind_check, exists_const, ne_eq, not_not] at ran
  obtain ⟨inst, found, at_book, ran⟩ := ran
  rw [Exec.bind_ok] at ran
  obtain ⟨refund, s1, cancelled, refunded⟩ := ran
  have rest : Touches [.marginAccount] [.marginAccount] s1 t := Within.keeps.ok refunded
  apply orderAt_of_touches rest (by simp)
  exact orderAt_atBook held placed cancelled fun _ _ inner => Book.order_cancelInBook sound.consistent placed denied inner

variable {trader : Pubkey} (mine : b.trader o.ownerSeat = some trader) (unexpired : inv.slot < o.expirationSlot)
include mine

theorem orderAt_processCancelIntent {intentId : UInt64} (unexpired : inv.slot < o.expirationSlot)
    (unsigned : inv.isSigner trader = false) (ran : (processCancelIntent rt inv intentId).run s = .ok () t) :
    OrderAt rt k i o t := by
  unfold processCancelIntent at ran
  split at ran
  next caller instrument book margin rest _ =>
    simp only [Exec.bind_check, exists_const] at ran
    obtain ⟨signed, -, -, -, ran⟩ := ran
    refine orderAt_cancelIntent sound held placed (fun trader' node seated same authorized => ?_) ran
    cases mine.symm.trans seated
    subst same
    have stranger : caller ≠ trader := by
      rintro rfl
      cases unsigned.symm.trans signed
    rw [authorizeCaller, if_pos ⟨stranger, unexpired⟩] at authorized
    cases authorized
  · cases ran

theorem orderAt_processCancelIntentDelegated {intentId : UInt64}
    (undelegated : ∀ x, s.data (rt.address (.session trader)) = .session x → x.isActive inv.slot = true → inv.isSigner x.delegate = false)
    (ran : (processCancelIntentDelegated rt inv intentId).run s = .ok () t) : OrderAt rt k i o t := by
  unfold processCancelIntentDelegated at ran
  split at ran
  next feePayer delegate instrument book margin session rest _ =>
    simp only [Exec.bind_check, exists_const] at ran
    obtain ⟨-, -, signed, -, -, -, owner, ⟨x, at_session, live⟩, ran⟩ := ran
    refine orderAt_cancelIntent sound held placed (fun trader' node seated same authorized => ?_) ran
    cases mine.symm.trans seated
    have owns : trader = owner := by
      by_contra other
      rw [authorizeSession, if_pos other] at authorized
      cases authorized
    subst owns
    have here : rt.address (.session trader) = session := by
      rw [← live.address_eq, live.owner_eq]
    rw [← here] at at_session
    have unsigned := undelegated x at_session live.active
    rw [live.delegate_eq, signed] at unsigned
    cases unsigned
  · cases ran

omit mine

theorem orderAt_processPruneExpired (unexpired : inv.slot < o.expirationSlot) (ran : (processPruneExpired rt inv).run s = .ok () t) :
    OrderAt rt k i o t := by
  unfold processPruneExpired at ran
  split at ran
  next caller instrument book margins _ =>
    simp only [Exec.bind_check, exists_const] at ran
    obtain ⟨-, -, -, inst, -, -, c, found_book, work, scanned, ran⟩ := ran
    obtain ⟨b', slots, after⟩ := pruneAll_ok ran found_book held
    by_cases same : k = book
    · subst same
      rw [Ledger.data, held] at found_book
      cases found_book
      rw [if_pos rfl] at after
      refine ⟨b', after, Book.order_pruneSlots sound (measured_of_scan scanned) ?_ placed slots⟩
      intro member
      obtain ⟨⟨idx, node, measured⟩, listed, rfl⟩ := List.mem_map.mp member
      obtain ⟨-, slot, picked, -⟩ := (Book.scanIntents_ok scanned).1 idx node measured listed
      cases placed.symm.trans (IntentBook.order_of_intent slot)
      simp only [isExpired, decide_eq_true_eq] at picked
      exact absurd unexpired (Nat.not_lt_of_le picked.2)
    · rw [if_neg same] at after
      exact ⟨b, after, placed⟩
  · cases ran

theorem orderAt_processClaimReentry {args : ClaimReentryArgs} (ran : (processClaimReentry rt inv args).run s = .ok () t) :
    OrderAt rt k i o t := by
  have cleared : ∀ {pmlc side u v w}, (clearReentry rt inv pmlc side).run v = .ok u w → OrderAt rt k i o v → OrderAt rt k i o w := by
    intro pmlc side u v w ran
    have touches : Touches [.pmlc] [.pmlc] v w := Within.keeps.ok ran
    exact orderAt_of_touches touches (by simp)
  unfold processClaimReentry at ran
  split at ran
  next owner config pmlc instrument book margin rest _ =>
    simp only [Exec.bind_check, exists_const] at ran
    obtain ⟨-, -, -, -, -, -, -, side, p, -, -, -, -, -, inst, -, -, -, -, -, -, _, -, m, -, -, -, ran⟩ := ran
    split at ran
    · exact cleared ran ⟨b, held, placed⟩
    · simp only [Exec.bind_check] at ran
      obtain ⟨c, -, contracts, -, ran⟩ := ran
      split at ran
      · exact cleared ran ⟨b, held, placed⟩
      · simp only [reenter, Exec.bind_check] at ran
        obtain ⟨⟨reservedCollateral, feeBuffer, totalReserve⟩, -, ran⟩ := ran
        simp only [Exec.bind_ok] at ran
        obtain ⟨_, s1, reserved, id, s2, posted, ran⟩ := ran
        have first : Touches [.marginAccount] [.marginAccount] s s1 := Within.keeps.ok reserved
        have isSide : IsSide args.side.toNat := by
          by_contra neither
          exact side ⟨fun long => neither (.inl long), fun short => neither (.inr short)⟩
        apply cleared ran
        exact orderAt_atBook (kept_of_touches first (by simp) held) placed posted fun _ _ inner =>
          Book.order_post sound.consistent isSide placed inner
  · cases ran

end Steps

/-! ### Instructions that fill -/

/-- One contract of each intent of this pair is gone from the book. -/
def FilledIn (b b' : IntentBook) (longId shortId now : ℕ) : Prop :=
  ∃ pair bucket longRelease shortRelease, Book.findPair longId shortId now b = .ok pair ∧
    b'.order = (b.view.fill pair bucket longRelease shortRelease).order

/-- After some fills, those of this book. -/
def FilledAt (rt : Runtime) (k : Pubkey) (b : IntentBook) (fills : Prop) (longId shortId now : ℕ) (t : Ledger) : Prop :=
  ∃ b', t.get k = ⟨rt.programId, .intentBook b'⟩ ∧ (¬ fills → b'.order = b.order) ∧ (fills → FilledIn b b' longId shortId now)

theorem FilledAt.touches {fills : Prop} {longId shortId : ℕ} {old new : List AccountKind}
    (filled : FilledAt rt k b fills longId shortId now s) (touches : Touches old new s t) (unwritten : AccountKind.intentBook ∉ old) :
    FilledAt rt k b fills longId shortId now t := by
  obtain ⟨b', held, rest⟩ := filled
  exact ⟨b', kept_of_touches touches unwritten held, rest⟩

theorem filledAt_atBook {α : Type} {m : BookM α} {a : α} {longId shortId : ℕ} (held : s.get k = ⟨rt.programId, .intentBook b⟩)
    (ran : (atBook rt inv book m).run s = .ok a t) (fills : ∀ b', m.run b = .ok a b' → FilledIn b b' longId shortId now) :
    FilledAt rt k b (k = book) longId shortId now t := by
  obtain ⟨c, c', found, inner, rfl⟩ := atBook_ok ran
  by_cases here : k = book
  · subst here
    rw [Ledger.data, held] at found
    cases found
    exact ⟨c', by rw [Ledger.get_setData_self, Ledger.owner, held], fun other => absurd rfl other, fun _ => fills c' inner⟩
  · exact ⟨b, by rw [Ledger.get_setData_of_ne _ _ here, held], fun _ => rfl, fun same => absurd same here⟩

/-- A match fills its pair, and opens a position where none lay. -/
theorem filledAt_matchPairCore {ctx : MatchCtx} {longId shortId : ℕ} (held : s.get k = ⟨rt.programId, .intentBook b⟩)
    (ran : (matchPairCore rt inv ctx longId shortId).run s = .ok u t) :
    FilledAt rt k b (k = ctx.book) longId shortId inv.slot t ∧ ∀ p, s.data ctx.pmlc ≠ .pmlc p := by
  simp only [matchPairCore, Exec.bind_check, exists_const] at ran
  obtain ⟨inst, -, -, -, ran⟩ := ran
  rw [Exec.bind_ok] at ran
  obtain ⟨r, s1, matched, ran⟩ := ran
  have filled : FilledAt rt k b (k = ctx.book) longId shortId inv.slot s1 :=
    filledAt_atBook held matched fun b' inner => by
      obtain ⟨pair, longRelease, shortRelease, rest⟩ := Book.order_of_match inner
      exact ⟨pair, _, longRelease, shortRelease, rest⟩
  have first : Touches [.intentBook] [.intentBook] s s1 := Within.keeps.ok matched
  simp only [Exec.bind_check, exists_const] at ran
  obtain ⟨-, -, ran⟩ := ran
  simp only [Exec.bind_ok] at ran
  obtain ⟨fee, s2, charged, _, s3, long, _, s4, short, opened⟩ := ran
  have second : Touches [.marginAccount, .userVolume, .feeTreasury, .raw] [.marginAccount, .userVolume, .feeTreasury, .raw] s1 s2 :=
    Within.keeps.ok charged
  have third : Touches [.marginAccount, .userVolume, .feeTreasury, .raw] [.marginAccount, .userVolume, .feeTreasury, .raw] s2 s3 :=
    Within.keeps.ok long
  have fourth : Touches [.marginAccount, .userVolume, .feeTreasury, .raw] [.marginAccount, .userVolume, .feeTreasury, .raw] s3 s4 :=
    Within.keeps.ok short
  have last : Touches [.raw] [.raw, .pmlc] s4 t := Within.keeps.ok opened
  have rest := Trans.trans second (Trans.trans third fourth)
  refine ⟨(filled.touches rest (by simp)).touches last (by simp), fun p there => ?_⟩
  -- What lies there before the position is opened lies there from the start.
  rw [openPmlc, Exec.bind_ok] at opened
  obtain ⟨_, s5, created, -⟩ := opened
  have vacant := (createAccount_ok created).1
  have there1 : s1.data ctx.pmlc = .pmlc p := by
    rw [← there]
    exact congrArg Account.data (first.get_eq (by rw [there]; simp))
  have same := rest.get_eq (k := ctx.pmlc) (by rw [there1]; simp)
  rw [vacant] at same
  rw [Ledger.data, ← same] at there1
  cases there1

theorem filledAt_doSubstitute {args : MatchPairArgs} {withSettle : Bool} (held : s.get k = ⟨rt.programId, .intentBook b⟩)
    (ran : (doSubstitute rt inv args withSettle).run s = .ok () t) :
    FilledAt rt k b (inv.accounts[2]? = some k) args.longIntentId.toNat args.shortIntentId.toNat inv.slot t := by
  obtain ⟨_, _, book, _, inst, p, c, mid, accounts, -, -, -, -, substituted, rest⟩ := substituteInBook_of_ok ran
  have filled : FilledAt rt k b (k = book) args.longIntentId.toNat args.shortIntentId.toNat inv.slot mid :=
    filledAt_atBook held substituted fun b' inner => by
      obtain ⟨pair, longRelease, shortRelease, rest⟩ := Book.order_of_substitute inner
      exact ⟨pair, _, longRelease, shortRelease, rest⟩
  have at_book : inv.accounts[2]? = some k ↔ k = book := by
    rw [accounts]
    exact Option.some_inj.trans eq_comm
  rw [at_book]
  exact filled.touches rest (by simp)

/-! ### Every instruction -/

/-- The call opens a position, where none lay, from a pair with the order in this slot. -/
def Call.OpensFrom (c : Call rt) (s : Ledger) (k : Pubkey) (i : ℕ) : Prop :=
  ∃ ctx longId shortId v, c.Matches s ctx longId shortId v ∧ ctx.book = k ∧ (∀ p, s.data ctx.pmlc ≠ .pmlc p) ∧
    ∃ x : Opening rt c.inv ctx longId shortId v (execute rt c s), i = x.pair.longIdx ∨ i = x.pair.shortIdx

/-- The call moves a side of a position through a pair with the order in this slot. -/
def Call.MovesThrough (c : Call rt) (s : Ledger) (k : Pubkey) (i : ℕ) : Prop :=
  ∃ (args : MatchPairArgs) (withSettle : Bool) (x : Exit) (b b' : IntentBook) (pair : Book.Pair),
    c.instruction.substitution = some (args, withSettle) ∧ c.instruction.pmlcOf c.inv.accounts = some x.pmlc ∧
      c.inv.accounts[2]? = some k ∧ s.data k = .intentBook b ∧ x.ThroughBook args withSettle c.inv.slot b b' pair ∧
      x.Fair rt c.inv.slot [k] s (execute rt c s) ∧ (i = pair.longIdx ∨ i = pair.shortIdx)

variable {c : Call rt} {ctx : MatchCtx} {longId shortId : ℕ}

/-- A call that returns has done its match. -/
theorem Call.Matches.ran (matching : c.Matches s ctx longId shortId v) (untried : c.instruction.triesMatch = false)
    (ran : (process rt c.inv c.instruction).run s = .ok () t) :
    (matchPairCore rt c.inv ctx longId shortId).run v = .ok () t ∧ ∀ k, v.get k = s.get k := by
  obtain ⟨inv, instruction⟩ := c
  cases instruction with
  | matchPair args =>
    obtain ⟨unpacked, rfl, rfl⟩ := matching
    rw [process, processMatchPair, Exec.run_bind_of_ok unpacked] at ran
    obtain ⟨rfl, -⟩ := unpackMatchAccounts_ok unpacked
    exact ⟨ran, fun _ => rfl⟩
  | matchBestAvailable =>
    obtain ⟨_, unpacked, scanned⟩ := matching
    rw [process, processMatchBestAvailable, Exec.run_bind_of_ok unpacked, Exec.run_bind_of_ok scanned] at ran
    obtain ⟨rfl, -⟩ := unpackMatchAccounts_ok unpacked
    exact ⟨ran, get_of_look (keeps_scanForFirstValidPair _) scanned⟩
  | postIntent args =>
    obtain ⟨post, _, -, tries, -⟩ := matching
    simp [Instruction.triesMatch, tries] at untried
  | postIntentDelegated args =>
    obtain ⟨post, _, -, tries, -⟩ := matching
    simp [Instruction.triesMatch, tries] at untried
  | _ => cases matching

/-- A match that returns has matched a pair. -/
theorem exists_matches (fills : c.instruction = .matchBestAvailable ∨ ∃ args, c.instruction = .matchPair args)
    (ran : (process rt c.inv c.instruction).run s = .ok () t) : ∃ ctx longId shortId v, c.Matches s ctx longId shortId v := by
  obtain ⟨inv, instruction⟩ := c
  obtain rfl | ⟨args, rfl⟩ := fills
  · simp only [process, processMatchBestAvailable, Exec.bind_ok, Exec.orErr_ok] at ran
    obtain ⟨ctx, _, unpacked, pair, mid, scanned, ⟨longId, shortId⟩, _, ⟨rfl, rfl⟩, -⟩ := ran
    exact ⟨ctx, longId, shortId, mid, _, unpacked, scanned⟩
  · rw [process, processMatchPair, Exec.bind_ok] at ran
    obtain ⟨ctx, v, unpacked, -⟩ := ran
    exact ⟨ctx, _, _, v, unpacked, rfl, rfl⟩

/-- What a match that returns makes of an order. -/
theorem fate_of_matches (matching : c.Matches s ctx longId shortId v) (untried : c.instruction.triesMatch = false)
    (returns : c.returns s = true) (held : s.get k = ⟨rt.programId, .intentBook b⟩) (placed : b.order i = some o)
    (tidy : ∀ b', (execute rt c s).get k = ⟨rt.programId, .intentBook b'⟩ → Tidy b') :
    ∃ b', (execute rt c s).get k = ⟨rt.programId, .intentBook b'⟩ ∧ (¬ c.OpensFrom s k i → b'.order i = some o) ∧
      (∀ x : Opening rt c.inv ctx longId shortId v (execute rt c s), ctx.book = k → i = x.pair.longIdx ∨ i = x.pair.shortIdx →
        b'.LosesOne i o) := by
  obtain ⟨ran, same⟩ := matching.ran untried (c.ran returns)
  obtain ⟨⟨b', after, elsewhere, here⟩, vacant⟩ := filledAt_matchPairCore ((same k).trans held) ran
  obtain ⟨opening⟩ := opening_of_matchPairCore ran
  refine ⟨b', after, fun notFrom => ?_, fun x at_book hits => ?_⟩
  · by_cases at_book : k = ctx.book
    · obtain ⟨pair, bucket, longRelease, shortRelease, paired, filled⟩ := here at_book
      apply (Book.order_fill paired placed filled (tidy b' after)).1
      rw [← not_or]
      intro hits
      apply notFrom
      have book_eq := opening.book_eq
      rw [← at_book, Ledger.data, same, held] at book_eq
      have found := opening.found
      cases book_eq
      cases found.symm.trans paired
      refine ⟨ctx, longId, shortId, v, matching, at_book.symm, fun p there => vacant p ?_, opening, hits⟩
      rw [← there, Ledger.data, Ledger.data, same]
    · rw [elsewhere at_book, placed]
  · obtain ⟨pair, bucket, longRelease, shortRelease, paired, filled⟩ := here at_book.symm
    have book_eq := x.book_eq
    rw [at_book, Ledger.data, same, held] at book_eq
    have found := x.found
    cases book_eq
    cases found.symm.trans paired
    exact (Book.order_fill paired placed filled (tidy b' after)).2 hits

/-- What a substitution that returns makes of an order. -/
theorem fate_of_substitution {args : MatchPairArgs} {withSettle : Bool} (substitutes : c.instruction.substitution = some (args, withSettle))
    (genuine : Genuine rt s) (returns : c.returns s = true) (held : s.get k = ⟨rt.programId, .intentBook b⟩)
    (placed : b.order i = some o) (tidy : ∀ b', (execute rt c s).get k = ⟨rt.programId, .intentBook b'⟩ → Tidy b') :
    ∃ b', (execute rt c s).get k = ⟨rt.programId, .intentBook b'⟩ ∧ (¬ c.MovesThrough s k i → b'.order i = some o) ∧
      (c.MovesThrough s k i → b'.LosesOne i o) := by
  obtain ⟨ran, pmlc⟩ : (doSubstitute rt c.inv args withSettle).run s = .ok () (execute rt c s) ∧
      c.instruction.pmlcOf c.inv.accounts = c.inv.accounts[3]? := by
    have ran := c.ran returns
    obtain ⟨inv, instruction⟩ := c
    cases instruction with
    | matchSubstitute args' =>
      cases substitutes
      exact ⟨ran, rfl⟩
    | matchSubstituteWithSettle args' =>
      cases substitutes
      exact ⟨ran, rfl⟩
    | _ => cases substitutes
  obtain ⟨b', after, elsewhere, here⟩ := filledAt_doSubstitute held ran
  refine ⟨b', after, fun notThrough => ?_, ?_⟩
  · by_cases at_book : c.inv.accounts[2]? = some k
    · obtain ⟨pair, bucket, longRelease, shortRelease, paired, filled⟩ := here at_book
      apply (Book.order_fill paired placed filled (tidy b' after)).1
      rw [← not_or]
      intro hits
      apply notThrough
      obtain ⟨x, book, b0, b1, pair', at_pmlc, at_book', book_eq, -, through, fair⟩ := fair_doSubstitute genuine ran
      cases at_book.symm.trans at_book'
      rw [Ledger.data, held] at book_eq
      cases book_eq
      cases paired.symm.trans through.found
      refine ⟨args, withSettle, x, b, b1, pair, substitutes, pmlc.trans at_pmlc, at_book, ?_, through, fair, hits⟩
      rw [Ledger.data, held]
    · rw [elsewhere at_book, placed]
  · rintro ⟨args', withSettle', x, b0, b1, pair', substitutes', -, at_book, book_eq, through, -, hits⟩
    cases substitutes.symm.trans substitutes'
    obtain ⟨pair, bucket, longRelease, shortRelease, paired, filled⟩ := here at_book
    rw [Ledger.data, held] at book_eq
    cases book_eq
    cases paired.symm.trans through.found
    exact (Book.order_fill paired placed filled (tidy b' after)).2 hits

/-- A call that returns, does not grow the book and fills no contract of the order leaves it. -/
theorem orderAt_execute {bucket : ℕ} {trader : Pubkey} (sound : Sound bucket b) (genuine : Genuine rt s) (returns : c.returns s = true)
    (untried : c.instruction.triesMatch = false) (held : s.get k = ⟨rt.programId, .intentBook b⟩) (placed : b.order i = some o)
    (unexpired : c.inv.slot < o.expirationSlot) (mine : b.trader o.ownerSeat = some trader) (unsigned : c.inv.isSigner trader = false)
    (undelegated : ∀ x, s.data (rt.address (.session trader)) = .session x → x.isActive c.inv.slot = true →
      c.inv.isSigner x.delegate = false)
    (tidy : ∀ b', (execute rt c s).get k = ⟨rt.programId, .intentBook b'⟩ → Tidy b') (grows : c.instruction.expands = false)
    (unfilled : ¬ (c.OpensFrom s k i ∨ c.MovesThrough s k i)) : OrderAt rt k i o (execute rt c s) := by
  rw [not_or] at unfilled
  have ran := c.ran returns
  have matched : c.instruction = .matchBestAvailable ∨ (∃ args, c.instruction = .matchPair args) → OrderAt rt k i o (execute rt c s) := by
    intro fills
    obtain ⟨ctx, longId, shortId, v, matching⟩ := exists_matches fills ran
    obtain ⟨b', after, left, -⟩ := fate_of_matches matching untried returns held placed tidy
    exact ⟨b', after, left unfilled.1⟩
  have substituted : ∀ args withSettle, c.instruction.substitution = some (args, withSettle) → OrderAt rt k i o (execute rt c s) := by
    intro args withSettle substitutes
    obtain ⟨b', after, left, -⟩ := fate_of_substitution substitutes genuine returns held placed tidy
    exact ⟨b', after, left unfilled.2⟩
  generalize execute rt c s = t at *
  obtain ⟨inv, instr⟩ := c
  have posts : ∀ {post args}, args.tryMatch = 0 → (doPostIntentInner rt inv post args).run s = .ok () t → OrderAt rt k i o t := by
    intro post args still ran
    rw [doPostIntentInner, Exec.bind_ok] at ran
    obtain ⟨id, mid, posted, tried⟩ := ran
    rcases Exec.when_ok.mp tried with ⟨tries, -⟩ | ⟨-, rfl⟩
    · exact absurd still tries
    · exact orderAt_postIntent sound held placed unexpired posted
  cases instr with
  | postIntent args =>
    rw [process, processPostIntent, Exec.bind_ok] at ran
    obtain ⟨post, _, unpacked, ran⟩ := ran
    obtain ⟨rfl, -⟩ := unpackPostIntent_ok unpacked
    exact posts (by simpa [Instruction.triesMatch] using untried) ran
  | postIntentDelegated args =>
    rw [process, processPostIntentDelegated, Exec.bind_ok] at ran
    obtain ⟨post, _, unpacked, ran⟩ := ran
    obtain ⟨rfl, -⟩ := unpackPostIntentDelegated_ok unpacked
    exact posts (by simpa [Instruction.triesMatch] using untried) ran
  | matchPair args => exact matched (.inr ⟨args, rfl⟩)
  | matchBestAvailable => exact matched (.inl rfl)
  | matchSubstitute args => exact substituted args false rfl
  | matchSubstituteWithSettle args => exact substituted args true rfl
  | cancelIntent intentId => exact orderAt_processCancelIntent sound held placed mine unexpired unsigned ran
  | cancelIntentDelegated intentId => exact orderAt_processCancelIntentDelegated sound held placed mine undelegated ran
  | pruneExpired => exact orderAt_processPruneExpired sound held placed unexpired ran
  | claimReentry args => exact orderAt_processClaimReentry sound held placed ran
  | expandIntentBook n => cases grows
  | _ =>
    refine orderAt_of_touches ((within_process rt inv _).keeps.ok ran) ?_ ⟨b, held, placed⟩
    simp [Instruction.writes]

/-- Growing a book leaves the orders of every book. -/
theorem stands_processExpandIntentBook {additionalNodes : UInt32} (tidy : Tidy b) (held : s.get k = ⟨rt.programId, .intentBook b⟩)
    (placed : b.order i = some o) (ran : (processExpandIntentBook rt inv additionalNodes).run s = .ok () t) :
    ∃ b', t.get k = ⟨rt.programId, .intentBook b'⟩ ∧ b'.Stands i o := by
  simp only [processExpandIntentBook, Exec.bind_check, exists_const] at ran
  obtain ⟨-, ran⟩ := ran
  split at ran
  next payer config instrument book system rest _ =>
    simp only [Exec.bind_check, exists_const] at ran
    obtain ⟨-, -, -, -, -, inst, -, -, -, -, ran⟩ := ran
    obtain ⟨c, b', found, inner, rfl⟩ := atBook_ok ran
    by_cases here : k = book
    · subst here
      rw [Ledger.data, held] at found
      cases found
      exact ⟨b', by rw [Ledger.get_setData_self, Ledger.owner, held], Book.stands_expandNodes tidy placed inner⟩
    · exact ⟨b, by rw [Ledger.get_setData_of_ne _ _ here, held], IntentBook.stands_of_tidy tidy placed⟩
  · cases ran

/-- In every run that does not grow the book before: an instruction that is signed neither by the trader of an
unexpired order nor by the delegate of the trader's active session leaves the order in the tree of its side, as it is,
unless it opens a position from it or moves a side of a position through it. Then the order has lost one contract. -/
theorem order_stands {start : Ledger} (gen : Genesis rt start) (calls : List (Call rt)) (book : Pubkey)
    (plain : ∀ past c, past ++ [c] <+: calls → c.returns (runCalls rt past start) = true → ¬ c.Expands book) {c : Call rt}
    (returns : c.returns (runCalls rt calls start) = true) (untried : c.instruction.triesMatch = false) {trader : Pubkey}
    (held : (runCalls rt calls start).get book = ⟨rt.programId, .intentBook b⟩) (placed : b.order i = some o)
    (unexpired : c.inv.slot < o.expirationSlot) (mine : b.trader o.ownerSeat = some trader) (unsigned : c.inv.isSigner trader = false)
    (undelegated : ∀ x, (runCalls rt calls start).data (rt.address (.session trader)) = .session x → x.isActive c.inv.slot = true →
      c.inv.isSigner x.delegate = false) :
    ∃ b', (runCalls rt (calls ++ [c]) start).get book = ⟨rt.programId, .intentBook b'⟩ ∧
      (¬ (c.OpensFrom (runCalls rt calls start) book i ∨ c.MovesThrough (runCalls rt calls start) book i) → b'.Stands i o) ∧
      (c.OpensFrom (runCalls rt calls start) book i ∨ c.MovesThrough (runCalls rt calls start) book i → b'.LosesOne i o) := by
  have reached : Reachable rt (fun _ => True) (runCalls rt calls start) := .runCalls (fun _ _ => trivial) (.genesis gen)
  have genuine := genuine_of_reachable reached
  have founded := (bookInvariant_founded rt).run gen calls plain
  rw [runCalls_concat]
  generalize runCalls rt calls start = s at *
  have sound : ∃ bucket, Sound bucket b := by
    obtain ⟨node, slot, -⟩ := IntentBook.intent_of_order placed
    obtain ⟨config, listed, -⟩ := (founded b held).2.backed i node slot
    exact ⟨_, (founded b held).2.sound fun _ known => known.unique listed⟩
  obtain ⟨bucket, sound⟩ := sound
  cases grows : c.instruction.expands with
  | true =>
    obtain ⟨inv, instr⟩ := c
    cases instr with
    | expandIntentBook n =>
      have ran := Call.ran returns
      obtain ⟨b', after, stands⟩ := stands_processExpandIntentBook sound.consistent.tidy held placed ran
      refine ⟨b', after, fun _ => stands, ?_⟩
      rintro (⟨_, _, _, _, matching, -⟩ | ⟨_, _, _, _, _, _, substitutes, -⟩)
      · cases matching
      · cases substitutes
    | _ => cases grows
  | false =>
    have after : BookAt rt Founded book (execute rt c s) := by
      apply (bookInvariant_founded rt).process genuine founded (c.ran returns) (fun _ => id)
      rintro ⟨n, expands, -⟩
      rw [expands] at grows
      cases grows
    have tidy : ∀ b', (execute rt c s).get book = ⟨rt.programId, .intentBook b'⟩ → Tidy b' := fun b' held' =>
      (after b' held').2.consistent.tidy
    by_cases fills : c.OpensFrom s book i ∨ c.MovesThrough s book i
    · rcases fills with opens | moves
      · obtain ⟨ctx, longId, shortId, v, matching, at_book, -, x, hits⟩ := id opens
        obtain ⟨b', held', -, loses⟩ := fate_of_matches matching untried returns held placed tidy
        exact ⟨b', held', fun none => absurd (.inl opens) none, fun _ => loses x at_book hits⟩
      · obtain ⟨args, withSettle, -, -, -, -, substitutes, -⟩ := id moves
        obtain ⟨b', held', -, loses⟩ := fate_of_substitution substitutes genuine returns held placed tidy
        exact ⟨b', held', fun none => absurd (.inr moves) none, fun _ => loses moves⟩
    · obtain ⟨b', held', left⟩ := orderAt_execute sound genuine returns untried held placed unexpired mine unsigned undelegated tidy
        grows fills
      exact ⟨b', held', fun _ => IntentBook.stands_of_tidy (tidy b' held') left, fun some => absurd some fills⟩

end Ledgers

/-- Bob's order stands when Carol posts. -/
theorem order_stands_posted : ∃ b b' o, (Sample.posted 0 1).get (Sample.book Sample.poly) = ⟨Runtime.sample.programId, .intentBook b⟩ ∧
    b.order 4 = some o ∧
    (execute Runtime.sample (Sample.post Sample.poly Sample.carol 0 1) (Sample.posted 0 1)).get (Sample.book Sample.poly) =
      ⟨Runtime.sample.programId, .intentBook b'⟩ ∧ b'.Stands 4 o := by
  have seen : ((Sample.posted 0 1).data (Sample.book Sample.poly)).loadBook.toOption.bind
      (fun b => (b.order 4).map fun o => (o.expirationSlot, b.trader o.ownerSeat)) = some (100, some Sample.bob) := by
    decide +kernel
  have owned : (Sample.posted 0 1).owner (Sample.book Sample.poly) = Runtime.sample.programId := by decide +kernel
  have ungrown : ∀ c ∈ Sample.launch 0 ++ [Sample.openMarket Sample.poly, Sample.post Sample.poly Sample.alice 0 1,
      Sample.post Sample.poly Sample.bob 1 1], c.instruction.expands = false := by decide +kernel
  have alone : ((Sample.posted 0 1).data (Runtime.sample.address (.session Sample.bob))).loadSession.toOption = none := by
    decide +kernel
  have returns : (Sample.post Sample.poly Sample.carol 0 1).returns (Sample.posted 0 1) = true := by decide +kernel
  cases loaded : ((Sample.posted 0 1).data (Sample.book Sample.poly)).loadBook with
  | error e =>
    rw [loaded] at seen
    cases seen
  | ok b =>
    rw [loaded] at seen
    obtain ⟨o, placed, same⟩ := Option.map_eq_some_iff.mp seen
    obtain ⟨expires, mine⟩ := Prod.mk.inj same
    have held := get_eq_of_data owned (AccountData.loadBook_ok.mp loaded)
    obtain ⟨b', after, stands, -⟩ := order_stands Sample.genesis_genesis _ (Sample.book Sample.poly) (by
      rintro past c reached - ⟨count, grows, -⟩
      have plain := ungrown c (reached.subset (List.mem_append_right past List.mem_cons_self))
      rw [grows] at plain
      cases plain) returns rfl held placed (by rw [expires]; decide) mine rfl (by
      intro x session
      have open_session : ((Sample.posted 0 1).data (Runtime.sample.address (.session Sample.bob))).loadSession = .ok x :=
        AccountData.loadSession_ok.mpr session
      rw [open_session] at alone
      cases alone)
    rw [runCalls_concat] at after
    refine ⟨b, b', o, held, placed, after, stands ?_⟩
    rintro (⟨_, _, _, _, ⟨_, _, -, tries, -⟩, -⟩ | ⟨_, _, _, _, _, _, substitutes, -⟩)
    · exact absurd rfl tries
    · cases substitutes

end Polyleverage
