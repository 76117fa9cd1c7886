import Polyleverage.Guarantees.Books
import Polyleverage.Invariants.BookEvents
import Polyleverage.Invariants.SeatCounts
import Mathlib.Algebra.BigOperators.Group.Finset.Piecewise

/-! # Seat counters

A seat counts the intents that its owner has in the two order trees. Posts, cancels and prunes keep the
counters exact. A fill takes an intent that it uses up out of its tree without telling the seat, so the
counters are exact until the first fill of a last contract.
-/

namespace Polyleverage

open RedBlack Machine

/-! ### What a call fills -/

/-- The pair of these two intents is found in the book, and each has a contract to give. -/
def Book.Consumes (b : IntentBook) (bucket longId shortId nowSlot : ℕ) (p : Book.Pair) : Prop :=
  Book.findPair longId shortId nowSlot b = .ok p ∧ ∃ filled, Book.consume bucket p = .ok filled

/-- A match of these two intents fills the pair: the instrument allows it, and the book can. -/
def FillsPair (rt : Runtime) (s : Ledger) (instrument book : Pubkey) (longId shortId nowSlot : ℕ) (p : Book.Pair) : Prop :=
  ∃ inst b, s.data instrument = .instrumentConfig inst ∧ s.get book = ⟨rt.programId, .intentBook b⟩ ∧
    inst.requireActive = .ok () ∧ inst.intentBook = book ∧
    Book.Consumes b inst.collateralBucket longId shortId nowSlot p

section Calls

variable {rt : Runtime}

/-- The match of the posted intent against the one that it finds fills the pair. -/
def FillsFound (inv : rt.Invocation) (ctx : PostCtx) (args : PostIntentArgs) (s : Ledger) (id : ℕ) (p : Book.Pair) : Prop :=
  7 ≤ (inv.accounts.drop ctx.inlineMatchOffset).length ∧ ∃ b other, s.data ctx.book = .intentBook b ∧
    (Book.findOverlapOnSide (if args.side.toNat = SIDE_LONG then SIDE_SHORT else SIDE_LONG) args.priceFp.toNat inv.slot
      id).run b = .ok (some other) b ∧
    if args.side.toNat = SIDE_LONG then FillsPair rt s ctx.instrument ctx.book id other inv.slot p
    else FillsPair rt s ctx.instrument ctx.book other id inv.slot p

/-- The match that a post tries fills the pair, in the ledger that the post left to it. -/
def FillsInline (inv : rt.Invocation) (ctx : PostCtx) (args : PostIntentArgs) (s : Ledger) (p : Book.Pair) : Prop :=
  args.tryMatch ≠ 0 ∧ ∃ id t, (postIntent rt inv ctx args).run s = .ok id t ∧ FillsFound inv ctx args t id p

/-- A match of these two intents fills the pair in this book, which the call names after its instrument. -/
def FillsNamed (inv : rt.Invocation) (s : Ledger) (book : Pubkey) (longId shortId : ℕ) (p : Book.Pair) : Prop :=
  ∃ instrument, inv.accounts[1]? = some instrument ∧ inv.accounts[2]? = some book ∧
    FillsPair rt s instrument book longId shortId inv.slot p

/-- The call fills the pair in this book. -/
def Call.Fills (c : Call rt) (s : Ledger) (book : Pubkey) (p : Book.Pair) : Prop :=
  match c.instruction with
  | .matchPair args => FillsNamed c.inv s book args.longIntentId.toNat args.shortIntentId.toNat p
  | .matchBestAvailable =>
    ∃ b longId shortId, s.data book = .intentBook b ∧
      (Book.scanForFirstValidPair c.inv.slot).run b = .ok (some (longId, shortId)) b ∧ FillsNamed c.inv s book longId shortId p
  | .matchSubstitute args => FillsNamed c.inv s book args.longIntentId.toNat args.shortIntentId.toNat p
  | .matchSubstituteWithSettle args => FillsNamed c.inv s book args.longIntentId.toNat args.shortIntentId.toNat p
  | .postIntent args =>
    ∃ ctx, (unpackPostIntent rt c.inv).run s = .ok ctx s ∧ ctx.book = book ∧ FillsInline c.inv ctx args s p
  | .postIntentDelegated args =>
    ∃ ctx, (unpackPostIntentDelegated rt c.inv).run s = .ok ctx s ∧ ctx.book = book ∧ FillsInline c.inv ctx args s p
  | _ => False

/-- The call takes the last contract of an intent of this book. -/
def Call.UsesUp (c : Call rt) (s : Ledger) (book : Pubkey) : Prop := ∃ p, c.Fills s book p ∧ p.usesUp

end Calls

/-! ### Exact counters -/

namespace IntentBook

/-- The slot holds an intent of this seat. -/
def holdsIntentOf (b : IntentBook) (seat i : ℕ) : Bool :=
  match b.nodes[i]? with
  | some (.intent node) => node.ownerSeat = seat
  | _ => false

/-- How many of the slots hold an intent of this seat. -/
def intentsOf (b : IntentBook) (seat : ℕ) (slots : List ℕ) : ℕ := slots.countP (b.holdsIntentOf seat)

theorem holdsIntentOf_iff {b : IntentBook} {seat i : ℕ} :
    b.holdsIntentOf seat i = true ↔ ∃ node, b.nodes[i]? = some (.intent node) ∧ node.ownerSeat = seat := by
  unfold holdsIntentOf
  split
  next node slot => simp [slot]
  next other =>
    constructor
    · intro impossible
      cases impossible
    · rintro ⟨node, slot, -⟩
      exact absurd slot (other node)

end IntentBook

/-- The seats count the intents in the trees, and they count enough for whatever is taken out. -/
structure SeatsExact (b : IntentBook) : Prop where
  counts : ∃ longs shorts seats free, Arranged b longs shorts seats free ∧ ∀ (i : ℕ) seat, b.nodes[i]? = some (.seat seat) →
    seat.activeIntentCount = b.intentsOf i (longs.toList ++ shorts.toList)
  enough : ∀ (i : ℕ) seat (slots : List ℕ), b.nodes[i]? = some (.seat seat) → slots.Nodup →
    (∀ j ∈ slots, ∃ node, b.nodes[j]? = some (.intent node) ∧ node.ownerSeat = i) → slots.length ≤ seat.activeIntentCount

section Book

variable {b : IntentBook} {longs shorts seats : RedBlack.Tree ℕ} {free : List ℕ}

theorem Arranged.nodup (arranged : Arranged b longs shorts seats free) : (longs.toList ++ shorts.toList).Nodup :=
  List.nodup_append'.mpr ⟨arranged.longTree.shape.nodup, arranged.shortTree.shape.nodup, arranged.longs_shorts⟩

/-- The two trees hold the intents. -/
theorem Arranged.mem_orders (arranged : Arranged b longs shorts seats free) {i : ℕ} :
    i ∈ longs.toList ++ shorts.toList ↔ ∃ node, b.nodes[i]? = some (.intent node) := by
  rw [List.mem_append]
  constructor
  · rintro (long | short)
    · obtain ⟨node, slot, -⟩ := arranged.in_longs i long
      exact ⟨node, slot⟩
    · obtain ⟨node, slot, -⟩ := arranged.in_shorts i short
      exact ⟨node, slot⟩
  · rintro ⟨node, slot⟩
    rcases arranged.tagged_intent i node slot with ⟨-, long⟩ | ⟨-, short⟩
    · exact .inl long
    · exact .inr short

/-- What the trees hold of a seat's intents is what the book shows of its orders. -/
theorem intentsOf_eq (tidy : Tidy b) (arranged : Arranged b longs shorts seats free) (seat : ℕ) :
    b.intentsOf seat (longs.toList ++ shorts.toList) = b.view.ordersOf seat := by
  have weights : ∀ i, ((b.order i).elim 0 fun o => if o.ownerSeat = seat then 1 else 0) =
      if b.holdsIntentOf seat i = true then 1 else 0 := by
    intro i
    unfold IntentBook.order IntentBook.holdsIntentOf
    cases slot : b.nodes[i]? with
    | none => rfl
    | some raw =>
      cases raw with
      | intent node =>
        simp only [decide_eq_true_eq]
        rfl
      | _ => rfl
  have sum : b.view.ordersOf seat = ((Finset.range b.header.capacity).filter fun i => b.holdsIntentOf seat i = true).card := by
    rw [Finset.card_filter, BookView.ordersOf, BookView.tally]
    exact Finset.sum_congr rfl fun i _ => weights i
  have slots : ((longs.toList ++ shorts.toList).filter (b.holdsIntentOf seat)).toFinset =
      (Finset.range b.header.capacity).filter fun i => b.holdsIntentOf seat i = true := by
    ext i
    simp only [List.mem_toFinset, List.mem_filter, Finset.mem_filter, Finset.mem_range]
    apply and_congr_left
    intro owned
    obtain ⟨node, slot, -⟩ := IntentBook.holdsIntentOf_iff.mp owned
    exact iff_of_true (arranged.mem_orders.mpr ⟨node, slot⟩) (tidy.intent_lt slot)
  rw [sum, ← slots, List.toFinset_card_of_nodup (arranged.nodup.filter _), ← List.countP_eq_length_filter]
  rfl

theorem seatsExact_iff (consistent : Consistent b) : SeatsExact b ↔ Counted b := by
  constructor
  · rintro ⟨⟨longs, shorts, seats, free, arranged, exact_⟩, -⟩ i n count
    obtain ⟨seat, slot, rfl⟩ := IntentBook.seat_of_count count
    rw [exact_ i seat slot, intentsOf_eq consistent.tidy arranged]
  · intro counted
    obtain ⟨longs, shorts, seats, free, arranged⟩ := arranged_of_consistent consistent
    have counts : ∀ (i : ℕ) seat, b.nodes[i]? = some (.seat seat) →
        seat.activeIntentCount = b.intentsOf i (longs.toList ++ shorts.toList) := by
      intro i seat slot
      rw [intentsOf_eq consistent.tidy arranged]
      exact counted i _ (IntentBook.count_of_seat slot)
    refine ⟨⟨longs, shorts, seats, free, arranged, counts⟩, ?_⟩
    intro i seat slots slot nodup owned
    rw [counts i seat slot, IntentBook.intentsOf, List.countP_eq_length_filter]
    apply List.Subperm.length_le
    apply nodup.subperm
    intro j member
    obtain ⟨node, there, mine⟩ := owned j member
    exact List.mem_filter.mpr ⟨arranged.mem_orders.mpr ⟨node, there⟩, IntentBook.holdsIntentOf_iff.mpr ⟨node, there, mine⟩⟩

end Book

/-- A book without intents, a seat of which counts some. -/
def AccountData.miscounts : AccountData → Bool
  | .intentBook b => (b.nodes.any fun raw => raw.count.getD 0 ≠ 0) && b.nodes.all fun raw => raw.order.isNone
  | _ => false

theorem not_seatsExact {b : IntentBook} (wrong : (AccountData.intentBook b).miscounts = true) : ¬ SeatsExact b := by
  rintro ⟨⟨longs, shorts, seats, free, -, exact_⟩, -⟩
  obtain ⟨counts, none⟩ := Bool.and_eq_true_iff.mp wrong
  obtain ⟨raw, member, positive⟩ := List.any_eq_true.mp counts
  obtain ⟨i, slot⟩ := List.mem_iff_getElem?.mp member
  have count : b.count i = raw.count := by rw [IntentBook.count, slot, Option.bind_some]
  cases known : raw.count with
  | none => simp [known] at positive
  | some n =>
    rw [known] at count positive
    obtain ⟨seat, slot, rfl⟩ := IntentBook.seat_of_count count
    have zero : b.intentsOf i (longs.toList ++ shorts.toList) = 0 := by
      rw [IntentBook.intentsOf, List.countP_eq_zero]
      intro j _ holds
      obtain ⟨node, there, -⟩ := IntentBook.holdsIntentOf_iff.mp holds
      have absent := List.all_eq_true.mp none _ (List.mem_of_getElem? there)
      cases absent
    rw [exact_ i seat slot, zero] at positive
    simp at positive

/-- Before the match, the seats count what there is. -/
example : ((Sample.posted 0 1).data (Sample.book Sample.poly)).miscounts = false := by decide +kernel

namespace Sample

/-- Both intents of the trade are used up, and both seats still count one. -/
theorem traded_miscounts : ∃ b, traded.get (book poly) = ⟨Runtime.sample.programId, .intentBook b⟩ ∧ ¬ SeatsExact b := by
  have owned : traded.owner (book poly) = Runtime.sample.programId := by decide +kernel
  have wrong : (traded.data (book poly)).miscounts = true := by decide +kernel
  cases held : traded.data (book poly) with
  | intentBook b => exact ⟨b, get_eq_of_data owned held, not_seatsExact (held ▸ wrong)⟩
  | _ => simp [held, AccountData.miscounts] at wrong

end Sample

/-! ### What an instruction does to the counters -/

section Ledger

variable {rt : Runtime} {inv : rt.Invocation} {s t v : Ledger} {k book : Pubkey} {used : Prop}

/-- The book at this key stays consistent, and its counters stay exact unless an intent is used up. -/
def Recounts (rt : Runtime) (k : Pubkey) (used : Prop) (s t : Ledger) : Prop :=
  ∀ b, s.get k = ⟨rt.programId, .intentBook b⟩ → Consistent b →
    ∃ b', t.get k = ⟨rt.programId, .intentBook b'⟩ ∧ Consistent b' ∧ (Counted b → (Counted b' ↔ ¬ used))

/-- What keeps the counters exact may come first. -/
theorem Recounts.trans (first : Recounts rt k False s t) (next : Recounts rt k used t v) : Recounts rt k used s v := by
  intro b held consistent
  obtain ⟨b1, held1, consistent1, counted1⟩ := first b held consistent
  obtain ⟨b2, held2, consistent2, counted2⟩ := next b1 held1 consistent1
  exact ⟨b2, held2, consistent2, fun counted => counted2 ((counted1 counted).mpr not_false)⟩

theorem recounts_of_get_eq (same : t.get k = s.get k) : Recounts rt k False s t := fun b held consistent =>
  ⟨b, same.trans held, consistent, fun counted => iff_of_true counted not_false⟩

theorem recounts_of_touches {old new : List AccountKind} (touches : Touches old new s t)
    (unwritten : AccountKind.intentBook ∉ old) : Recounts rt k False s t := fun b held consistent =>
  ⟨b, kept_of_touches touches unwritten held, consistent, fun counted => iff_of_true counted not_false⟩

/-- What leaves books alone may follow. -/
theorem Recounts.touches {old new : List AccountKind} (first : Recounts rt k used s t) (touches : Touches old new t v)
    (unwritten : AccountKind.intentBook ∉ old) : Recounts rt k used s v := by
  intro b held consistent
  obtain ⟨b1, held1, consistent1, counted1⟩ := first b held consistent
  exact ⟨b1, kept_of_touches touches unwritten held1, consistent1, counted1⟩

/-- A program on another book. -/
theorem recounts_elsewhere {α : Type} {m : BookM α} {a : α} (ran : (atBook rt inv book m).run s = .ok a t) (other : k ≠ book) :
    Recounts rt k False s t := by
  obtain ⟨b, b', -, -, rfl, -⟩ := atAccount_ok ran
  exact recounts_of_get_eq (Ledger.get_setData_of_ne _ _ other)

/-- A program on the book itself. -/
theorem recounts_here {α : Type} {m : BookM α} {a : α} (ran : (atBook rt inv k m).run s = .ok a t)
    (step : ∀ b b', s.get k = ⟨rt.programId, .intentBook b⟩ → Consistent b → m.run b = .ok a b' →
      Consistent b' ∧ (Counted b → (Counted b' ↔ ¬ used))) : Recounts rt k used s t := by
  obtain ⟨b, b', found, inner, rfl, -⟩ := atAccount_ok ran
  rw [AccountData.loadBook_ok] at found
  intro b0 held consistent
  rw [Ledger.data, held] at found
  cases found
  refine ⟨b', ?_, step b b' held consistent inner⟩
  rw [Ledger.get_setData_self, Ledger.owner, held]

/-- A program that keeps the counters of any book exact. -/
theorem recounts_atBook {α : Type} {m : BookM α} {a : α} (ran : (atBook rt inv book m).run s = .ok a t)
    (step : ∀ b b', s.data book = .intentBook b → Consistent b → m.run b = .ok a b' → StaysCounted b b') :
    Recounts rt k False s t := by
  by_cases here : k = book
  · subst here
    refine recounts_here ran fun b b' found consistent inner => ?_
    have stays := step b b' (congrArg Account.data found) consistent inner
    exact ⟨stays.consistent, fun counted => iff_of_true (stays.counted counted) not_false⟩
  · exact recounts_elsewhere ran here

/-! ### Posts, cancels and prunes -/

theorem recounts_postIntent {ctx : PostCtx} {args : PostIntentArgs} {id : ℕ} (ran : (postIntent rt inv ctx args).run s = .ok id t) :
    Recounts rt k False s t := by
  obtain ⟨posting⟩ := postIntent_ok ran
  intro b held consistent
  by_cases here : k = ctx.book
  · subst here
    have found := posting.book_eq
    rw [Ledger.data, held] at found
    cases found
    have pruned := staysCounted_pruneOwnExpired consistent posting.pruned
    have posted := staysCounted_post pruned.consistent posting.isSide posting.posted
    have both := pruned.trans posted
    exact ⟨posting.b2, posting.book_after, both.consistent, fun counted => iff_of_true (both.counted counted) not_false⟩
  · refine recounts_of_get_eq (posting.others k here ?_ ?_) b held consistent
    · rintro rfl
      have found := posting.margin_eq
      rw [Ledger.data, held] at found
      cases found
    · intro session
      have charged := posting.charged
      rw [session] at charged
      obtain ⟨x, x', found, -⟩ := charged
      rw [Ledger.data, held] at found
      cases found

theorem staysCounted_cancelInBook {b b' : IntentBook} (consistent : Consistent b) {margin mint : Pubkey} {intentId : ℕ}
    {authorize : Pubkey → IntentNode → Except ProgramError Unit} {refund : Refund}
    (ran : (cancelInBook rt margin mint intentId authorize).run b = .ok refund b') : StaysCounted b b' := by
  rw [cancelInBook, Exec.bind_check] at ran
  obtain ⟨⟨idx, side⟩, found, ran⟩ := ran
  simp only [Exec.bind_check] at ran
  obtain ⟨node, slot, seat, -, _, -, _, -, ran⟩ := ran
  obtain ⟨node', slot', -, rfl⟩ := (Book.findIntentById_ok consistent).mp found
  rw [IntentBook.intent_eq_ok, slot'] at slot
  cases slot
  simp only [Exec.bind_ok, Exec.ofExcept_ok, Exec.pure_ok] at ran
  obtain ⟨_, b1, cancelled, _, _, ⟨-, rfl⟩, -, rfl⟩ := ran
  exact staysCounted_cancel consistent slot' cancelled

theorem recounts_cancelIntent {instrument margin : Pubkey} {intentId : ℕ} {u : Unit}
    {authorize : Pubkey → IntentNode → Except ProgramError Unit}
    (ran : (cancelIntent rt inv instrument book margin intentId authorize).run s = .ok u t) : Recounts rt k False s t := by
  simp only [cancelIntent, Exec.bind_check, exists_const] at ran
  obtain ⟨inst, -, -, ran⟩ := ran
  rw [Exec.bind_ok] at ran
  obtain ⟨refund, s1, cancelled, refunded⟩ := ran
  have first : Recounts rt k False s s1 :=
    recounts_atBook cancelled fun b b' _ consistent inner => staysCounted_cancelInBook consistent inner
  have rest : Touches [.marginAccount] [.marginAccount] s1 t := Within.keeps.ok refunded
  exact first.touches rest (by simp)

theorem recounts_processCancelIntent {intentId : UInt64} (ran : (processCancelIntent rt inv intentId).run s = .ok () t) :
    Recounts rt k False s t := by
  unfold processCancelIntent at ran
  split at ran
  · simp only [Exec.bind_check, exists_const] at ran
    obtain ⟨-, -, -, -, ran⟩ := ran
    exact recounts_cancelIntent ran
  · cases ran

theorem recounts_processCancelIntentDelegated {intentId : UInt64}
    (ran : (processCancelIntentDelegated rt inv intentId).run s = .ok () t) : Recounts rt k False s t := by
  unfold processCancelIntentDelegated at ran
  split at ran
  · simp only [Exec.bind_check, exists_const] at ran
    obtain ⟨-, -, -, -, -, -, owner, -, ran⟩ := ran
    exact recounts_cancelIntent ran
  · cases ran

theorem staysCounted_pruneSlot {b b' : IntentBook} {i : ℕ} {o : IntentNode} {u : Unit} (consistent : Consistent b)
    (placed : b.order i = some o) (ran : (pruneSlot i o.side).run b = .ok u b') : StaysCounted b b' := by
  obtain ⟨node, slot, rfl⟩ := IntentBook.intent_of_order placed
  simp only [pruneSlot, Exec.bind_check] at ran
  obtain ⟨node', slot', ran⟩ := ran
  rw [IntentBook.intent_eq_ok, slot] at slot'
  cases slot'
  exact staysCounted_cancel consistent slot ran

theorem recounts_pruneAll_elsewhere {mint : Pubkey} {work : List (ℕ × IntentNode × Pubkey × ℕ)} {margins : List Pubkey} {u : Unit}
    (other : k ≠ book) (ran : (pruneAll rt inv book mint work margins).run s = .ok u t) : Recounts rt k False s t := by
  induction work generalizing s margins with
  | nil =>
    obtain ⟨-, rfl⟩ := Exec.pure_ok.mp ran
    exact recounts_of_get_eq rfl
  | cons entry work ih =>
    obtain ⟨s1, s2, rest, refunded, pruned, ran⟩ := pruneAll_cons ran
    exact (recounts_of_touches refunded (by simp)).trans ((recounts_elsewhere pruned other).trans (ih ran))

theorem recounts_pruneAll_here {mint : Pubkey} {work : List (ℕ × IntentNode × Pubkey × ℕ)} {margins : List Pubkey} {u : Unit}
    (measured : ∀ b, s.data k = .intentBook b → Measured b work)
    (ran : (pruneAll rt inv k mint work margins).run s = .ok u t) : Recounts rt k False s t := by
  induction work generalizing s margins with
  | nil =>
    obtain ⟨-, rfl⟩ := Exec.pure_ok.mp ran
    exact recounts_of_get_eq rfl
  | cons entry work ih =>
    obtain ⟨s1, s2, rest, refunded, pruned, ran⟩ := pruneAll_cons ran
    intro b held consistent
    have work_in : Measured b (entry :: work) := measured b (congrArg Account.data held)
    have placed := (work_in.1 entry.1 entry.2.1 entry.2.2.1 entry.2.2.2 List.mem_cons_self).1
    have first : Recounts rt k False s s1 := recounts_of_touches refunded (by simp)
    have held1 : s1.get k = ⟨rt.programId, .intentBook b⟩ := kept_of_touches refunded (by simp) held
    obtain ⟨b0, b1, found, inner, rfl, -⟩ := atAccount_ok pruned
    rw [AccountData.loadBook_ok, Ledger.data, held1] at found
    cases found
    have second : Recounts rt k False s1 (s1.setData k (.intentBook b1)) := by
      refine recounts_here pruned fun c c' at_k consistent ran => ?_
      rw [held1] at at_k
      cases at_k
      have stays := staysCounted_pruneSlot consistent placed ran
      exact ⟨stays.consistent, fun counted => iff_of_true (stays.counted counted) not_false⟩
    refine first.trans (second.trans (ih (fun c at_k => ?_) ran)) b held consistent
    rw [Ledger.data_setData_self] at at_k
    cases at_k
    exact work_in.tail (pruneSlot_ok consistent.tidy placed inner)

theorem recounts_processPruneExpired (ran : (processPruneExpired rt inv).run s = .ok () t) : Recounts rt k False s t := by
  unfold processPruneExpired at ran
  split at ran
  next caller instrument book margins _ =>
    simp only [Exec.bind_check, exists_const] at ran
    obtain ⟨-, -, -, inst, -, -, b, found, work, scanned, ran⟩ := ran
    by_cases here : k = book
    · subst here
      refine recounts_pruneAll_here (fun b' at_k => ?_) ran
      rw [at_k] at found
      cases found
      exact measured_of_scan scanned
    · exact recounts_pruneAll_elsewhere here ran
  · cases ran

theorem recounts_processClaimReentry {args : ClaimReentryArgs} (ran : (processClaimReentry rt inv args).run s = .ok () t) :
    Recounts rt k False s t := by
  have cleared : ∀ {pmlc side u v w}, (clearReentry rt inv pmlc side).run v = .ok u w → Recounts rt k False v w := by
    intro pmlc side u v w ran
    have touches : Touches [.pmlc] [.pmlc] v w := Within.keeps.ok ran
    exact recounts_of_touches touches (by simp)
  unfold processClaimReentry at ran
  split at ran
  next owner config pmlc instrument book margin rest _ =>
    simp only [Exec.bind_check, exists_const, ne_eq, not_not] at ran
    obtain ⟨-, -, -, -, -, -, -, side, p, -, -, -, -, -, inst, -, -, -, -, -, -, _, -, m, -, -, -, ran⟩ := ran
    split at ran
    · exact cleared ran
    · simp only [Exec.bind_check] at ran
      obtain ⟨b, -, contracts, -, ran⟩ := ran
      split at ran
      · exact cleared ran
      · simp only [reenter, Exec.bind_check] at ran
        obtain ⟨⟨reservedCollateral, feeBuffer, totalReserve⟩, -, ran⟩ := ran
        simp only [Exec.bind_ok] at ran
        obtain ⟨_, s1, reserves, id, s2, posted, ran⟩ := ran
        have first : Touches [.marginAccount] [.marginAccount] s s1 := Within.keeps.ok reserves
        have isSide : IsSide args.side.toNat := by
          by_contra neither
          exact side ⟨fun long => neither (.inl long), fun short => neither (.inr short)⟩
        have second : Recounts rt k False s1 s2 :=
          recounts_atBook posted fun _ _ _ consistent inner => staysCounted_post consistent isSide inner
        exact (recounts_of_touches first (by simp)).trans (second.trans (cleared ran))
  · cases ran

/-! ### Fills -/

/-- Some numbers were used up, and nothing else happened. -/
def Renumbered (b b' : IntentBook) : Prop :=
  ∃ id, b.header.nextIntentId ≤ id ∧ b' = { b with header := { b.header with nextIntentId := id } }

instance : Std.Refl Renumbered := ⟨fun b => ⟨b.header.nextIntentId, le_refl _, rfl⟩⟩

instance : IsTrans IntentBook Renumbered where
  trans := by
    rintro b _ _ ⟨id, le, rfl⟩ ⟨id', le', rfl⟩
    exact ⟨id', le.trans le', rfl⟩

instance : Exec.Keeping Renumbered IntentBook.nextIntentId where
  keeps := Exec.keeps_bind_get fun b b' left => by
    rcases Exec.left_bind_check left with rfl | ⟨id, next, left⟩
    · exact Std.Refl.refl _
    · cases left
      obtain ⟨-, rfl⟩ := checkedAdd_eq_some.mp next
      exact ⟨_, Nat.le_succ _, rfl⟩

theorem Renumbered.consistent {b b' : IntentBook} (renumbered : Renumbered b b') (consistent : Consistent b) : Consistent b' := by
  obtain ⟨id, le, rfl⟩ := renumbered
  refine ⟨consistent.tidy.counters id b.header.nextSeq, ?_⟩
  apply consistent.orderly.mono
  · exact le
  · exact le_refl _
  · exact fun _ _ seated => seated
  · exact fun _ o placed => ⟨o, placed, rfl, rfl, rfl⟩

theorem Renumbered.counted_iff {b b' : IntentBook} (renumbered : Renumbered b b') : Counted b' ↔ Counted b := by
  obtain ⟨id, -, rfl⟩ := renumbered
  rfl

/-- However the book part of a match ends, it has tried to write a pair that it could consume, or it left the book
alone. -/
theorem matchInBook_left {b b' : IntentBook} {instrument pmlc : Pubkey} {bucket longId shortId nowSlot : ℕ}
    (left : b' ∈ ((matchInBook rt instrument pmlc bucket longId shortId nowSlot).run b).state?) :
    (b' = b ∧ ∀ p, ¬ Book.Consumes b bucket longId shortId nowSlot p) ∨
      ∃ p q longRelease shortRelease b1, Book.findPair longId shortId nowSlot b = .ok p ∧
        Book.consume bucket p = .ok (q, longRelease, shortRelease) ∧ b1 ∈ ((Book.writePair q).run b).state? ∧
        Renumbered b1 b' := by
  rw [matchInBook] at left
  rcases Exec.left_bind_decided left with ⟨same, none⟩ | ⟨p, paired, left⟩
  · exact .inl ⟨same, fun p consumes => none p consumes.1⟩
  rcases Exec.left_bind_decided left with ⟨same, none⟩ | ⟨⟨q, longRelease, shortRelease⟩, consumed, left⟩
  · refine .inl ⟨same, fun p' consumes => ?_⟩
    obtain ⟨paired', filled, consumed⟩ := consumes
    rw [paired] at paired'
    cases paired'
    exact none filled consumed
  refine .inr ⟨p, q, longRelease, shortRelease, ?_⟩
  rcases Exec.left_bind left with ⟨e, failed⟩ | ⟨_, b1, written, left⟩
  · exact ⟨b', paired, consumed, by rw [failed]; rfl, Std.Refl.refl b'⟩
  · exact ⟨b1, paired, consumed, by rw [written]; rfl, Exec.Keeping.keeps _ b' left⟩

/-- However the book part of a match ends, the counters are exact unless it consumed a last contract. -/
theorem counted_matchInBook {b b' : IntentBook} (consistent : Consistent b) {instrument pmlc : Pubkey}
    {bucket longId shortId nowSlot : ℕ} (left : b' ∈ ((matchInBook rt instrument pmlc bucket longId shortId nowSlot).run b).state?) :
    Consistent b' ∧
      (Counted b → (Counted b' ↔ ¬ ∃ p, Book.Consumes b bucket longId shortId nowSlot p ∧ p.usesUp)) := by
  rcases matchInBook_left left with ⟨rfl, none⟩ | ⟨p, q, longRelease, shortRelease, b1, paired, consumed, written, renumbered⟩
  · exact ⟨consistent, fun counted => iff_of_true counted fun ⟨p, consumes, _⟩ => none p consumes⟩
  obtain ⟨found, -, -⟩ := (Book.findPair_ok consistent).mp paired
  obtain ⟨rfl, -⟩ := Book.consume_ok consumed
  obtain ⟨b2, ran, -, -⟩ := Book.run_writePair consistent.tidy found bucket longRelease shortRelease
  rw [ran] at written
  cases written
  obtain ⟨consistent1, counted1⟩ := Book.counted_writePair consistent found consumed ran
  refine ⟨renumbered.consistent consistent1, fun counted => ?_⟩
  rw [renumbered.counted_iff, counted1 counted, not_iff_not]
  constructor
  · intro used
    exact ⟨p, ⟨paired, _, consumed⟩, used⟩
  · rintro ⟨r, ⟨paired', -⟩, used⟩
    rw [paired] at paired'
    cases paired'
    exact used

theorem Recounts.unused (kept : Recounts rt k False s t) (none : ¬ used) : Recounts rt k used s t := by
  intro b held consistent
  obtain ⟨b', held', consistent', counted⟩ := kept b held consistent
  exact ⟨b', held', consistent', fun exact_ => iff_of_true ((counted exact_).mpr not_false) none⟩

/-- However a match ends, it has tried to fill a pair that it could fill, or it has left everything alone. What follows
the book part leaves books alone. -/
theorem matchPairCore_left {ctx : MatchCtx} {longId shortId : ℕ}
    (left : t ∈ ((matchPairCore rt inv ctx longId shortId).run s).state?) :
    ((∀ k, t.get k = s.get k) ∧ ∀ p, ¬ FillsPair rt s ctx.instrument ctx.book longId shortId inv.slot p) ∨
      ∃ inst b b', s.data ctx.instrument = .instrumentConfig inst ∧ inst.requireActive = .ok () ∧
        inst.intentBook = ctx.book ∧ s.data ctx.book = .intentBook b ∧
        (∃ p, Book.Consumes b inst.collateralBucket longId shortId inv.slot p) ∧
        b' ∈ ((matchInBook rt ctx.instrument ctx.pmlc inst.collateralBucket longId shortId inv.slot).run b).state? ∧
        Touches [.marginAccount, .userVolume, .feeTreasury, .raw] [.marginAccount, .userVolume, .feeTreasury, .raw, .pmlc]
          (s.setData ctx.book (.intentBook b')) t := by
  rw [matchPairCore] at left
  rcases Exec.left_bind_decided left with ⟨rfl, none⟩ | ⟨inst, found, left⟩
  · refine .inl ⟨fun _ => rfl, ?_⟩
    rintro p ⟨inst, -, held, -⟩
    exact none inst held
  have only : ∀ {x : InstrumentConfig}, s.data ctx.instrument = .instrumentConfig x → x = inst := by
    intro x held
    rw [found] at held
    cases held
    rfl
  rcases Exec.left_bind_decided left with ⟨rfl, none⟩ | ⟨_, active, left⟩
  · refine .inl ⟨fun _ => rfl, ?_⟩
    rintro p ⟨x, -, held, -, active, -⟩
    exact none () (only held ▸ active)
  rcases Exec.left_bind_decided left with ⟨rfl, none⟩ | ⟨_, at_book, left⟩
  · refine .inl ⟨fun _ => rfl, ?_⟩
    rintro p ⟨x, -, held, -, -, at_book, -⟩
    exact none () (not_not.mpr (only held ▸ at_book))
  rw [not_not] at at_book
  rcases Exec.left_bind left with ⟨e, failed⟩ | ⟨r, s1, matched, left⟩
  · rcases atBook_left (by rw [failed]; rfl : t ∈ _) with ⟨rfl, none⟩ | ⟨b, b', held, inner, rfl⟩
    · refine .inl ⟨fun _ => rfl, ?_⟩
      rintro p ⟨-, b, -, held, -⟩
      exact none b (congrArg Account.data held)
    rcases matchInBook_left inner with ⟨rfl, none⟩ | ⟨p, q, longRelease, shortRelease, b1, paired, consumed, -⟩
    · refine .inl ⟨fun k => ?_, ?_⟩
      · rw [← held]
        exact get_setData_data s ctx.book k
      · rintro p ⟨x, c, held_inst, held_book, -, -, consumes⟩
        cases held.symm.trans (congrArg Account.data held_book)
        exact none p (only held_inst ▸ consumes)
    · exact .inr ⟨inst, b, b', found, active, at_book, held, ⟨p, paired, _, consumed⟩, inner, Std.Refl.refl _⟩
  · obtain ⟨b, b', held, inner, rfl, -⟩ := atAccount_ok matched
    have consumes : ∃ p, Book.Consumes b inst.collateralBucket longId shortId inv.slot p := by
      simp only [matchInBook, Exec.bind_check] at inner
      obtain ⟨p, paired, filled, consumed, -⟩ := inner
      exact ⟨p, paired, filled, consumed⟩
    refine .inr ⟨inst, b, b', found, active, at_book, AccountData.loadBook_ok.mp held, consumes, by rw [inner]; rfl, ?_⟩
    refine @Within.keeps _ _ _ _ ?_ _ t left
    repeat with_reducible refine within_bind inferInstance fun _ => ?_
    infer_instance

/-- However a match ends, the counters are exact unless it consumed a last contract. -/
theorem recounts_matchPairCore {ctx : MatchCtx} {longId shortId : ℕ}
    (left : t ∈ ((matchPairCore rt inv ctx longId shortId).run s).state?) :
    Recounts rt k (ctx.book = k ∧ ∃ p, FillsPair rt s ctx.instrument ctx.book longId shortId inv.slot p ∧ p.usesUp) s t := by
  rcases matchPairCore_left left with ⟨same, none⟩ | ⟨inst, b, b', found, active, at_book, held_book, -, inner, rest⟩
  · apply (recounts_of_get_eq (same k)).unused
    rintro ⟨-, p, fills, -⟩
    exact none p fills
  refine Recounts.touches ?_ rest (by simp)
  by_cases here : ctx.book = k
  · subst here
    intro b0 held consistent
    rw [Ledger.data, held] at held_book
    cases held_book
    obtain ⟨consistent', counted⟩ := counted_matchInBook consistent inner
    refine ⟨b', by rw [Ledger.get_setData_self, Ledger.owner, held], consistent', fun exact_ => ?_⟩
    rw [counted exact_, not_iff_not]
    constructor
    · rintro ⟨p, consumes, uses⟩
      exact ⟨rfl, p, ⟨inst, b, found, held, active, at_book, consumes⟩, uses⟩
    · rintro ⟨-, p, ⟨x, c, held_inst, held_book, -, -, consumes⟩, uses⟩
      rw [found] at held_inst
      cases held_inst
      rw [held] at held_book
      cases held_book
      exact ⟨p, consumes, uses⟩
  · exact (recounts_of_get_eq (Ledger.get_setData_of_ne _ _ (Ne.symm here))).unused fun both => here both.1

theorem fillsPair_congr {instrument : Pubkey} {longId shortId nowSlot : ℕ} {p : Book.Pair} (same : ∀ j, t.get j = s.get j) :
    FillsPair rt t instrument book longId shortId nowSlot p ↔ FillsPair rt s instrument book longId shortId nowSlot p := by
  rw [FillsPair, FillsPair, same, Ledger.data, same]
  rfl

theorem recounts_inlineMatch {ctx : PostCtx} {args : PostIntentArgs} {id : ℕ} {u : Unit}
    (ran : (inlineMatch rt inv ctx args id).run s = .ok u t) :
    Recounts rt k (ctx.book = k ∧ ∃ p, FillsFound inv ctx args s id p ∧ p.usesUp) s t := by
  unfold inlineMatch at ran
  split at ran
  next counterpartyMargin pmlc system sched takerVolume makerVolume treasury rest accounts =>
    have enough : 7 ≤ (inv.accounts.drop ctx.inlineMatchOffset).length := by
      rw [accounts]
      simp
    rw [Exec.bind_ok] at ran
    obtain ⟨counterparty, s1, looked, ran⟩ := ran
    obtain ⟨b, b', found, inner, rfl, -⟩ := atAccount_ok looked
    obtain rfl : b = b' := (keeps_findOverlapOnSide _ _ _ _).ok inner
    rw [AccountData.loadBook_ok] at found
    have same : ∀ j, (s.setData ctx.book (.intentBook b)).get j = s.get j := by
      rw [← found]
      exact get_setData_data s ctx.book
    refine (recounts_of_get_eq (same k)).trans ?_
    -- The pair is told by the intent that was found.
    have only : ∀ p, FillsFound inv ctx args s id p ↔ ∃ other, counterparty = some other ∧
        if args.side.toNat = SIDE_LONG then FillsPair rt s ctx.instrument ctx.book id other inv.slot p
        else FillsPair rt s ctx.instrument ctx.book other id inv.slot p := by
      intro p
      constructor
      · rintro ⟨-, c, other, held, overlap, fills⟩
        rw [found] at held
        cases held
        rw [inner] at overlap
        cases overlap
        exact ⟨other, rfl, fills⟩
      · rintro ⟨other, rfl, fills⟩
        exact ⟨enough, b, other, found, inner, fills⟩
    simp only [only]
    cases counterparty with
    | none =>
      obtain ⟨-, rfl⟩ := Exec.pure_ok.mp ran
      refine (recounts_of_get_eq rfl).unused ?_
      rintro ⟨-, p, ⟨other, impossible, -⟩, -⟩
      cases impossible
    | some other =>
      simp only [Exec.bind_ok, Exec.pure_ok] at ran
      obtain ⟨caught, s2, swallowed, -, rfl⟩ := ran
      have left : s2 ∈ ((inlineMatchPair rt inv (inlineMatchCtx ctx args counterpartyMargin pmlc sched takerVolume
          makerVolume treasury) args id other).run (s.setData ctx.book (.intentBook b))).state? := by
        rcases Exec.swallow_ok.mp swallowed with ⟨-, matched⟩ | ⟨e, -, failed⟩
        · rw [matched]
          rfl
        · rw [failed]
          rfl
      unfold inlineMatchPair at left
      simp only [Option.some.injEq, exists_eq_left']
      split at left
      next long =>
        simp only [if_pos long, ← fillsPair_congr same]
        exact recounts_matchPairCore left
      next short =>
        simp only [if_neg short, ← fillsPair_congr same]
        exact recounts_matchPairCore left
  next short =>
    obtain ⟨-, rfl⟩ := Exec.pure_ok.mp ran
    refine (recounts_of_get_eq rfl).unused ?_
    rintro ⟨-, p, ⟨enough, -⟩, -⟩
    rcases found : inv.accounts.drop ctx.inlineMatchOffset with _ | ⟨_, _ | ⟨_, _ | ⟨_, _ | ⟨_, _ | ⟨_, _ | ⟨_, _ | ⟨_, _⟩⟩⟩⟩⟩⟩⟩
    all_goals rw [found] at enough short
    all_goals first | exact short _ _ _ _ _ _ _ _ rfl | simp at enough

theorem recounts_doPostIntentInner {ctx : PostCtx} {args : PostIntentArgs} {u : Unit}
    (ran : (doPostIntentInner rt inv ctx args).run s = .ok u t) :
    Recounts rt k (ctx.book = k ∧ ∃ p, FillsInline inv ctx args s p ∧ p.usesUp) s t := by
  rw [doPostIntentInner, Exec.bind_ok] at ran
  obtain ⟨id, mid, posted, matched⟩ := ran
  have only : ∀ p, FillsInline inv ctx args s p ↔ args.tryMatch ≠ 0 ∧ FillsFound inv ctx args mid id p := by
    intro p
    constructor
    · rintro ⟨tries, id', t', posted', fills⟩
      rw [posted] at posted'
      cases posted'
      exact ⟨tries, fills⟩
    · rintro ⟨tries, fills⟩
      exact ⟨tries, id, mid, posted, fills⟩
  refine (recounts_postIntent posted).trans ?_
  simp only [only]
  rcases Exec.when_ok.mp matched with ⟨tries, matched⟩ | ⟨still, rfl⟩
  · simp only [tries, ne_eq, not_false_eq_true, true_and]
    exact recounts_inlineMatch matched
  · apply (recounts_of_get_eq rfl).unused
    rintro ⟨-, p, ⟨tries, -⟩, -⟩
    exact still tries

/-! ### Every instruction -/

theorem accounts_of_unpackMatchAccounts {ctx : MatchCtx} (ran : (unpackMatchAccounts rt inv).run s = .ok ctx t) :
    s = t ∧ ∃ rest, inv.accounts = ctx.payer :: ctx.instrument :: ctx.book :: rest := by
  unfold unpackMatchAccounts at ran
  split at ran
  next payer instrument book longMargin shortMargin pmlc system rest accounts =>
    simp only [Exec.bind_check, exists_const] at ran
    obtain ⟨-, -, -, -, -, -, -, ran⟩ := ran
    split at ran
    · simp only [Exec.bind_check, exists_const] at ran
      obtain ⟨-, -, -, -, _, -, ran⟩ := ran
      obtain ⟨rfl, rfl⟩ := Exec.pure_ok.mp ran
      exact ⟨rfl, _, accounts⟩
    · cases ran
  · cases ran

theorem counted_substituteInBook {b b' : IntentBook} (consistent : Consistent b) {substitutor : Pubkey} {pmlc : Pmlc}
    {bucket longId shortId nowSlot : ℕ} {c : SubstitutionCtx}
    (ran : (substituteInBook substitutor pmlc bucket longId shortId nowSlot).run b = .ok c b') :
    Consistent b' ∧ (Counted b → (Counted b' ↔ ¬ ∃ p, Book.Consumes b bucket longId shortId nowSlot p ∧ p.usesUp)) := by
  rw [substituteInBook, Exec.bind_check] at ran
  obtain ⟨p, paired, ran⟩ := ran
  simp only [Exec.bind_check] at ran
  obtain ⟨_, -, longSeat, -, shortSeat, -, _, -, _, -, ⟨q, longRelease, shortRelease⟩, consumed, ran⟩ := ran
  simp only [Exec.bind_ok, Exec.pure_ok] at ran
  obtain ⟨_, b1, written, -, rfl⟩ := ran
  obtain ⟨found, -, -⟩ := (Book.findPair_ok consistent).mp paired
  obtain ⟨consistent1, counted1⟩ := Book.counted_writePair consistent found consumed written
  refine ⟨consistent1, fun counted => ?_⟩
  rw [counted1 counted, not_iff_not]
  constructor
  · intro used
    exact ⟨p, ⟨paired, _, consumed⟩, used⟩
  · rintro ⟨r, ⟨found', -⟩, used⟩
    rw [paired] at found'
    cases found'
    exact used

/-- The accounts of a call tell the instrument and the book of what it fills. -/
theorem fillsNamed_iff {payer instrument : Pubkey} {rest : List Pubkey} {longId shortId : ℕ} {p : Book.Pair}
    (accounts : inv.accounts = payer :: instrument :: book :: rest) :
    FillsNamed inv s k longId shortId p ↔ book = k ∧ FillsPair rt s instrument book longId shortId inv.slot p := by
  simp only [FillsNamed, accounts, List.getElem?_cons_succ, List.getElem?_cons_zero, Option.some.injEq, exists_eq_left']
  constructor
  · rintro ⟨rfl, fills⟩
    exact ⟨rfl, fills⟩
  · rintro ⟨rfl, fills⟩
    exact ⟨rfl, fills⟩

theorem recounts_doSubstitute {args : MatchPairArgs} {withSettle : Bool}
    (ran : (doSubstitute rt inv args withSettle).run s = .ok () t) :
    Recounts rt k (∃ p, FillsNamed inv s k args.longIntentId.toNat args.shortIntentId.toNat p ∧ p.usesUp) s t := by
  obtain ⟨_, instrument, book, _, inst, p, c, mid, accounts, -, found, active, at_book, substituted, rest⟩ := substituteInBook_of_ok ran
  simp only [fillsNamed_iff accounts]
  refine Recounts.touches ?_ rest (by simp)
  by_cases here : book = k
  · subst here
    refine recounts_here substituted fun b b' held consistent inner => ?_
    obtain ⟨consistent', counted⟩ := counted_substituteInBook consistent inner
    refine ⟨consistent', fun exact_ => ?_⟩
    rw [counted exact_, not_iff_not]
    constructor
    · rintro ⟨q, consumes, uses⟩
      exact ⟨q, ⟨rfl, inst, b, found, held, active, at_book, consumes⟩, uses⟩
    · rintro ⟨q, ⟨-, x, c, held_inst, held_book, -, -, consumes⟩, uses⟩
      rw [found] at held_inst
      cases held_inst
      rw [held] at held_book
      cases held_book
      exact ⟨q, consumes, uses⟩
  · apply (recounts_elsewhere substituted (Ne.symm here)).unused
    rintro ⟨q, ⟨same, -⟩, -⟩
    exact here same

theorem recounts_processMatchPair {args : MatchPairArgs} (ran : (processMatchPair rt inv args).run s = .ok () t) :
    Recounts rt k (∃ p, FillsNamed inv s k args.longIntentId.toNat args.shortIntentId.toNat p ∧ p.usesUp) s t := by
  rw [processMatchPair, Exec.bind_ok] at ran
  obtain ⟨ctx, _, unpacked, ran⟩ := ran
  obtain ⟨rfl, rest, accounts⟩ := accounts_of_unpackMatchAccounts unpacked
  simp only [fillsNamed_iff accounts, and_assoc, exists_and_left]
  exact recounts_matchPairCore (by rw [ran]; rfl)

theorem recounts_processMatchBestAvailable (ran : (processMatchBestAvailable rt inv).run s = .ok () t) :
    Recounts rt k (∃ p, (∃ b longId shortId, s.data k = .intentBook b ∧
      (Book.scanForFirstValidPair inv.slot).run b = .ok (some (longId, shortId)) b ∧
      FillsNamed inv s k longId shortId p) ∧ p.usesUp) s t := by
  simp only [processMatchBestAvailable, Exec.bind_ok, Exec.orErr_ok] at ran
  obtain ⟨ctx, _, unpacked, pair, mid, scanned, ⟨longId, shortId⟩, _, ⟨rfl, rfl⟩, ran⟩ := ran
  obtain ⟨rfl, rest, accounts⟩ := accounts_of_unpackMatchAccounts unpacked
  obtain ⟨b, b', found, inner, rfl, -⟩ := atAccount_ok scanned
  obtain rfl : b = b' := (keeps_scanForFirstValidPair _).ok inner
  rw [AccountData.loadBook_ok] at found
  have same : ∀ j, (s.setData ctx.book (.intentBook b)).get j = s.get j := by
    rw [← found]
    exact get_setData_data s ctx.book
  have matched := recounts_matchPairCore (k := k) (by rw [ran]; rfl)
  refine (recounts_of_get_eq (same k)).trans ?_
  have only : ∀ p, (∃ b longId shortId, s.data k = .intentBook b ∧
      (Book.scanForFirstValidPair inv.slot).run b = .ok (some (longId, shortId)) b ∧
      FillsNamed inv s k longId shortId p) ↔ ctx.book = k ∧ FillsPair rt s ctx.instrument ctx.book longId shortId inv.slot p := by
    intro p
    constructor
    · rintro ⟨c, long, short, held, scan, named⟩
      obtain ⟨rfl, fills⟩ := (fillsNamed_iff accounts).mp named
      rw [found] at held
      cases held
      rw [inner] at scan
      cases scan
      exact ⟨rfl, fills⟩
    · rintro ⟨rfl, fills⟩
      exact ⟨b, longId, shortId, found, inner, (fillsNamed_iff accounts).mpr ⟨rfl, fills⟩⟩
  simp only [only]
  simp only [and_assoc, exists_and_left, ← fillsPair_congr same]
  exact matched

theorem recounts_processExpandIntentBook {additionalNodes : UInt32}
    (ran : (processExpandIntentBook rt inv additionalNodes).run s = .ok () t) (other : inv.accounts[3]? ≠ some k) :
    Recounts rt k False s t := by
  simp only [processExpandIntentBook, Exec.bind_check, exists_const] at ran
  obtain ⟨-, ran⟩ := ran
  split at ran
  next payer config instrument book system rest accounts =>
    simp only [Exec.bind_check, exists_const] at ran
    obtain ⟨-, -, -, -, -, inst, -, -, -, -, ran⟩ := ran
    apply recounts_elsewhere ran
    rintro rfl
    exact other (by rw [accounts]; rfl)
  · cases ran

/-- An instruction keeps the counters of a book exact unless it uses an intent up. -/
theorem recounts_process {c : Call rt} (ran : (process rt c.inv c.instruction).run s = .ok () t) (unexpanded : ¬ c.Expands k) :
    Recounts rt k (c.UsesUp s k) s t := by
  obtain ⟨inv, instr⟩ := c
  have nothing : ∀ {c : Call rt}, (∀ p, ¬ c.Fills s k p) → Recounts rt k False s t → Recounts rt k (c.UsesUp s k) s t :=
    fun none kept => kept.unused fun ⟨p, fills, _⟩ => none p fills
  cases instr with
  | postIntent args =>
    rw [process, processPostIntent, Exec.bind_ok] at ran
    obtain ⟨ctx, _, unpacked, ran⟩ := ran
    obtain ⟨rfl, -⟩ := unpackPostIntent_ok unpacked
    have only : ∀ p, Call.Fills ⟨inv, .postIntent args⟩ s k p ↔ ctx.book = k ∧ FillsInline inv ctx args s p := by
      intro p
      simp only [Call.Fills, unpacked, Outcome.ok.injEq, and_true, exists_eq_left']
    simp only [Call.UsesUp, only, and_assoc, exists_and_left]
    exact recounts_doPostIntentInner ran
  | postIntentDelegated args =>
    rw [process, processPostIntentDelegated, Exec.bind_ok] at ran
    obtain ⟨ctx, _, unpacked, ran⟩ := ran
    obtain ⟨rfl, -⟩ := unpackPostIntentDelegated_ok unpacked
    have only : ∀ p, Call.Fills ⟨inv, .postIntentDelegated args⟩ s k p ↔ ctx.book = k ∧ FillsInline inv ctx args s p := by
      intro p
      simp only [Call.Fills, unpacked, Outcome.ok.injEq, and_true, exists_eq_left']
    simp only [Call.UsesUp, only, and_assoc, exists_and_left]
    exact recounts_doPostIntentInner ran
  | matchPair args => exact recounts_processMatchPair ran
  | matchBestAvailable => exact recounts_processMatchBestAvailable ran
  | matchSubstitute args => exact recounts_doSubstitute ran
  | matchSubstituteWithSettle args => exact recounts_doSubstitute ran
  | cancelIntent _ => exact nothing (fun _ => id) (recounts_processCancelIntent ran)
  | cancelIntentDelegated _ => exact nothing (fun _ => id) (recounts_processCancelIntentDelegated ran)
  | pruneExpired => exact nothing (fun _ => id) (recounts_processPruneExpired ran)
  | claimReentry _ => exact nothing (fun _ => id) (recounts_processClaimReentry ran)
  | expandIntentBook n =>
    exact nothing (fun _ => id) (recounts_processExpandIntentBook ran fun here => unexpanded ⟨n, rfl, here⟩)
  | _ =>
    refine nothing (fun _ => id) (recounts_of_touches ((within_process rt inv _).keeps.ok ran) ?_)
    simp [Instruction.writes]

end Ledger

/-! ### Runs -/

section Runs

variable {rt : Runtime} {start : Ledger} {book : Pubkey}

/-- A fresh book has no seats. -/
theorem counted_init (instrument : Pubkey) (capacity bump cachedMaxFeeBps : ℕ) :
    Counted (IntentBook.initIntentBook instrument capacity bump cachedMaxFeeBps) := by
  intro i n count
  obtain ⟨seat, slot, -⟩ := IntentBook.seat_of_count count
  simp [IntentBook.initIntentBook, List.getElem?_replicate] at slot

/-- A call makes a book empty, or works on the book that was there. -/
theorem book_of_process {c : Call rt} {s t : Ledger} {b' : IntentBook} (ran : (process rt c.inv c.instruction).run s = .ok () t)
    (held : t.get book = ⟨rt.programId, .intentBook b'⟩) :
    (∃ b, s.get book = ⟨rt.programId, .intentBook b⟩) ∨ Consistent b' ∧ Counted b' ∧ ∀ p, ¬ c.Fills s book p := by
  cases created : c.instruction.creates with
  | false =>
    obtain ⟨b, before, -⟩ := (shelves_of_process created ran).back held
    exact .inl ⟨b, before⟩
  | true =>
    obtain ⟨inv, instr⟩ := c
    cases instr with
    | createInstrument args =>
      rcases books_of_createInstrument ran held with before | ⟨instrument, capacity, bump, -, -, rfl⟩
      · exact .inl ⟨b', before⟩
      · exact .inr ⟨consistent_init _ _ _ _, counted_init _ _ _ _, fun _ => id⟩
    | _ => cases created

/-- What is filled lies in a book of the program. -/
theorem book_of_fills {c : Call rt} {s : Ledger} {p : Book.Pair} (fills : c.Fills s book p) :
    ∃ b, s.get book = ⟨rt.programId, .intentBook b⟩ := by
  have named : ∀ {longId shortId}, FillsNamed c.inv s book longId shortId p →
      ∃ b, s.get book = ⟨rt.programId, .intentBook b⟩ := by
    rintro longId shortId ⟨instrument, -, -, inst, b, -, held, -⟩
    exact ⟨b, held⟩
  have inline : ∀ {ctx args}, ctx.book = book ∧ FillsInline c.inv ctx args s p →
      ∃ b, s.get book = ⟨rt.programId, .intentBook b⟩ := by
    rintro ctx args ⟨rfl, -, id, t, posted, -⟩
    obtain ⟨posting⟩ := postIntent_ok posted
    exact ⟨posting.b, get_eq_of_data (posting.owned _ (by simp)) posting.book_eq⟩
  obtain ⟨inv, instr⟩ := c
  cases instr with
  | matchPair args => exact named fills
  | matchBestAvailable =>
    obtain ⟨b, longId, shortId, -, -, fills⟩ := fills
    exact named fills
  | matchSubstitute args => exact named fills
  | matchSubstituteWithSettle args => exact named fills
  | postIntent args =>
    obtain ⟨ctx, -, fills⟩ := fills
    exact inline fills
  | postIntentDelegated args =>
    obtain ⟨ctx, -, fills⟩ := fills
    exact inline fills
  | _ => exact fills.elim

/-- The book of a run that never grows it is consistent. -/
theorem consistent_of_run (gen : Genesis rt start) (calls : List (Call rt))
    (plain : ∀ past c, past ++ [c] <+: calls → c.returns (runCalls rt past start) = true → ¬ c.Expands book) {b : IntentBook}
    (held : (runCalls rt calls start).get book = ⟨rt.programId, .intentBook b⟩) : Consistent b := by
  induction calls using List.reverseRecOn generalizing b with
  | nil =>
    exact absurd (congrArg Account.owner held) (gen.not_owned book)
  | append_singleton past c ih =>
    have before := fun {b} => @ih (fun past' c' reached => plain past' c' (reached.trans (List.prefix_append past [c]))) b
    rw [runCalls_concat] at held
    cases returns : c.returns (runCalls rt past start) with
    | false =>
      rw [execute_of_not_returns returns] at held
      exact before held
    | true =>
      have ran := c.ran returns
      rcases book_of_process ran held with ⟨b0, held0⟩ | ⟨consistent, -⟩
      · obtain ⟨b1, held1, consistent1, -⟩ :=
          recounts_process ran (plain past c List.prefix_rfl returns) b0 held0 (before held0)
        rw [held] at held1
        cases held1
        exact consistent1
      · exact consistent

/-- On a book that is never grown the counters are exact in every ledger of a run exactly when no call of
the run takes the last contract of an intent. -/
theorem seat_counters_exact_iff (gen : Genesis rt start) (calls : List (Call rt)) (book : Pubkey)
    (plain : ∀ past c, past ++ [c] <+: calls → c.returns (runCalls rt past start) = true → ¬ c.Expands book) :
    (∀ past b, past <+: calls → (runCalls rt past start).get book = ⟨rt.programId, .intentBook b⟩ → SeatsExact b) ↔
      ∀ past c, past ++ [c] <+: calls → c.returns (runCalls rt past start) = true →
        ¬ c.UsesUp (runCalls rt past start) book := by
  have consistent : ∀ {past b}, past <+: calls → (runCalls rt past start).get book = ⟨rt.programId, .intentBook b⟩ →
      Consistent b := fun reached => consistent_of_run gen _ fun past' c' earlier => plain past' c' (earlier.trans reached)
  constructor
  · intro exact_ past c reached returns used
    have ran := c.ran returns
    have earlier := (List.prefix_append past [c]).trans reached
    obtain ⟨p, fills, -⟩ := id used
    obtain ⟨b, held⟩ := book_of_fills fills
    obtain ⟨b', held', consistent', counted⟩ :=
      recounts_process ran (plain past c reached returns) b held (consistent earlier held)
    have before := (seatsExact_iff (consistent earlier held)).mp (exact_ past b earlier held)
    have after := exact_ (past ++ [c]) b' reached (by rw [runCalls_concat]; exact held')
    exact (counted before).mp ((seatsExact_iff consistent').mp after) used
  · intro spares past b reached held
    rw [seatsExact_iff (consistent reached held)]
    induction past using List.reverseRecOn generalizing b with
    | nil => exact absurd (congrArg Account.owner held) (gen.not_owned book)
    | append_singleton past c ih =>
      have earlier := (List.prefix_append past [c]).trans reached
      rw [runCalls_concat] at held
      cases returns : c.returns (runCalls rt past start) with
      | false =>
        rw [execute_of_not_returns returns] at held
        exact ih b earlier held
      | true =>
        have ran := c.ran returns
        rcases book_of_process ran held with ⟨b0, held0⟩ | ⟨-, counted, -⟩
        · obtain ⟨b1, held1, -, counted1⟩ :=
            recounts_process ran (plain past c reached returns) b0 held0 (consistent earlier held0)
          rw [held] at held1
          cases held1
          exact (counted1 (ih b0 earlier held0)).mpr (spares past c reached returns)
        · exact counted

end Runs

/-- One fill of single contracts leaves the counters wrong. -/
theorem seat_counters_drift : Reachable Runtime.sample (fun instr => instr.expands = false) Sample.traded ∧
    ∃ b, Sample.traded.get (Sample.book Sample.poly) = ⟨Runtime.sample.programId, .intentBook b⟩ ∧ ¬ SeatsExact b :=
  ⟨Sample.reachable (by decide +kernel), Sample.traded_miscounts⟩

/-- The trade takes a last contract. -/
theorem seat_counters_exact_iff_trading : ¬ ∀ past c, past ++ [c] <+: Sample.trading →
    c.returns (runCalls Runtime.sample past Sample.genesis) = true →
      ¬ c.UsesUp (runCalls Runtime.sample past Sample.genesis) (Sample.book Sample.poly) := by
  intro spares
  obtain ⟨b, held, wrong⟩ := Sample.traded_miscounts
  refine wrong ((seat_counters_exact_iff Sample.genesis_genesis Sample.trading (Sample.book Sample.poly) ?_).mpr spares
    Sample.trading b List.prefix_rfl held)
  have none : ∀ c ∈ Sample.trading, c.instruction.expands = false := by decide +kernel
  rintro past c reached - ⟨count, grows, -⟩
  have member : c ∈ Sample.trading := reached.subset (List.mem_append_right past List.mem_cons_self)
  have plain := none c member
  rw [grows] at plain
  cases plain

end Polyleverage
