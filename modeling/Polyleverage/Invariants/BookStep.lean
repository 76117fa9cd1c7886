import Polyleverage.Invariants.BookMatch
import Mathlib.Algebra.Group.Pi.Basic

/-! # Steps of a sound book

What each handler does while it holds the book: the book stays sound and stays the book of its
instrument, and what the traders have reserved changes by what the handler hands on.
-/

namespace Polyleverage

open RedBlack Machine

/-- A step of a sound book that changes the reservations by `δ`. -/
structure BookStep (bucket : ℕ) (b b' : IntentBook) (δ : Pubkey → ℤ) : Prop where
  sound : Sound bucket b'
  heirs : Heirs b b'
  instrument : b'.header.instrument = b.header.instrument
  reserved : ∀ t, (b'.view.reserved t : ℤ) = b.view.reserved t + δ t

variable {b b' : IntentBook} {i bucket : ℕ} {u : Unit}

/-- Reservations depend on the orders, the traders and the capacity. -/
theorem reserved_congr {v v' : BookView} (order : v'.order = v.order) (trader : v'.trader = v.trader)
    (capacity : v'.header.capacity = v.header.capacity) (t : Pubkey) : v'.reserved t = v.reserved t := by
  unfold BookView.reserved BookView.weigh
  rw [order, trader, capacity]

theorem BookStep.refl (sound : Sound bucket b) : BookStep bucket b b 0 :=
  ⟨sound, Std.Refl.refl b, rfl, fun _ => (add_zero _).symm⟩

theorem BookStep.trans {b'' : IntentBook} {δ ε : Pubkey → ℤ} (first : BookStep bucket b b' δ)
    (next : BookStep bucket b' b'' ε) : BookStep bucket b b'' (δ + ε) where
  sound := next.sound
  heirs := Trans.trans first.heirs next.heirs
  instrument := next.instrument.trans first.instrument
  reserved t := by
    rw [next.reserved, first.reserved, Pi.add_apply]
    omega

/-- A number is used up. -/
theorem bookStep_counters (sound : Sound bucket b) {ids seqs : ℕ} (ids_le : b.header.nextIntentId ≤ ids)
    (seqs_le : b.header.nextSeq ≤ seqs) :
    BookStep bucket b { b with header := { b.header with nextIntentId := ids, nextSeq := seqs } } 0 := by
  obtain ⟨sound', heirs⟩ := sound.of_view (sound.consistent.tidy.counters ids seqs) rfl ids_le seqs_le rfl fun i o placed => by
    obtain ⟨left, reserved⟩ := sound.backed i o placed
    exact ⟨o, placed, rfl, rfl, rfl, left, reserved, le_refl _⟩
  refine ⟨sound', heirs, rfl, fun t => ?_⟩
  rw [Pi.zero_apply, add_zero]
  exact congrArg Nat.cast (reserved_congr rfl rfl rfl t)

/-! ### Posting -/

/-- A post backs its order and asks for no fee. -/
theorem bookStep_post {owner : Pubkey} {d : Book.Draft} {id : ℕ} (sound : Sound bucket b) (isSide : IsSide d.side)
    (some_contracts : d.contracts ≠ 0) (backed : d.reservedCollateral = d.contracts * bucket) (free : d.feeBuffer = 0)
    (ran : (Book.post owner d).run b = .ok id b') :
    BookStep bucket b b' (Pi.single owner ((d.reservedCollateral + d.feeBuffer : ℕ) : ℤ)) := by
  obtain ⟨tidy, -, slot, seat, posted, -⟩ := Book.post_ok sound.consistent isSide ran
  let o := (d.node b.header.nextIntentId b.header.nextSeq seat).withLinks noLinks
  have header : b'.header.terms =
      { b.header.terms with nextIntentId := b.header.nextIntentId + 1, nextSeq := b.header.nextSeq + 1 } := posted.header
  have owned : b'.view.trader o.ownerSeat = some owner := posted.owned
  have cases_order : ∀ j p, b'.view.order j = some p → (j = slot ∧ p = o) ∨ b.view.order j = some p := by
    intro j p placed
    rw [posted.order] at placed
    by_cases here : j = slot
    · subst here
      rw [Function.update_self] at placed
      exact .inl ⟨rfl, (Option.some.inj placed).symm⟩
    · rw [Function.update_of_ne here] at placed
      exact .inr placed
  constructor
  · refine ⟨Book.consistent_post sound.consistent isSide ran, ?_, ?_, ?_⟩
    · intro j p placed
      rcases cases_order j p placed with ⟨-, rfl⟩ | old
      · exact ⟨some_contracts, backed⟩
      · exact sound.backed j p old
    · have := congrArg IntentBookHeader.cachedMaxFeeBps header
      exact this.trans sound.unbuffered.1
    · intro j p placed
      rcases cases_order j p placed with ⟨-, rfl⟩ | old
      · exact free
      · exact sound.unbuffered.2 j p old
  · refine ⟨?_, posted.traders, fun j p placed => ?_⟩
    · have := congrArg IntentBookHeader.nextIntentId header
      exact (Nat.le_succ _).trans this.ge
    · rcases cases_order j p placed with ⟨-, rfl⟩ | old
      · exact .inl le_rfl
      · exact .inr ⟨p, old, rfl, rfl⟩
  · have := congrArg IntentBookHeader.instrument header
    exact this
  · intro t
    have capacity : b'.view.header.capacity = b.view.header.capacity := by
      rw [posted.header]
    have change := BookView.reserved_update (t := t) sound.consistent.orderly (posted.inside tidy) posted.order capacity
      posted.traders
    rw [posted.vacant, Option.elim_none, Option.elim_some, BookView.weigh, owned] at change
    by_cases mine : t = owner
    · subst mine
      rw [if_pos rfl] at change
      rw [Pi.single_eq_same]
      exact_mod_cast change
    · rw [if_neg (by simpa using Ne.symm mine)] at change
      rw [Pi.single_eq_of_ne mine, add_zero]
      exact_mod_cast change

/-! ### Taking orders out -/

/-- Orders leave a sound book. -/
theorem sound_without (sound : Sound bucket b) {taken : List ℕ} (tidy : Tidy b')
    (view : b'.view = Book.without b.view taken) : Sound bucket b' ∧ Heirs b b' := by
  have header : b'.header.terms = b.header.terms := congrArg BookView.header view
  apply sound.of_view tidy
  · exact congrArg BookView.trader view
  · have := congrArg IntentBookHeader.nextIntentId header
    exact Nat.le_of_eq this.symm
  · have := congrArg IntentBookHeader.nextSeq header
    exact Nat.le_of_eq this.symm
  · have := congrArg IntentBookHeader.cachedMaxFeeBps header
    exact this
  · intro i o placed
    have order : b'.order = (Book.without b.view taken).order := congrArg BookView.order view
    rw [order] at placed
    simp only [Book.without] at placed
    split at placed
    · cases placed
    · obtain ⟨left, reserved⟩ := sound.backed i o placed
      exact ⟨o, placed, rfl, rfl, rfl, left, reserved, le_refl _⟩

/-- A batch of one trader's orders leaves. -/
theorem bookStep_without (sound : Sound bucket b) {owner : Pubkey} {work : List (ℕ × IntentNode × ℕ)} (tidy : Tidy b')
    (placed : Book.Placed b work) (view : b'.view = Book.without b.view (work.map Prod.fst))
    (owned : ∀ e ∈ work, b.trader e.2.1.ownerSeat = some owner) :
    BookStep bucket b b' (-Pi.single owner (((work.map fun e => e.2.2).sum : ℕ) : ℤ)) := by
  obtain ⟨sound', heirs⟩ := sound_without sound tidy view
  refine ⟨sound', heirs, ?_, fun t => ?_⟩
  · have := congrArg (fun v : BookView => v.header.instrument) view
    exact this
  · have change := reserved_without (v := b.view) (t := t) (fun idx node total member => by
      obtain ⟨found, sum⟩ := placed.1 idx node total member
      obtain ⟨n, slot, -⟩ := IntentBook.intent_of_order found
      exact ⟨sound.consistent.tidy.intent_lt slot, found, sum⟩) placed.2
    rw [← view] at change
    have weights : (work.map fun e => if b.view.trader e.2.1.ownerSeat = some t then e.2.2 else 0) =
        work.map fun e => if t = owner then e.2.2 else 0 := by
      apply List.map_congr_left
      intro e member
      have seated : b.view.trader e.2.1.ownerSeat = some owner := owned e member
      rw [seated]
      by_cases mine : t = owner
      · simp [mine]
      · simp [mine, Ne.symm mine]
    rw [weights] at change
    by_cases mine : t = owner
    · subst mine
      simp only [if_true] at change
      rw [Pi.neg_apply, Pi.single_eq_same]
      omega
    · have zero : (work.map fun _ => 0).sum = 0 := List.sum_eq_zero (by simp)
      simp only [if_neg mine, zero] at change
      rw [Pi.neg_apply, Pi.single_eq_of_ne mine]
      omega

/-- One order leaves. -/
theorem bookStep_cancel (sound : Sound bucket b) {owner : Pubkey} {node : IntentNode} {seat : ℕ}
    (slot : b.nodes[i]? = some (.intent node)) (seated : b.trader node.ownerSeat = some owner)
    (ran : (Book.cancel node.side i seat).run b = .ok u b') :
    BookStep bucket b b' (-Pi.single owner ((node.reservedCollateral + node.feeBuffer : ℕ) : ℤ)) := by
  obtain ⟨tidy, view⟩ := Book.cancel_ok sound.consistent.tidy slot ran
  have placed : Book.Placed b [(i, node, node.reservedCollateral + node.feeBuffer)] := by
    refine ⟨fun idx n total member => ?_, by simp⟩
    obtain ⟨rfl, rfl, rfl⟩ : idx = i ∧ n = node ∧ total = node.reservedCollateral + node.feeBuffer := by
      simpa using member
    exact ⟨IntentBook.order_of_intent slot, rfl⟩
  have taken : b'.view = Book.without b.view [i] := by
    rw [view, ← Book.without_cons]
    rfl
  have step := bookStep_without sound tidy placed taken (by simpa using seated)
  simpa using step

/-- Pruning the poster's expired orders. -/
theorem bookStep_pruneOwnExpired (sound : Sound bucket b) {owner : Pubkey} {now refund : ℕ}
    (ran : (Book.pruneOwnExpired owner now).run b = .ok refund b') :
    BookStep bucket b b' (-Pi.single owner (refund : ℤ)) := by
  obtain ⟨work, placed, owned, tidy, view, rfl⟩ := Book.pruneOwnExpired_ok sound.consistent.tidy ran
  exact bookStep_without sound tidy placed view fun e member => (owned e member).1

/-- Taking an expired order out of the slot it was found in. -/
theorem bookStep_pruneSlot (sound : Sound bucket b) {owner : Pubkey} {o : IntentNode}
    (placed : b.order i = some o) (seated : b.trader o.ownerSeat = some owner)
    (ran : (pruneSlot i o.side).run b = .ok u b') :
    BookStep bucket b b' (-Pi.single owner ((o.reservedCollateral + o.feeBuffer : ℕ) : ℤ)) := by
  obtain ⟨node, slot, rfl⟩ := IntentBook.intent_of_order placed
  simp only [pruneSlot, Exec.bind_ok, Exec.gets_ok] at ran
  obtain ⟨node', _, ⟨slot', rfl⟩, ran⟩ := ran
  rw [IntentBook.intent_eq_ok, slot] at slot'
  cases slot'
  have owned : b.trader node.ownerSeat = some owner := seated
  have step := bookStep_cancel sound slot owned ran
  exact step

/-! ### Cancelling -/

section Runtime

variable {rt : Runtime}

/-- A cancel hands back what its order had reserved, to the margin account of its owner. -/
theorem bookStep_cancelInBook (sound : Sound bucket b) {margin mint : Pubkey} {intentId : ℕ}
    {authorize : Pubkey → IntentNode → Except ProgramError Unit} {refund : Refund}
    (ran : (cancelInBook rt margin mint intentId authorize).run b = .ok refund b') :
    BookStep bucket b b' (-Pi.single refund.owner (refund.total : ℤ)) ∧
      rt.address (.margin refund.owner mint) = margin := by
  simp only [cancelInBook, Exec.bind_ok, Exec.gets_ok, Exec.ofExcept_ok, Exec.rejectIf_ok, Exec.pure_ok, not_not] at ran
  obtain ⟨⟨idx, side⟩, _, ⟨found, rfl⟩, node, _, ⟨slot, rfl⟩, seat, _, ⟨seated, rfl⟩, _, _, ⟨_, rfl⟩, _, _, ⟨same, rfl⟩,
    _, _, cancelled, total, _, ⟨measured, rfl⟩, rfl, rfl⟩ := ran
  obtain ⟨node', slot', -, sided⟩ := (Book.findIntentById_ok sound.consistent).mp found
  have here : b.nodes[idx]? = some (.intent node) := IntentBook.intent_eq_ok.mp slot
  obtain rfl : node' = node := by
    rw [here] at slot'
    cases slot'
    rfl
  subst sided
  refine ⟨?_, same⟩
  have owner := IntentBook.trader_of_seat (IntentBook.seat_eq_ok.mp seated)
  have step := bookStep_cancel sound here owner cancelled
  rw [Book.reservation_ok measured] at step
  exact step

/-! ### Filling -/

/-- A fill releases the bucket and a share of the fee buffer to each owner. -/
theorem bookStep_fill (sound : Sound bucket b) {nowSlot longRelease shortRelease : ℕ} {p : Book.Pair}
    {longTrader shortTrader : Pubkey} (found : Book.Found b nowSlot p)
    (releasedL : Book.fillRelease p.long = .ok longRelease) (releasedS : Book.fillRelease p.short = .ok shortRelease)
    (seatedL : b.trader p.long.ownerSeat = some longTrader) (seatedS : b.trader p.short.ownerSeat = some shortTrader)
    (tidy : Tidy b') (view : b'.view = b.view.fill p bucket longRelease shortRelease) :
    BookStep bucket b b' (-Pi.single longTrader ((bucket + longRelease : ℕ) : ℤ) -
      Pi.single shortTrader ((bucket + shortRelease : ℕ) : ℤ)) := by
  obtain ⟨sound', heirs⟩ := Book.sound_fill sound found tidy view
  refine ⟨sound', heirs, ?_, fun t => ?_⟩
  · have := congrArg (fun v : BookView => v.header.instrument) view
    exact this
  · have change := Book.reserved_fill sound t found releasedL releasedS
    rw [← view, seatedL, seatedS] at change
    have weight : ∀ (owner : Pubkey) (amount : ℕ),
        (Pi.single owner (amount : ℤ) : Pubkey → ℤ) t = ((if some owner = some t then amount else 0 : ℕ) : ℤ) := by
      intro owner amount
      by_cases mine : t = owner
      · subst mine
        simp
      · rw [Pi.single_eq_of_ne mine, if_neg (by simpa using Ne.symm mine)]
        rfl
    rw [Pi.sub_apply, Pi.neg_apply, weight, weight]
    omega

/-- A found pair can be written back with one contract less, and the book stays sound. -/
theorem exists_filled (sound : Sound bucket b) {nowSlot longRelease shortRelease : ℕ} {p q : Book.Pair}
    (found : Book.Found b nowSlot p) (consumed : Book.consume bucket p = .ok (q, longRelease, shortRelease)) :
    ∃ b' longTrader shortTrader, (Book.writePair q).run b = .ok () b' ∧
      b.trader p.long.ownerSeat = some longTrader ∧ b.trader p.short.ownerSeat = some shortTrader ∧
      b'.trader = b.trader ∧ b'.header.terms = b.header.terms ∧
      BookStep bucket b b' (-Pi.single longTrader ((bucket + longRelease : ℕ) : ℤ) -
        Pi.single shortTrader ((bucket + shortRelease : ℕ) : ℤ)) := by
  obtain ⟨rfl, -, -, releasedL, releasedS⟩ := Book.consume_ok consumed
  obtain ⟨b1, ran, tidy, view⟩ := Book.run_writePair sound.consistent.tidy found bucket longRelease shortRelease
  obtain ⟨longTrader, seatedL⟩ := sound.consistent.orderly.owned _ _ (IntentBook.order_of_intent found.long)
  obtain ⟨shortTrader, seatedS⟩ := sound.consistent.orderly.owned _ _ (IntentBook.order_of_intent found.short)
  exact ⟨b1, longTrader, shortTrader, ran, seatedL, seatedS, congrArg BookView.trader view,
    congrArg BookView.header view, bookStep_fill sound found releasedL releasedS seatedL seatedS tidy view⟩

/-- What a match does to the book, and what it hands on. -/
theorem bookStep_matchInBook (sound : Sound bucket b) {instrument pmlc : Pubkey} {longId shortId nowSlot : ℕ}
    {r : MatchResult} (ran : (matchInBook rt instrument pmlc bucket longId shortId nowSlot).run b = .ok r b') :
    BookStep bucket b b' (-Pi.single r.longTrader ((bucket + r.feeBufReleaseLong : ℕ) : ℤ) -
        Pi.single r.shortTrader ((bucket + r.feeBufReleaseShort : ℕ) : ℤ)) ∧
      rt.address (.pmlc instrument r.pmlcId) = pmlc ∧ r.pmlcBump = rt.bump (.pmlc instrument r.pmlcId) ∧
      r.feeBufReleaseLong = 0 ∧ r.feeBufReleaseShort = 0 := by
  simp only [matchInBook, Exec.bind_ok, Exec.gets_ok, Exec.ofExcept_ok, Exec.rejectIf_ok, Exec.pure_ok, not_not] at ran
  obtain ⟨p, _, ⟨paired, rfl⟩, ⟨q, longRelease, shortRelease⟩, _, ⟨consumed, rfl⟩, _, b1, written, id, b2, numbered,
    _, _, ⟨same, rfl⟩, longSeat, _, ⟨seatL, rfl⟩, shortSeat, _, ⟨seatS, rfl⟩, rfl, rfl⟩ := ran
  obtain ⟨found, -, -⟩ := (Book.findPair_ok sound.consistent).mp paired
  obtain ⟨b1', longTrader, shortTrader, ran1, seatedL, seatedS, traders, -, step⟩ := exists_filled sound found consumed
  rw [written] at ran1
  cases ran1
  obtain ⟨rfl, rfl⟩ := IntentBook.nextIntentId_ok numbered
  have step2 := bookStep_counters step.sound (Nat.le_succ b1.header.nextIntentId) (le_refl b1.header.nextSeq)
  have long : longSeat.trader = longTrader := by
    have seated := IntentBook.trader_of_seat (IntentBook.seat_eq_ok.mp seatL)
    change b1.trader _ = _ at seated
    rw [traders, seatedL] at seated
    exact (Option.some.inj seated).symm
  have short : shortSeat.trader = shortTrader := by
    have seated := IntentBook.trader_of_seat (IntentBook.seat_eq_ok.mp seatS)
    change b1.trader _ = _ at seated
    rw [traders, seatedS] at seated
    exact (Option.some.inj seated).symm
  obtain ⟨-, -, -, releasedL, releasedS⟩ := Book.consume_ok consumed
  have noL := (Book.fillRelease_ok releasedL).1
  have noS := (Book.fillRelease_ok releasedS).1
  rw [sound.buffer_of_intent found.long] at noL
  rw [sound.buffer_of_intent found.short] at noS
  refine ⟨?_, same, rfl, Nat.le_zero.mp noL, Nat.le_zero.mp noS⟩
  simp only [long, short]
  have whole := step.trans step2
  rw [add_zero] at whole
  exact whole

/-- What a substitution does to the book, and what it hands on. -/
theorem bookStep_substituteInBook (sound : Sound bucket b) {substitutor : Pubkey} {pmlc : Pmlc}
    {longId shortId nowSlot : ℕ} {c : SubstitutionCtx}
    (ran : (substituteInBook substitutor pmlc bucket longId shortId nowSlot).run b = .ok c b') :
    BookStep bucket b b' (-Pi.single substitutor ((bucket + c.substitutorRelease : ℕ) : ℤ) -
        Pi.single c.newPmlcOwner ((bucket + c.counterpartyRelease : ℕ) : ℤ)) ∧
      pmlc.owner c.pmlcSide = substitutor ∧ IsSide c.pmlcSide := by
  simp only [substituteInBook, Exec.bind_ok, Exec.gets_ok, Exec.ofExcept_ok, Exec.rejectIf_ok, Exec.pure_ok,
    not_not] at ran
  obtain ⟨p, _, ⟨paired, rfl⟩, _, _, ⟨-, rfl⟩, longSeat, _, ⟨seatL, rfl⟩, shortSeat, _, ⟨seatS, rfl⟩, _, _, ⟨mine, rfl⟩,
    _, _, ⟨owned, rfl⟩, ⟨q, longRelease, shortRelease⟩, _, ⟨consumed, rfl⟩, _, b1, written, rfl, rfl⟩ := ran
  obtain ⟨found, -, -⟩ := (Book.findPair_ok sound.consistent).mp paired
  obtain ⟨b1', longTrader, shortTrader, ran1, seatedL, seatedS, -, -, step⟩ := exists_filled sound found consumed
  rw [written] at ran1
  cases ran1
  have long : longSeat.trader = longTrader := by
    have seated := IntentBook.trader_of_seat (IntentBook.seat_eq_ok.mp seatL)
    rw [seatedL] at seated
    exact (Option.some.inj seated).symm
  have short : shortSeat.trader = shortTrader := by
    have seated := IntentBook.trader_of_seat (IntentBook.seat_eq_ok.mp seatS)
    rw [seatedS] at seated
    exact (Option.some.inj seated).symm
  subst long short
  refine ⟨?_, owned, ?_⟩
  · by_cases both : longSeat.trader = substitutor
    · simpa [SubstitutionCtx.substitutorRelease, SubstitutionCtx.counterpartyRelease, both] using step
    · have other : shortSeat.trader = substitutor := by
        by_contra neither
        exact mine ⟨both, neither⟩
      have swapped : ∀ f g : Pubkey → ℤ, -f - g = -g - f := fun f g => by
        rw [sub_eq_add_neg, sub_eq_add_neg, add_comm]
      simp only [SubstitutionCtx.substitutorRelease, SubstitutionCtx.counterpartyRelease, both, decide_false,
        Bool.false_eq_true, if_false]
      rw [swapped, ← other]
      exact step
  · dsimp only
    split
    · exact .inl rfl
    · exact .inr rfl

/-! ### However a match ends -/

/-- A sound book stays sound and stays the book of its instrument, and no trader's orders reserve more. -/
def StaysSound (bucket : ℕ) (b b' : IntentBook) : Prop :=
  Sound bucket b → Sound bucket b' ∧ Heirs b b' ∧ b'.header.instrument = b.header.instrument ∧
    ∀ t, b'.view.reserved t ≤ b.view.reserved t

instance : Std.Refl (StaysSound bucket) := ⟨fun b sound => ⟨sound, Std.Refl.refl b, rfl, fun _ => le_rfl⟩⟩

instance : IsTrans IntentBook (StaysSound bucket) where
  trans _ _ _ first next sound := by
    obtain ⟨sound1, heirs1, same1, less1⟩ := first sound
    obtain ⟨sound2, heirs2, same2, less2⟩ := next sound1
    exact ⟨sound2, Trans.trans heirs1 heirs2, same2.trans same1, fun t => (less2 t).trans (less1 t)⟩

theorem BookStep.stays {δ : Pubkey → ℤ} (step : BookStep bucket b b' δ) (less : ∀ t, δ t ≤ 0) : StaysSound bucket b b' := by
  refine fun _ => ⟨step.sound, step.heirs, step.instrument, fun t => ?_⟩
  have reserved := step.reserved t
  have drop := less t
  omega

/-- One trader's orders reserve less. -/
theorem BookStep.stays_single {owner : Pubkey} {amount : ℕ} (step : BookStep bucket b b' (-Pi.single owner (amount : ℤ))) :
    StaysSound bucket b b' := by
  apply step.stays
  intro t
  simp only [Pi.neg_apply, Pi.single_apply]
  split <;> omega

/-- The orders of both traders of a fill reserve less. -/
theorem BookStep.stays_pair {long short : Pubkey} {m n : ℕ}
    (step : BookStep bucket b b' (-Pi.single long (m : ℤ) - Pi.single short (n : ℤ))) : StaysSound bucket b b' := by
  apply step.stays
  intro t
  simp only [Pi.sub_apply, Pi.neg_apply, Pi.single_apply]
  split <;> split <;> omega

theorem keeps_nextIntentId : Exec.Keeps (StaysSound bucket) IntentBook.nextIntentId := by
  intro b b' left
  rw [IntentBook.nextIntentId, Exec.run_bind_get, Exec.run_bind] at left
  cases next : checkedAdd 64 b.header.nextIntentId 1 with
  | none =>
    rw [next] at left
    cases left
    exact Std.Refl.refl b
  | some id =>
    rw [next] at left
    cases left
    obtain ⟨-, rfl⟩ := checkedAdd_eq_some.mp next
    intro sound
    exact (bookStep_counters sound (Nat.le_succ _) (le_refl b.header.nextSeq)).stays (fun _ => le_rfl) sound

/-- A match that fails leaves the book as it was or with the fill written. -/
theorem keeps_matchInBook (instrument pmlc : Pubkey) (longId shortId nowSlot : ℕ) :
    Exec.Keeps (StaysSound bucket) (matchInBook rt instrument pmlc bucket longId shortId nowSlot) := by
  intro b b' left sound
  rw [matchInBook, Exec.run_bind, Exec.run_gets] at left
  cases paired : Book.findPair longId shortId nowSlot b with
  | error e =>
    rw [paired] at left
    cases left
    exact ⟨sound, Std.Refl.refl b, rfl, fun _ => le_rfl⟩
  | ok p =>
    rw [paired, Outcome.bind_ok, Exec.run_bind] at left
    cases consumed : Book.consume bucket p with
    | error e =>
      rw [consumed] at left
      cases left
      exact ⟨sound, Std.Refl.refl b, rfl, fun _ => le_rfl⟩
    | ok filled =>
      obtain ⟨q, longRelease, shortRelease⟩ := filled
      obtain ⟨found, -, -⟩ := (Book.findPair_ok sound.consistent).mp paired
      obtain ⟨b1, longTrader, shortTrader, ran1, -, -, -, -, step⟩ := exists_filled sound found consumed
      rw [consumed] at left
      change b' ∈ (Exec.run (Book.writePair q >>= _) b).state? at left
      rw [Exec.run_bind_of_ok ran1] at left
      have filled : StaysSound bucket b b1 := step.stays_pair
      have rest : StaysSound bucket b1 b' := Exec.keeps_bind keeps_nextIntentId (fun id =>
        Exec.keeps_bind (Exec.keeps_rejectIf _ _) fun _ => Exec.keeps_bind (Exec.keeps_gets _) fun _ =>
          Exec.keeps_bind (Exec.keeps_gets _) fun _ => Exec.keeps_pure _) b1 b' left
      exact Trans.trans filled rest sound

end Runtime

/-! ### Looking for a pair -/

/-- The walk only reads. -/
theorem keeps_walk {α : Type} (side : ℕ) (visitor : ℕ → IntentNode → Option α) (fuel : ℕ) (stack : List ℕ) (cur : ℕ) :
    Exec.Keeps Eq (IntentTree.walk side visitor fuel stack cur) := by
  induction fuel generalizing stack cur with
  | zero => exact Exec.keeps_abort
  | succ fuel ih =>
    unfold IntentTree.walk
    split
    · apply Exec.keeps_bind
      · exact Exec.keeps_rejectIf _ _
      · intro _
        apply Exec.keeps_bind
        · unfold IntentTree.getLeft LinkedPool.child
          split
          · exact Exec.keeps_pure _
          · exact Exec.keeps_gets _
        · intro left
          exact ih (cur :: stack) left
    · cases stack with
      | nil => exact Exec.keeps_pure _
      | cons top rest =>
        apply Exec.keeps_bind
        · exact Exec.keeps_gets _
        · intro node
          split
          · exact Exec.keeps_pure _
          · exact ih rest node.right

theorem keeps_forEachBestFirst {α : Type} (side : ℕ) (visitor : ℕ → IntentNode → Option α) :
    Exec.Keeps Eq (IntentTree.forEachBestFirst side visitor) := by
  apply Exec.keeps_bind
  · exact Exec.keeps_gets _
  · intro root
    apply Exec.keeps_bind
    · exact Exec.keeps_get
    · intro b
      exact keeps_walk side visitor _ [] root

theorem keeps_findOverlapOnSide (oppositeSide takerPrice nowSlot skipId : ℕ) :
    Exec.Keeps Eq (Book.findOverlapOnSide oppositeSide takerPrice nowSlot skipId) := by
  apply Exec.keeps_bind
  · exact keeps_forEachBestFirst _ _
  · intro found
    exact Exec.keeps_pure _

theorem keeps_scanForFirstValidPair (nowSlot : ℕ) : Exec.Keeps Eq (Book.scanForFirstValidPair nowSlot) := by
  apply Exec.keeps_bind
  · exact keeps_forEachBestFirst _ _
  · intro bestLong
    apply Exec.keeps_bind
    · exact keeps_forEachBestFirst _ _
    · intro bestShort
      split
      · split
        · exact Exec.keeps_pure _
        · exact Exec.keeps_pure _
      · exact Exec.keeps_pure _

end Polyleverage
