import Mathlib.Algebra.BigOperators.Group.Finset.Piecewise
import Polyleverage.Guarantees.Positions
import Polyleverage.Invariants.Intake

/-! # Leaving a position

A side of a position changes hands by a novation or by a substitution through the book. Whatever the roles
of the two traders, also when they are one, nobody else's money moves: the premium that one pays is what
the other receives, and the collateral stays locked.
-/

namespace Polyleverage

open Machine

variable {rt : Runtime} {inv : rt.Invocation} {s t v : Ledger} {k : Pubkey} {u : Unit}

/-! ### One contract of a pair -/

/-- The contracts that an order in this slot has left. -/
def IntentBook.remainingAt (b : IntentBook) (i : ℕ) : ℕ := (b.order i).elim 0 IntentNode.contractsRemaining

namespace Book

variable {b b' : IntentBook} {i side : ℕ}

/-- Taking out an intent empties its slot, whatever the links of the book are. -/
theorem order_removeIntent (ran : (removeIntent side i).run b = .ok u b') : b'.order = Function.update b.order i none := by
  rw [removeIntent, Exec.bind_ok] at ran
  obtain ⟨_, b1, removed, freed⟩ := ran
  have keeps : Exec.Keeps (IntentTree.pool side).Relinked (IntentTree.remove side i) := RedBlack.LinkedPool.keeps_remove i
  have relinked := keeps b b1 (by rw [removed]; rfl)
  have order1 : b1.order = b.order :=
    congrArg BookView.order (IntentBook.view_of_bare (sameButTree_of_relinked relinked).bare)
  rw [IntentBook.freeNode, Exec.bind_ok] at freed
  obtain ⟨_, _, got, freed⟩ := freed
  obtain ⟨rfl, rfl⟩ := Exec.get_ok.mp got
  simp only [Exec.bind_ok, Exec.rejectIf_ok, not_or, Nat.not_le] at freed
  obtain ⟨_, _, ⟨⟨-, inside⟩, rfl⟩, put⟩ := freed
  obtain rfl := Exec.put_ok.mp put
  have emptied := congrArg BookView.order (IntentBook.view_setNode inside (.free b1.header.freelistHead))
  rw [← order1]
  exact emptied

/-- An intent that was written back and is used up is taken out. -/
theorem order_removeWhen {node : IntentNode} (ran : (Exec.when (node.contractsRemaining = 0) (removeIntent side i)).run b = .ok u b')
    (written : b.order i = some (node.withLinks noLinks)) : b'.order = Function.update b.order i node.rest := by
  rcases Exec.when_ok.mp ran with ⟨used_up, removed⟩ | ⟨some_left, rfl⟩
  · rw [order_removeIntent removed, IntentNode.rest, if_pos used_up]
  · rw [IntentNode.rest, if_neg some_left, ← written, Function.update_eq_self]

/-- Writing a pair back leaves of each order what its node has left, whatever the links of the book are. -/
theorem order_writePair {nowSlot : ℕ} {p q : Pair} (found : Found b nowSlot p) (sameL : q.longIdx = p.longIdx)
    (sameS : q.shortIdx = p.shortIdx) (ran : (writePair q).run b = .ok u b') :
    b'.order = Function.update (Function.update b.order p.longIdx q.long.rest) p.shortIdx q.short.rest := by
  have different := found.ne
  have short1 : (b.setNode p.longIdx (.intent q.long)).nodes[p.shortIdx]? = some (.intent p.short) := by
    rw [IntentBook.getElem?_setNode_of_ne different]
    exact found.short
  rw [writePair, sameL, sameS, Exec.run_bind, run_updateIntent found.long, Outcome.bind_ok, Exec.run_bind,
    run_updateIntent short1, Outcome.bind_ok, Exec.bind_ok] at ran
  obtain ⟨_, b1, doneL, doneS⟩ := ran
  have orderL : (b.setNode p.longIdx (.intent q.long)).order =
      Function.update b.order p.longIdx (some (q.long.withLinks noLinks)) :=
    congrArg BookView.order (IntentBook.view_setNode (IntentBook.lt_length_of_getElem? found.long) _)
  have order2 : ((b.setNode p.longIdx (.intent q.long)).setNode p.shortIdx (.intent q.short)).order =
      Function.update (b.setNode p.longIdx (.intent q.long)).order p.shortIdx (some (q.short.withLinks noLinks)) :=
    congrArg BookView.order (IntentBook.view_setNode (IntentBook.lt_length_of_getElem? short1) _)
  rw [orderL] at order2
  have order1 := order_removeWhen doneL (by rw [order2, Function.update_of_ne (Ne.symm different), Function.update_self])
  rw [order2, Function.update_comm different, Function.update_idem] at order1
  rw [order_removeWhen doneS (by rw [order1, Function.update_self]), order1, Function.update_idem]

/-- A contract is gone, with the intent if it was the last. -/
theorem remaining_fill {node : IntentNode} (some_left : node.contractsRemaining ≠ 0) (bucket release : ℕ) :
    (node.fill bucket release).rest.elim 0 IntentNode.contractsRemaining + 1 = node.contractsRemaining := by
  have left : (node.fill bucket release).contractsRemaining = node.contractsRemaining - 1 := rfl
  unfold IntentNode.rest
  split
  next used_up =>
    rw [Option.elim_none]
    omega
  next more =>
    rw [Option.elim_some]
    change (node.fill bucket release).contractsRemaining + 1 = _
    omega

/-- One contract of each intent of a pair is gone, and the other intents are as they were. -/
structure Consumed (b b' : IntentBook) (p : Pair) : Prop where
  long : b'.remainingAt p.longIdx + 1 = b.remainingAt p.longIdx
  short : b'.remainingAt p.shortIdx + 1 = b.remainingAt p.shortIdx
  others : ∀ i, i ≠ p.longIdx → i ≠ p.shortIdx → b'.order i = b.order i

theorem Found.consumed {nowSlot bucket : ℕ} {p q : Pair} {longRelease shortRelease : ℕ} (found : Found b nowSlot p)
    (consumed : consume bucket p = .ok (q, longRelease, shortRelease)) (ran : (writePair q).run b = .ok u b') :
    Consumed b b' p := by
  obtain ⟨rfl, -⟩ := consume_ok consumed
  have order := order_writePair (q := ⟨_, _, p.long.fill bucket longRelease, p.short.fill bucket shortRelease⟩) found rfl rfl ran
  constructor
  · rw [IntentBook.remainingAt, IntentBook.remainingAt, order, Function.update_of_ne (Ne.symm found.ne), Function.update_self,
      IntentBook.order_of_intent found.long]
    exact remaining_fill found.longLive.2 bucket longRelease
  · rw [IntentBook.remainingAt, IntentBook.remainingAt, order, Function.update_self, IntentBook.order_of_intent found.short]
    exact remaining_fill found.shortLive.2 bucket shortRelease
  · intro i notLong notShort
    rw [order, Function.update_of_ne notShort, Function.update_of_ne notLong]

/-- The intent of a pair on this side. -/
def Pair.on (p : Pair) (side : ℕ) : IntentNode := if side = SIDE_LONG then p.long else p.short

end Book

/-- What a substitution does in the book: one contract of each intent is gone. The entry of the position lies between
the two prices, and the intent on the side that is left belongs to the one who enters. -/
theorem substituteInBook_ok {substitutor : Pubkey} {p : Pmlc} {bucket longId shortId nowSlot : ℕ} {c : SubstitutionCtx}
    {b b' : IntentBook} (ran : (substituteInBook substitutor p bucket longId shortId nowSlot).run b = .ok c b') :
    ∃ pair, Book.findPair longId shortId nowSlot b = .ok pair ∧ Book.Consumed b b' pair ∧
      (pair.short.priceFp ≤ p.entryPriceFp ∧ p.entryPriceFp ≤ pair.long.priceFp) ∧
      b.trader (pair.on c.pmlcSide).ownerSeat = some c.newPmlcOwner ∧
      c.matchMidpoint = priceMidpoint pair.long.priceFp pair.short.priceFp := by
  simp only [substituteInBook, Exec.bind_check, exists_const, not_or, Nat.not_lt, not_and_or, ne_eq, not_not] at ran
  obtain ⟨pair, found, within, longSeat, seatL, shortSeat, seatS, mine, -, ⟨filled, longRelease, shortRelease⟩, consumed, ran⟩ := ran
  rw [Exec.bind_ok] at ran
  obtain ⟨_, b1, wrote, ran⟩ := ran
  obtain ⟨rfl, rfl⟩ := Exec.pure_ok.mp ran
  obtain ⟨placed, -, -⟩ := Book.found_of_findPair found
  refine ⟨pair, found, placed.consumed consumed wrote, within, ?_, rfl⟩
  have traderL := IntentBook.trader_of_seat (IntentBook.seat_eq_ok.mp seatL)
  have traderS := IntentBook.trader_of_seat (IntentBook.seat_eq_ok.mp seatS)
  change b.trader (pair.on (if shortSeat.trader = substitutor then SIDE_LONG else SIDE_SHORT)).ownerSeat =
    some (if longSeat.trader = substitutor then shortSeat.trader else longSeat.trader)
  by_cases ownsShort : shortSeat.trader = substitutor
  · rw [if_pos ownsShort]
    change b.trader pair.long.ownerSeat = _
    rw [traderL]
    split
    next ownsLong => rw [ownsLong, ownsShort]
    · rfl
  · rw [if_neg ownsShort, if_pos (mine.resolve_right ownsShort)]
    exact traderS

/-! ### The balances of margin accounts -/

namespace Ledger

/-- What a margin account holds in all. -/
def marginTotal (s : Ledger) (k : Pubkey) : ℤ :=
  match s.data k with
  | .marginAccount m => m.total
  | _ => 0

def marginLocked (s : Ledger) (k : Pubkey) : ℤ :=
  match s.data k with
  | .marginAccount m => m.lockedCollateral
  | _ => 0

/-- A margin account of this trader lies here. -/
def MarginOf (s : Ledger) (k owner : Pubkey) : Prop := ∃ m, s.data k = .marginAccount m ∧ m.owner = owner

theorem marginTotal_of_data {m : MarginAccount} (held : s.data k = .marginAccount m) : s.marginTotal k = m.total := by
  rw [marginTotal, held]

theorem marginLocked_of_data {m : MarginAccount} (held : s.data k = .marginAccount m) :
    s.marginLocked k = m.lockedCollateral := by
  rw [marginLocked, held]

theorem MarginOf.unique {owner owner' : Pubkey} (here : s.MarginOf k owner) (here' : s.MarginOf k owner') : owner = owner' := by
  obtain ⟨m, held, rfl⟩ := here
  obtain ⟨m', held', rfl⟩ := here'
  cases held.symm.trans held'
  rfl

theorem MarginOf.congr {owner : Pubkey} (same : t.get k = s.get k) : t.MarginOf k owner ↔ s.MarginOf k owner := by
  rw [MarginOf, MarginOf, Ledger.data, Ledger.data, same]

/-- A movement of one trader's margin account. -/
structure MovesAt (s t : Ledger) (k owner : Pubkey) (total locked : ℤ) : Prop where
  before : s.MarginOf k owner
  after : t.MarginOf k owner
  totals : t.marginTotal = s.marginTotal + Pi.single k total
  locks : t.marginLocked = s.marginLocked + Pi.single k locked
  others : ∀ j, j ≠ k → t.get j = s.get j

/-- Margin accounts stay with their owners. -/
theorem MovesAt.marginOf {j owner owner' : Pubkey} {total locked : ℤ} (moves : s.MovesAt t k owner total locked) :
    t.MarginOf j owner' ↔ s.MarginOf j owner' := by
  by_cases here : j = k
  · subst here
    constructor
    · intro after
      exact moves.after.unique after ▸ moves.before
    · intro before
      exact moves.before.unique before ▸ moves.after
  · exact MarginOf.congr (moves.others j here)

theorem movesAt_setData {m m' : MarginAccount} {total reserved locked : ℤ} (held : s.data k = .marginAccount m)
    (step : MarginStep m m' total reserved locked) :
    s.MovesAt (s.setData k (.marginAccount m')) k m.owner total locked := by
  have written : (s.setData k (.marginAccount m')).data k = .marginAccount m' := Ledger.data_setData_self _ _
  refine ⟨⟨m, held, rfl⟩, ⟨m', written, step.same.1⟩, ?_, ?_, fun j other => Ledger.get_setData_of_ne _ _ other⟩
  · funext j
    rw [Pi.add_apply]
    by_cases here : j = k
    · rw [here, Pi.single_eq_same, marginTotal_of_data written, marginTotal_of_data held]
      exact step.total
    · rw [Pi.single_eq_of_ne here, add_zero, marginTotal, marginTotal, Ledger.data_setData_of_ne _ _ here]
  · funext j
    rw [Pi.add_apply]
    by_cases here : j = k
    · rw [here, Pi.single_eq_same, marginLocked_of_data written, marginLocked_of_data held]
      exact step.locked
    · rw [Pi.single_eq_of_ne here, add_zero, marginLocked, marginLocked, Ledger.data_setData_of_ne _ _ here]

theorem movesAt_atMargin {owner mint : Pubkey} {movement : MarginM Unit} {total reserved locked : ℤ}
    (ran : (atMargin rt inv k (asOwner owner mint movement)).run s = .ok u t)
    (step : ∀ m m', movement.run m = .ok () m' → MarginStep m m' total reserved locked) :
    s.MovesAt t k owner total locked := by
  obtain ⟨m, m', held, inner, rfl⟩ := atMargin_ok ran
  obtain ⟨⟨rfl, -⟩, moved⟩ := asOwner_ok inner
  exact movesAt_setData held (step m m' moved)

theorem MarginOf.kind {owner : Pubkey} (here : s.MarginOf k owner) : (s.data k).kind = .marginAccount := by
  obtain ⟨m, held, -⟩ := here
  exact congrArg AccountData.kind held

section Touches

variable {kinds : List AccountKind} (touches : Touches kinds kinds s t) (none : AccountKind.marginAccount ∉ kinds)

include touches none

theorem marginOf_of_touches {j owner : Pubkey} : t.MarginOf j owner ↔ s.MarginOf j owner := by
  rcases touches j with kept | ⟨before, after⟩
  · exact MarginOf.congr kept
  · exact iff_of_false (fun here => none (here.kind ▸ after)) fun here => none (here.kind ▸ before)

/-- Whatever is written to other accounts, the balances stay. -/
theorem margins_of_touches : t.marginTotal = s.marginTotal ∧ t.marginLocked = s.marginLocked := by
  have same : ∀ j, t.data j = s.data j ∨ (t.marginTotal j = s.marginTotal j ∧ t.marginLocked j = s.marginLocked j) := by
    intro j
    rcases touches j with kept | ⟨before, after⟩
    · exact .inl (congrArg Account.data kept)
    · right
      have other : ∀ v : Ledger, (v.data j).kind ∈ kinds → v.marginTotal j = 0 ∧ v.marginLocked j = 0 := by
        intro v written
        rw [marginTotal, marginLocked]
        cases held : v.data j with
        | marginAccount m =>
          rw [held] at written
          exact absurd written none
        | _ => exact ⟨rfl, rfl⟩
      rw [(other t after).1, (other s before).1, (other t after).2, (other s before).2]
      exact ⟨rfl, rfl⟩
  constructor
  · funext j
    rcases same j with kept | ⟨totals, -⟩
    · rw [marginTotal, marginTotal, kept]
    · exact totals
  · funext j
    rcases same j with kept | ⟨-, locks⟩
    · rw [marginLocked, marginLocked, kept]
    · exact locks

end Touches

end Ledger

/-! ### A side changes hands -/

/-- A side of a position that changes hands, and what the one who enters pays for it. -/
structure Exit where
  pmlc : Pubkey
  p : Pmlc
  side : ℕ
  leaving : Pubkey
  entering : Pubkey
  premium : ℤ

namespace Exit

def leavingMargin (rt : Runtime) (x : Exit) : Pubkey := rt.address (.margin x.leaving x.p.collateralMint)

def enteringMargin (rt : Runtime) (x : Exit) : Pubkey := rt.address (.margin x.entering x.p.collateralMint)

/-- A side changed hands, and only the two traders paid for it. -/
structure Fair (rt : Runtime) (nowSlot : ℕ) (books : List Pubkey) (x : Exit) (s t : Ledger) : Prop where
  before : s.get x.pmlc = ⟨rt.programId, .pmlc x.p⟩
  owned : x.p.owner x.side = x.leaving
  after : t.get x.pmlc = ⟨rt.programId, .pmlc (x.p.handedOver x.side x.entering nowSlot)⟩
  margins : s.MarginOf (x.leavingMargin rt) x.leaving ∧ s.MarginOf (x.enteringMargin rt) x.entering ∧
    t.MarginOf (x.leavingMargin rt) x.leaving ∧ t.MarginOf (x.enteringMargin rt) x.entering
  conserved : ∑ k ∈ {x.leavingMargin rt, x.enteringMargin rt}, t.marginTotal k =
    ∑ k ∈ {x.leavingMargin rt, x.enteringMargin rt}, s.marginTotal k
  bounded : x.premium.natAbs ≤ x.p.collateralPerSide
  apart : x.leaving ≠ x.entering →
    t.marginTotal (x.leavingMargin rt) = s.marginTotal (x.leavingMargin rt) + x.premium ∧
    t.marginTotal (x.enteringMargin rt) = s.marginTotal (x.enteringMargin rt) - x.premium ∧
    t.marginLocked (x.leavingMargin rt) = s.marginLocked (x.leavingMargin rt) - x.p.collateralPerSide ∧
    t.marginLocked (x.enteringMargin rt) = s.marginLocked (x.enteringMargin rt) + x.p.collateralPerSide
  thirds : ∀ k m, s.get k = ⟨rt.programId, .marginAccount m⟩ → m.owner ≠ x.leaving → m.owner ≠ x.entering →
    t.get k = s.get k
  others : ∀ k, k ∉ books → k ≠ x.pmlc → k ≠ x.leavingMargin rt → k ≠ x.enteringMargin rt → t.get k = s.get k

variable {x : Exit} {s1 s2 s3 : Ledger} {books : List Pubkey}

/-- Whatever was done to books before, the two movements and the hand-over make a fair exit. -/
theorem fair_of_steps (held : s.get x.pmlc = ⟨rt.programId, .pmlc x.p⟩) (owned : x.p.owner x.side = x.leaving)
    (bounded : x.premium.natAbs ≤ x.p.collateralPerSide) (first : Touches [.intentBook] [.intentBook] s s1)
    (elsewhere : ∀ k, k ∉ books → s1.get k = s.get k)
    (leave : s1.MovesAt s2 (x.leavingMargin rt) x.leaving x.premium (-x.p.collateralPerSide))
    (enter : s2.MovesAt s3 (x.enteringMargin rt) x.entering (-x.premium) x.p.collateralPerSide)
    (handed : (handOver rt inv x.pmlc x.side x.entering).run s3 = .ok u t) : x.Fair rt inv.slot books s t := by
  -- The position lies apart from the books and from the margin accounts.
  have held1 : s1.get x.pmlc = ⟨rt.programId, .pmlc x.p⟩ := by
    rw [← held]
    apply first.get_eq
    simp [Ledger.data, held]
  have notLeaving : x.pmlc ≠ x.leavingMargin rt := by
    intro same
    obtain ⟨m, margin, -⟩ := leave.before
    rw [← same, Ledger.data, held1] at margin
    cases margin
  have held2 := (leave.others _ notLeaving).trans held1
  have notEntering : x.pmlc ≠ x.enteringMargin rt := by
    intro same
    obtain ⟨m, margin, -⟩ := enter.before
    rw [← same, Ledger.data, held2] at margin
    cases margin
  have held3 := (enter.others _ notEntering).trans held2
  obtain ⟨p, found, written⟩ := updateAccount_eq handed
  rw [Ledger.data, held3] at found
  cases found
  have last : Touches [.pmlc] [.pmlc] s3 t := by
    rw [written]
    exact touches_setData (by simp [Ledger.data, held3, AccountData.kind]) (by simp [AccountData.kind])
  obtain ⟨totals1, locks1⟩ := Ledger.margins_of_touches first (by simp)
  obtain ⟨totals4, locks4⟩ := Ledger.margins_of_touches last (by simp)
  have totals : t.marginTotal = s.marginTotal + Pi.single (x.leavingMargin rt) x.premium +
      Pi.single (x.enteringMargin rt) (-x.premium) := by
    rw [totals4, enter.totals, leave.totals, totals1]
  have locks : t.marginLocked = s.marginLocked + Pi.single (x.leavingMargin rt) (-(x.p.collateralPerSide : ℤ)) +
      Pi.single (x.enteringMargin rt) (x.p.collateralPerSide : ℤ) := by
    rw [locks4, enter.locks, leave.locks, locks1]
  have marginOf : ∀ j owner, t.MarginOf j owner ↔ s.MarginOf j owner := fun j owner =>
    (Ledger.marginOf_of_touches last (by simp)).trans
      (enter.marginOf.trans (leave.marginOf.trans (Ledger.marginOf_of_touches first (by simp))))
  have leaves : s.MarginOf (x.leavingMargin rt) x.leaving := (Ledger.marginOf_of_touches first (by simp)).mp leave.before
  have enters : s.MarginOf (x.enteringMargin rt) x.entering :=
    (Ledger.marginOf_of_touches first (by simp)).mp (leave.marginOf.mp enter.before)
  have others : ∀ k, s1.get k = s.get k → k ≠ x.pmlc → k ≠ x.leavingMargin rt → k ≠ x.enteringMargin rt →
      t.get k = s.get k := by
    intro k kept notPmlc notLeaving notEntering
    rw [written, Ledger.get_setData_of_ne _ _ notPmlc, enter.others k notEntering, leave.others k notLeaving, kept]
  constructor
  case before => exact held
  case owned => exact owned
  case after =>
    rw [written, Ledger.get_setData_self, Ledger.owner, held3]
    rfl
  case margins => exact ⟨leaves, enters, (marginOf _ _).mpr leaves, (marginOf _ _).mpr enters⟩
  case conserved =>
    rw [totals]
    simp [Finset.sum_add_distrib, Finset.sum_pi_single']
  case bounded => exact bounded
  case apart =>
    intro different
    have elsewhere : x.leavingMargin rt ≠ x.enteringMargin rt := fun same => different (leaves.unique (same ▸ enters))
    rw [totals, locks]
    simp [elsewhere, elsewhere.symm, sub_eq_add_neg]
  case thirds =>
    intro k m margin notLeaving notEntering
    have third : s.MarginOf k m.owner := ⟨m, congrArg Account.data margin, rfl⟩
    apply others
    · apply first.get_eq
      simp [third.kind]
    · rintro rfl
      cases held.symm.trans margin
    · rintro rfl
      exact notLeaving (third.unique leaves)
    · rintro rfl
      exact notEntering (third.unique enters)
  case others =>
    intro k notBook notPmlc notLeaving notEntering
    exact others k (elsewhere k notBook) notPmlc notLeaving notEntering

end Exit

/-- Nobody pays for a novation. -/
theorem fair_processNovate {side : UInt8} (ran : (processNovate rt inv side).run s = .ok () t) :
    ∃ x : Exit, (Instruction.novate side).pmlcOf inv.accounts = some x.pmlc ∧ x.side = side.toNat ∧ x.premium = 0 ∧
      x.Fair rt inv.slot [] s t := by
  unfold processNovate at ran
  split at ran
  next currentOwner newOwner config instrument pmlc currentMargin newMargin rest accounts =>
    simp only [Exec.bind_check, exists_const, ne_eq, not_not, Pmlc.requireLive_ok] at ran
    obtain ⟨-, -, -, -, -, owned, -, -, -, p, held, live, mine, inst, -, -, -, _, ⟨rfl, -⟩, _, ⟨rfl, -⟩, ran⟩ := ran
    simp only [Exec.bind_ok] at ran
    obtain ⟨_, s1, unlocked, _, s2, locked, handed⟩ := ran
    have leave := Ledger.movesAt_atMargin unlocked fun _ _ moved => marginStep_moveLockedToFree moved
    have enter := Ledger.movesAt_atMargin locked fun _ _ moved => marginStep_takeOver moved
    have at_pmlc := get_eq_of_data (owned pmlc (by simp)) held
    let x : Exit := ⟨pmlc, p, side.toNat, currentOwner, newOwner, 0⟩
    refine ⟨x, by rw [accounts]; rfl, rfl, rfl, ?_⟩
    have pays : s1.MovesAt s2 (x.enteringMargin rt) x.entering (-x.premium) x.p.collateralPerSide := enter
    exact Exit.fair_of_steps at_pmlc mine (Nat.zero_le _) (Std.Refl.refl s) (fun _ _ => rfl) leave pays handed
  · cases ran

namespace Instruction

/-- The arguments of a substitution, and whether it settles. -/
def substitution : Instruction → Option (MatchPairArgs × Bool)
  | matchSubstitute args => some (args, false)
  | matchSubstituteWithSettle args => some (args, true)
  | _ => none

end Instruction

/-- A fair exit through a book: the pair was filled, the entry that is inherited is no worse than the limit of the
one who enters, and the premium is what the side gained up to the midpoint of the pair. -/
structure Exit.ThroughBook (args : MatchPairArgs) (withSettle : Bool) (nowSlot : ℕ) (x : Exit) (b b' : IntentBook)
    (pair : Book.Pair) : Prop where
  found : Book.findPair args.longIntentId.toNat args.shortIntentId.toNat nowSlot b = .ok pair
  consumed : Book.Consumed b b' pair
  own : b.trader (pair.on x.side).ownerSeat = some x.entering
  inherits : if x.side = SIDE_LONG then x.p.entryPriceFp ≤ pair.long.priceFp else pair.short.priceFp ≤ x.p.entryPriceFp
  plain : withSettle = false → x.premium = 0
  settles : withSettle = true →
    ∃ pnlLong, pnlLongAtoms x.p.entryPriceFp (priceMidpoint pair.long.priceFp pair.short.priceFp) x.p.sizeFp = .ok pnlLong ∧
      x.premium = if x.side = SIDE_LONG then pnlLong else -pnlLong

theorem substitutionDelta_ok {p : Pmlc} {bucket : ℕ} {c : SubstitutionCtx} {delta : ℤ}
    (computed : substitutionDelta true p bucket c = .ok delta) :
    ∃ pnlLong, pnlLongAtoms p.entryPriceFp c.matchMidpoint p.sizeFp = .ok pnlLong ∧
      delta = if c.pmlcSide = SIDE_LONG then pnlLong else -pnlLong := by
  cases pnl : pnlLongAtoms p.entryPriceFp c.matchMidpoint p.sizeFp with
  | error e => simp [substitutionDelta, pnl, bind, Except.bind] at computed
  | ok pnlLong =>
    simp only [substitutionDelta, pnl, bind, Except.bind, if_true] at computed
    refine ⟨pnlLong, rfl, ?_⟩
    generalize (if c.pmlcSide = SIDE_LONG then pnlLong else -pnlLong) = gained at computed ⊢
    split at computed
    · cases computed
    · cases computed
      rfl

/-- Only the two traders pay for a substitution. -/
theorem fair_doSubstitute {args : MatchPairArgs} {withSettle : Bool} (genuine : Genuine rt s)
    (ran : (doSubstitute rt inv args withSettle).run s = .ok () t) :
    ∃ (x : Exit) (book : Pubkey) (b b' : IntentBook) (pair : Book.Pair), inv.accounts[3]? = some x.pmlc ∧
      inv.accounts[2]? = some book ∧ s.data book = .intentBook b ∧ t.data book = .intentBook b' ∧ x.ThroughBook args withSettle inv.slot b b' pair ∧
      x.Fair rt inv.slot [book] s t := by
  unfold doSubstitute at ran
  split at ran
  next substitutor instrument book pmlc substitutorMargin counterpartyMargin rest accounts =>
    simp only [Exec.bind_check, exists_const, ne_eq, not_not, Pmlc.requireLive_ok] at ran
    obtain ⟨-, -, -, -, -, owned, inst, found, -, at_book, p, held, live, same_instrument, same_bucket, ran⟩ := ran
    rw [Exec.bind_ok] at ran
    obtain ⟨c, s1, substituted, ran⟩ := ran
    simp only [Exec.bind_check] at ran
    obtain ⟨delta, computed, _, ⟨rfl, -⟩, _, ⟨rfl, -⟩, ran⟩ := ran
    simp only [Exec.bind_ok] at ran
    obtain ⟨_, s2, left, _, s3, entered, handed⟩ := ran
    have listed : s.Listed rt instrument inst.listing := listed_of_load (owned _ (by simp)) found
    have small : delta.natAbs < 2 ^ 64 :=
      Nat.lt_of_le_of_lt (substitutionDelta_le computed) (genuine.listed_ok listed).2.2
    obtain ⟨-, c', listed', mint, -, -⟩ := genuine.pmlc_ok (owned _ (by simp)) held
    rw [same_instrument] at listed'
    obtain rfl := listed.unique listed'
    obtain ⟨b, b', held_book, inner, written⟩ := atBook_ok substituted
    obtain ⟨pair, pair_found, consumed, within, own, midpoint⟩ := substituteInBook_ok inner
    have bounded := substitutionDelta_le computed
    rw [← same_bucket] at bounded left entered
    have mint' : inst.collateralMint = p.collateralMint := mint.symm
    rw [mint'] at left entered
    have leave := Ledger.movesAt_atMargin left fun _ _ moved => marginStep_leaveSide small moved
    have enter := Ledger.movesAt_atMargin entered fun _ _ moved => marginStep_enterSide small moved
    have at_pmlc := get_eq_of_data (owned pmlc (by simp)) held
    let x : Exit := ⟨pmlc, p, c.pmlcSide, substitutor, c.newPmlcOwner, delta⟩
    have elsewhere : ∀ k, k ∉ [book] → s1.get k = s.get k := by
      intro k notBook
      rw [written, Ledger.get_setData_of_ne _ _ (List.ne_of_not_mem_cons notBook)]
    have fair : x.Fair rt inv.slot [book] s t :=
      Exit.fair_of_steps at_pmlc (substituteInBook_owner inner) bounded (Within.keeps.ok substituted) elsewhere leave enter
        handed
    refine ⟨x, book, b, b', pair, by rw [accounts]; rfl, by rw [accounts]; rfl, held_book, ?_, ?_, fair⟩
    · -- What follows the fill leaves the book alone.
      have first : Touches [.marginAccount, .pmlc] [.marginAccount, .pmlc] s1 s2 := Within.keeps.ok left
      have second : Touches [.marginAccount, .pmlc] [.marginAccount, .pmlc] s2 s3 := Within.keeps.ok entered
      have third : Touches [.marginAccount, .pmlc] [.marginAccount, .pmlc] s3 t := Within.keeps.ok handed
      have filled : s1.data book = .intentBook b' := by
        rw [written, Ledger.data_setData_self]
      rw [← filled]
      apply congrArg Account.data
      apply (Trans.trans first (Trans.trans second third)).get_eq
      simp [filled, AccountData.kind]
    · constructor
      case found => exact pair_found
      case consumed => exact consumed
      case own => exact own
      case inherits =>
        split
        · exact within.2
        · exact within.1
      case plain =>
        rintro rfl
        exact (Except.ok.inj computed).symm
      case settles =>
        rintro rfl
        rw [← midpoint]
        exact substitutionDelta_ok computed
  · cases ran

/-- Leaving a position moves money between the two traders only: what one gains the other loses, at most the
collateral of a side and nothing unless the substitution settles, the locked collateral changes hands with the side, of
the position only its owner and its last mark change, and of the book one contract of each intent is gone. -/
theorem exits_are_zero_sum (reached : Reachable rt (fun _ => True) s) (c : Call rt) (returns : c.returns s = true) :
    (∀ side, c.instruction = .novate side →
      ∃ x : Exit, c.instruction.pmlcOf c.inv.accounts = some x.pmlc ∧ x.side = side.toNat ∧ x.premium = 0 ∧
        x.Fair rt c.inv.slot [] s (execute rt c s)) ∧
    ∀ args withSettle, c.instruction.substitution = some (args, withSettle) →
      ∃ (x : Exit) (book : Pubkey) (b b' : IntentBook) (pair : Book.Pair),
        c.instruction.pmlcOf c.inv.accounts = some x.pmlc ∧ c.inv.accounts[2]? = some book ∧
        s.data book = .intentBook b ∧ (execute rt c s).data book = .intentBook b' ∧
        x.ThroughBook args withSettle c.inv.slot b b' pair ∧ x.Fair rt c.inv.slot [book] s (execute rt c s) := by
  have ran := Call.ran returns
  obtain ⟨inv, instruction⟩ := c
  constructor
  · rintro side rfl
    exact fair_processNovate ran
  · intro args withSettle substitutes
    have genuine := genuine_of_reachable reached
    cases instruction with
    | matchSubstitute args' =>
      cases substitutes
      exact @fair_doSubstitute rt inv s _ args false genuine ran
    | matchSubstituteWithSettle args' =>
      cases substitutes
      exact @fair_doSubstitute rt inv s _ args true genuine ran
    | _ => cases substitutes

namespace Sample

/-- Alice leaves her side to Carol. -/
def novation : Call Runtime.sample :=
  call (.novate 0) [alice, carol] [alice, carol, config, instrument poly, pmlc poly 3, marginOf alice, marginOf carol]

/-- Alice asks for what she paid, and Carol bids more. -/
def offered : Ledger :=
  runCalls Runtime.sample (trading ++ [post poly alice 1 1,
    call (.postIntent ⟨0, 600000000000000000, 1, 100, 0, 0⟩) [carol]
      [carol, config, instrument poly, book poly, marginOf carol]]) genesis

/-- Carol takes over Alice's side, and pays for what it gained. -/
def takeover : Call Runtime.sample :=
  call (.matchSubstituteWithSettle ⟨5, 4, 0⟩) [alice]
    [alice, instrument poly, book poly, pmlc poly 3, marginOf alice, marginOf carol]

end Sample

/-- Carol takes over Alice's side by a novation, or through the book. -/
theorem exits_are_zero_sum_taken :
    (∃ x : Exit, x.premium = 0 ∧
      x.Fair Runtime.sample 1 [] Sample.traded (execute Runtime.sample Sample.novation Sample.traded)) ∧
    ∃ (x : Exit) (b b' : IntentBook) (pair : Book.Pair), x.ThroughBook ⟨5, 4, 0⟩ true 1 b b' pair ∧
      x.Fair Runtime.sample 1 [Sample.book Sample.poly] Sample.offered
        (execute Runtime.sample Sample.takeover Sample.offered) := by
  constructor
  · have reached : Reachable Runtime.sample (fun _ => True) Sample.traded := Sample.reachable fun _ _ => trivial
    obtain ⟨x, -, -, free, fair⟩ := (exits_are_zero_sum reached Sample.novation (by decide +kernel)).1 0 rfl
    exact ⟨x, free, fair⟩
  · have reached : Reachable Runtime.sample (fun _ => True) Sample.offered := Sample.reachable fun _ _ => trivial
    obtain ⟨x, book, b, b', pair, -, at_book, -, -, through, fair⟩ :=
      (exits_are_zero_sum reached Sample.takeover (by decide +kernel)).2 ⟨5, 4, 0⟩ true rfl
    have here : Sample.book Sample.poly = book := Option.some.inj at_book
    rw [← here] at fair
    exact ⟨x, b, b', pair, through, fair⟩

end Polyleverage
