import Polyleverage.Invariants.TradeMoves

/-! # Positions and expired orders move nothing

A side of a position changes hands together with its collateral, and a settlement unlocks the collateral
of both sides. Only a liquidation may pay out more than it took.
-/

namespace Polyleverage

open Machine

variable {rt : Runtime} {inv : rt.Invocation} {s t : Ledger} {k : Pubkey} {u : Unit}

/-! ### Pruning -/

/-- What a prune found lies in the book, with its trader and what it reserves. -/
def Measured (b : IntentBook) (work : List (ℕ × IntentNode × Pubkey × ℕ)) : Prop :=
  (∀ idx node trader total, (idx, node, trader, total) ∈ work → b.order idx = some (node.withLinks noLinks) ∧
    b.trader node.ownerSeat = some trader ∧ node.reservedCollateral + node.feeBuffer = total) ∧
  (work.map Prod.fst).Nodup

theorem measured_of_scan {b : IntentBook} {pick : IntentNode → Bool} {limit : ℕ}
    {work : List (ℕ × IntentNode × Pubkey × ℕ)}
    (scanned : Book.scanIntents pick (measureExpired b) limit 0 b.nodes = .ok work) : Measured b work := by
  obtain ⟨all, nodup⟩ := Book.scanIntents_ok scanned
  refine ⟨fun idx node trader total member => ?_, nodup⟩
  obtain ⟨-, slot, -, measured⟩ := all idx node (trader, total) member
  refine ⟨IntentBook.order_of_intent slot, ?_⟩
  cases seated : b.seat node.ownerSeat with
  | error e => simp [measureExpired, seated, bind, Except.bind] at measured
  | ok seat =>
    cases reserved : Book.reservation node with
    | error e => simp [measureExpired, seated, reserved, bind, Except.bind] at measured
    | ok amount =>
      simp only [measureExpired, seated, reserved, bind, Except.bind, Except.ok.injEq, Prod.mk.injEq] at measured
      obtain ⟨rfl, rfl⟩ := measured
      exact ⟨IntentBook.trader_of_seat (IntentBook.seat_eq_ok.mp seated), Book.reservation_ok reserved⟩

theorem pruneSlot_ok {b b' : IntentBook} {i : ℕ} {o : IntentNode} (tidy : Tidy b) (placed : b.order i = some o)
    (ran : (pruneSlot i o.side).run b = .ok u b') :
    b'.view = { b.view with order := Function.update b.order i none } := by
  obtain ⟨node, slot, rfl⟩ := IntentBook.intent_of_order placed
  simp only [pruneSlot, Exec.bind_check] at ran
  obtain ⟨node', slot', ran⟩ := ran
  rw [IntentBook.intent_eq_ok, slot] at slot'
  cases slot'
  exact (Book.cancel_ok tidy slot ran).2

/-- What is left to do lies in the book after a slot was pruned. -/
theorem Measured.tail {b b' : IntentBook} {idx total : ℕ} {node : IntentNode} {trader : Pubkey}
    {work : List (ℕ × IntentNode × Pubkey × ℕ)} (measured : Measured b ((idx, node, trader, total) :: work))
    (view : b'.view = { b.view with order := Function.update b.order idx none }) : Measured b' work := by
  have order : b'.order = Function.update b.order idx none := congrArg BookView.order view
  have traders : b'.trader = b.trader := congrArg BookView.trader view
  have nodup := List.nodup_cons.mp measured.2
  refine ⟨fun j n t m member => ?_, nodup.2⟩
  obtain ⟨placed, seated, sum⟩ := measured.1 j n t m (List.mem_cons_of_mem _ member)
  refine ⟨?_, ?_, sum⟩
  · have other : j ≠ idx := by
      rintro rfl
      exact nodup.1 (List.mem_map.mpr ⟨_, member, rfl⟩)
    rw [order, Function.update_of_ne other, placed]
  · rw [traders, seated]

section Prune

variable {book mint : Pubkey}

theorem steady_pruneAll {work : List (ℕ × IntentNode × Pubkey × ℕ)} {margins : List Pubkey} (genuine : Genuine rt s)
    (ran : (pruneAll rt inv book mint work margins).run s = .ok u t) : Steady rt s t 0 := by
  induction work generalizing s margins with
  | nil =>
    obtain ⟨-, rfl⟩ := Exec.pure_ok.mp ran
    exact (Moved.refl genuine).toSteady
  | cons entry work ih =>
    obtain ⟨idx, node, trader, total⟩ := entry
    rw [pruneAll, Exec.bind_check] at ran
    obtain ⟨⟨margin, rest⟩, found, ran⟩ := ran
    simp only [Exec.bind_ok] at ran
    obtain ⟨_, s1, refunded, _, s2, pruned, ran⟩ := ran
    have first := (moved_atMargin genuine (findMargin_ok found).2.1 refunded fun _ _ => marginStep_moveReservedToFree).toSteady
    have second := steady_atBook first.genuine pruned
    refine (first.trans (second.trans (ih second.genuine ran))).weaken ?_ ?_ <;> simp [marginEntry]

/-- What a prune frees is what its orders counted. -/
theorem prune_entry (owner mint : Pubkey) (amount : ℤ) :
    marginEntry owner mint 0 (-amount) 0 + bookEntry mint (-Pi.single owner amount) = 0 := by
  rw [add_comm]
  exact cancel_entry owner mint amount

theorem moved_pruneAll {instrument : Pubkey} {c : InstrumentConfig} {work : List (ℕ × IntentNode × Pubkey × ℕ)}
    {margins : List Pubkey} (genuine : Genuine rt s) (books : Books rt s) (listed : s.Listed rt instrument c)
    (at_book : c.intentBook = book) (owned : s.owner book = rt.programId)
    (measured : ∀ b, s.data book = .intentBook b → Measured b work)
    (ran : (pruneAll rt inv book c.collateralMint work margins).run s = .ok u t) : Moved rt s t 0 := by
  induction work generalizing s margins with
  | nil =>
    obtain ⟨-, rfl⟩ := Exec.pure_ok.mp ran
    exact .refl genuine
  | cons entry work ih =>
    obtain ⟨idx, node, trader, total⟩ := entry
    rw [pruneAll, Exec.bind_check] at ran
    obtain ⟨⟨margin, rest⟩, found, ran⟩ := ran
    simp only [Exec.bind_ok] at ran
    obtain ⟨_, s1, refunded, _, s2, pruned, ran⟩ := ran
    have first := moved_atMargin genuine (findMargin_ok found).2.1 refunded fun _ _ => marginStep_moveReservedToFree
    have margins : Touches [.marginAccount] [.marginAccount] s s1 := Within.keeps.ok refunded
    -- The refund left the book alone.
    have same : ∀ b, s1.data book = .intentBook b → s.data book = .intentBook b := by
      intro b found
      rw [← found]
      exact (congrArg Account.data (margins.get_eq' (k := book) (by simp [found]))).symm
    have second := moved_atBook first.genuine (first.listed listed) at_book pruned (δ := -Pi.single trader (total : ℤ))
      (fun b b' found ran sound => by
        obtain ⟨placed, seated, sum⟩ := (measured b (same b found)).1 idx node trader total List.mem_cons_self
        have step := bookStep_pruneSlot sound placed seated ran
        rw [← sum]
        exact step) (first.owned _ owned)
    have cancels := (first.trans second).cast (prune_entry trader c.collateralMint total)
    refine cancels.then (ih cancels.genuine (cancels.books books) (cancels.listed listed) (cancels.owned _ owned) ?_ ran)
    obtain ⟨b0, b1, found0, inner, rfl, -⟩ := atAccount_ok pruned
    rw [AccountData.loadBook_ok] at found0
    intro b found
    rw [Ledger.data_setData_self] at found
    cases found
    have before := measured b0 (same b0 found0)
    obtain ⟨-, sound⟩ := genuine.sound_of_listed books listed at_book owned (same b0 found0)
    have placed := (before.1 idx node trader total List.mem_cons_self).1
    exact before.tail (pruneSlot_ok sound.consistent.tidy placed inner)

end Prune

theorem moved_processPruneExpired (genuine : Genuine rt s) (ran : (processPruneExpired rt inv).run s = .ok () t) :
    Moved rt s t 0 := by
  unfold processPruneExpired at ran
  split at ran
  next caller instrument book margins _ =>
    simp only [Exec.bind_check, exists_const, ne_eq, not_not] at ran
    obtain ⟨-, -, owned, inst, found, at_book, b, found_book, work, scanned, ran⟩ := ran
    apply (steady_pruneAll genuine ran).moved
    intro books
    have listed : s.Listed rt instrument inst.listing := listed_of_load (owned _ (by simp)) found
    refine moved_pruneAll genuine books listed at_book (owned _ (by simp)) ?_ ran
    intro b' found'
    rw [found_book] at found'
    cases found'
    exact measured_of_scan scanned
  · cases ran

/-! ### A side changes hands -/

/-- The position after a side was handed over. -/
def Pmlc.handedOver (p : Pmlc) (side : ℕ) (owner : Pubkey) (nowSlot : ℕ) : Pmlc :=
  { p.setOwner side owner with lastMarkSlot := nowSlot }

theorem Pmlc.sameTerms_handedOver (p : Pmlc) (side : ℕ) (owner : Pubkey) (nowSlot : ℕ) :
    p.SameTerms (p.handedOver side owner nowSlot) := by
  unfold Pmlc.handedOver Pmlc.setOwner
  split <;> exact ⟨rfl, rfl, rfl, rfl, rfl⟩

/-- The collateral follows the side. -/
theorem Pmlc.lockedFor_handedOver {p : Pmlc} (live : p.status = PMLC_STATUS_LIVE) (side : ℕ) (owner : Pubkey)
    (nowSlot : ℕ) (x : Pubkey) :
    ((p.handedOver side owner nowSlot).lockedFor x : ℤ) - p.lockedFor x =
      (Pi.single owner (p.collateralPerSide : ℤ) - Pi.single (p.owner side) (p.collateralPerSide : ℤ) : Pubkey → ℤ) x := by
  simp only [Pmlc.handedOver, Pmlc.setOwner, Pmlc.owner, Pmlc.lockedFor, Pi.sub_apply, Pi.single_apply, @eq_comm _ x]
  by_cases long : side = SIDE_LONG
  · simp only [long, if_true, live]
    by_cases fresh : owner = x <;> by_cases old : p.longOwner = x <;> simp [fresh, old]
  · simp only [long, if_false, live, if_true]
    by_cases fresh : owner = x <;> by_cases old : p.shortOwner = x <;> simp [fresh, old]

theorem moved_handOver {p : Pmlc} {side : ℕ} {owner : Pubkey} (genuine : Genuine rt s) (held : s.data k = .pmlc p)
    (live : p.status = PMLC_STATUS_LIVE) (ran : (handOver rt inv k side owner).run s = .ok u t) :
    Moved rt s t (pmlcEntry p.collateralMint
      (Pi.single owner (p.collateralPerSide : ℤ) - Pi.single (p.owner side) (p.collateralPerSide : ℤ))) := by
  have moved := moved_updatePmlc (f := fun p => p.handedOver side owner inv.slot) genuine held
    (p.sameTerms_handedOver side owner inv.slot) ran
  apply moved.cast
  rw [← funext (p.lockedFor_handedOver live side owner inv.slot)]

/-- What a side takes along is what it leaves behind. -/
theorem novate_entry (mint current new : Pubkey) (c : ℤ) :
    marginEntry current mint 0 0 (-c) +
      (marginEntry new mint 0 0 c + pmlcEntry mint (Pi.single new c - Pi.single current c)) = 0 := by
  funext x
  cases x with
  | backing mint' => simp [marginEntry, pmlcEntry]
  | reserve owner mint' => simp [marginEntry, pmlcEntry]
  | lock owner mint' =>
    simp only [Pi.add_apply, Pi.sub_apply, Pi.zero_apply, marginEntry, pmlcEntry, Pi.single_apply, @eq_comm _ owner]
    by_cases same : mint = mint'
    · by_cases old : current = owner <;> by_cases fresh : new = owner <;> simp [same, old, fresh]
    · simp [same]

/-- Whatever was written to margin accounts, the positions are what they were. -/
theorem pmlc_eq_of_margins {p : Pmlc} (margins : Touches [.marginAccount] [.marginAccount] s t)
    (held : s.data k = .pmlc p) : t.data k = .pmlc p := by
  rw [← held]
  exact congrArg Account.data (margins.get_eq (by simp [held]))

theorem moved_processNovate {side : UInt8} (genuine : Genuine rt s)
    (ran : (processNovate rt inv side).run s = .ok () t) : Moved rt s t 0 := by
  unfold processNovate at ran
  split at ran
  next currentOwner newOwner config instrument pmlc currentMargin newMargin rest _ =>
    simp only [Exec.bind_check, exists_const, ne_eq, not_not, Pmlc.requireLive_ok] at ran
    obtain ⟨-, -, -, -, -, -, -, -, -, p, held, live, mine, inst, -, -, -, _, ⟨here, -⟩, _, ⟨here', -⟩, ran⟩ := ran
    simp only [Exec.bind_ok] at ran
    obtain ⟨_, s1, unlocked, _, s2, locked, handed⟩ := ran
    have first := moved_atMargin genuine here unlocked fun _ _ moved => marginStep_moveLockedToFree (asOwner_ok moved).2
    have second := moved_atMargin first.genuine here' locked fun _ _ moved => marginStep_takeOver (asOwner_ok moved).2
    have held1 := pmlc_eq_of_margins (Within.keeps.ok unlocked) held
    have third := moved_handOver second.genuine (pmlc_eq_of_margins (Within.keeps.ok locked) held1) live handed
    rw [mine] at third
    exact (first.trans (second.trans third)).cast (novate_entry p.collateralMint currentOwner newOwner _)
  · cases ran

/-- The substitutor owns the side that it leaves. -/
theorem substituteInBook_owner {substitutor : Pubkey} {p : Pmlc} {bucket longId shortId nowSlot : ℕ}
    {c : SubstitutionCtx} {b b' : IntentBook}
    (ran : (substituteInBook substitutor p bucket longId shortId nowSlot).run b = .ok c b') :
    p.owner c.pmlcSide = substitutor := by
  simp only [substituteInBook, Exec.bind_ok, Exec.gets_ok, Exec.ofExcept_ok, Exec.rejectIf_ok, Exec.pure_ok,
    not_not] at ran
  obtain ⟨_, _, -, _, _, -, _, _, -, _, _, -, _, _, -, _, _, ⟨mine, -⟩, _, _, -, _, _, -, rfl, -⟩ := ran
  exact mine

/-- A difference is paid only when it stays within the collateral. -/
theorem natAbs_le_of_checked {bucket : ℕ} {delta delta' : ℤ}
    (checked : (if bucket < delta.natAbs then .error PolyleverageError.notLiquidatable else .ok delta :
      Except ProgramError ℤ) = .ok delta') : delta'.natAbs ≤ bucket := by
  split at checked
  · cases checked
  next within =>
    cases checked
    exact Nat.not_lt.mp within

theorem substitutionDelta_le {withSettle : Bool} {p : Pmlc} {bucket : ℕ} {c : SubstitutionCtx} {delta : ℤ}
    (computed : substitutionDelta withSettle p bucket c = .ok delta) : delta.natAbs ≤ bucket := by
  cases withSettle with
  | false =>
    cases computed
    exact Nat.zero_le _
  | true =>
    cases pnl : pnlLongAtoms p.entryPriceFp c.matchMidpoint p.sizeFp with
    | error e => simp [substitutionDelta, pnl, bind, Except.bind] at computed
    | ok pnlLong =>
      simp only [substitutionDelta, pnl, bind, Except.bind, if_true] at computed
      exact natAbs_le_of_checked computed

/-- What a substitution moves between the ledgers cancels out. -/
theorem substitute_entry (mint old new : Pubkey) (perSide oldRelease newRelease : ℕ) (delta : ℤ) :
    bookEntry mint (-Pi.single old ((perSide + oldRelease : ℕ) : ℤ) - Pi.single new ((perSide + newRelease : ℕ) : ℤ)) +
      (marginEntry old mint delta (-(perSide + oldRelease)) (-perSide) +
      (marginEntry new mint (-delta) (-(perSide + newRelease)) perSide +
      pmlcEntry mint (Pi.single new (perSide : ℤ) - Pi.single old (perSide : ℤ)))) = 0 := by
  funext x
  cases x with
  | backing mint' =>
    simp only [Pi.add_apply, Pi.zero_apply, bookEntry, marginEntry, pmlcEntry]
    by_cases same : mint = mint' <;> simp [same]
  | reserve owner mint' =>
    simp only [Pi.add_apply, Pi.sub_apply, Pi.neg_apply, Pi.zero_apply, bookEntry, marginEntry, pmlcEntry,
      Pi.single_apply, @eq_comm _ owner]
    by_cases same : mint = mint'
    · by_cases left : old = owner
      · by_cases entered : new = owner
        · simp [same, left, entered]
          omega
        · simp [same, left, entered]
      · by_cases entered : new = owner <;> simp [same, left, entered]
    · simp [same]
  | lock owner mint' =>
    simp only [Pi.add_apply, Pi.sub_apply, Pi.zero_apply, bookEntry, marginEntry, pmlcEntry, Pi.single_apply,
      @eq_comm _ owner]
    by_cases same : mint = mint'
    · by_cases left : old = owner <;> by_cases entered : new = owner <;> simp [same, left, entered]
    · simp [same]

theorem moved_doSubstitute {args : MatchPairArgs} {withSettle : Bool} (genuine : Genuine rt s)
    (ran : (doSubstitute rt inv args withSettle).run s = .ok () t) : Moved rt s t 0 := by
  unfold doSubstitute at ran
  split at ran
  next substitutor instrument book pmlc substitutorMargin counterpartyMargin rest _ =>
    simp only [Exec.bind_check, exists_const, ne_eq, not_not, Pmlc.requireLive_ok] at ran
    obtain ⟨-, -, -, -, -, owned, inst, found, -, at_book, p, held, live, same_instrument, same_bucket, ran⟩ := ran
    rw [Exec.bind_ok] at ran
    obtain ⟨c, s1, substituted, ran⟩ := ran
    simp only [Exec.bind_check] at ran
    obtain ⟨delta, computed, _, ⟨here, -⟩, _, ⟨here', -⟩, ran⟩ := ran
    simp only [Exec.bind_ok] at ran
    obtain ⟨_, s2, left, _, s3, entered, handed⟩ := ran
    have listed : s.Listed rt instrument inst.listing := listed_of_load (owned _ (by simp)) found
    have small : delta.natAbs < 2 ^ 64 :=
      Nat.lt_of_le_of_lt (substitutionDelta_le computed) (genuine.listed_ok listed).2.2
    obtain ⟨b, b', found_book, inner, -, -⟩ := atAccount_ok substituted
    have mine := substituteInBook_owner inner
    have first := moved_atBook genuine listed at_book substituted
      (fun _ _ _ ran sound => (bookStep_substituteInBook sound ran).1) (owned _ (by simp))
    have second := moved_atMargin first.genuine here left fun _ _ moved =>
      marginStep_leaveSide small (asOwner_ok moved).2
    have third := moved_atMargin second.genuine here' entered fun _ _ moved =>
      marginStep_enterSide small (asOwner_ok moved).2
    have books : Touches [.intentBook] [.intentBook] s s1 := Within.keeps.ok substituted
    have held1 : s1.data pmlc = .pmlc p := by
      rw [← held]
      exact congrArg Account.data (books.get_eq (by simp [held]))
    have held3 := pmlc_eq_of_margins (Within.keeps.ok entered) (pmlc_eq_of_margins (Within.keeps.ok left) held1)
    have fourth := moved_handOver third.genuine held3 live handed
    obtain ⟨-, c', listed', mint, -, perSide⟩ := genuine.pmlc_ok (owned _ (by simp)) held
    rw [same_instrument] at listed'
    obtain rfl := listed.unique listed'
    rw [mine, mint, perSide] at fourth
    exact (first.trans (second.trans (third.trans fourth))).cast
      (substitute_entry inst.collateralMint substitutor c.newPmlcOwner _ _ _ delta)
  · cases ran

/-! ### Re-entry -/

theorem reserveFor_ok {contracts bucket maxFeeBps : ℕ} {reserve : ℕ × ℕ × ℕ}
    (reserved : reserveFor contracts bucket maxFeeBps = .ok reserve) :
    reserve.1 = contracts * bucket ∧ feeBufferFor contracts bucket maxFeeBps = .ok reserve.2.1 ∧
      reserve.2.2 = reserve.1 + reserve.2.1 := by
  cases collateral : checkedMul 64 contracts bucket with
  | none => simp [reserveFor, collateral, orOverflow, bind, Except.bind] at reserved
  | some collateralReserve =>
    cases buffered : feeBufferFor contracts bucket maxFeeBps with
    | error e => simp [reserveFor, collateral, buffered, orOverflow, bind, Except.bind] at reserved
    | ok feeBuffer =>
      cases total : checkedAdd 64 collateralReserve feeBuffer with
      | none => simp [reserveFor, collateral, buffered, total, orOverflow, bind, Except.bind] at reserved
      | some totalReserve =>
        simp only [reserveFor, collateral, buffered, total, orOverflow, bind, Except.bind, Except.ok.injEq] at reserved
        subst reserved
        obtain ⟨-, rfl⟩ := checkedMul_eq_some.mp collateral
        obtain ⟨-, rfl⟩ := checkedAdd_eq_some.mp total
        exact ⟨rfl, rfl, rfl⟩

theorem Pmlc.lockedFor_clearFlags (p : Pmlc) (mask : ℕ) (owner : Pubkey) :
    (p.clearFlags mask).lockedFor owner = p.lockedFor owner := rfl

/-- Using up a re-entry takes nothing from anybody. -/
theorem moved_clearReentry {p : Pmlc} {side : ℕ} (genuine : Genuine rt s) (held : s.data k = .pmlc p)
    (ran : (clearReentry rt inv k side).run s = .ok u t) : Moved rt s t 0 := by
  have moved := moved_updatePmlc (f := fun p => p.clearFlags (reentryFlag side)) genuine held ⟨rfl, rfl, rfl, rfl, rfl⟩ ran
  apply moved.cast
  funext x
  cases x <;> simp [pmlcEntry, Pmlc.lockedFor_clearFlags]

/-- What is reserved for a re-entry is what its order counts. -/
theorem reenter_entry (owner mint : Pubkey) (reserve : ℤ) :
    marginEntry owner mint 0 reserve 0 + bookEntry mint (Pi.single owner reserve) = 0 := by
  have same := post_entry owner mint 0 reserve
  rw [Pi.single_zero, neg_zero, sub_zero] at same
  rw [← same]
  funext x
  cases x <;> simp [bookEntry]

theorem moved_reenter {owner book margin pmlc instrument : Pubkey} {inst : InstrumentConfig} {p : Pmlc}
    {args : ClaimReentryArgs} {contracts : ℕ} {b : IntentBook} (genuine : Genuine rt s)
    (listed : s.Listed rt instrument inst.listing) (at_book : inst.intentBook = book)
    (owned : s.owner book = rt.programId) (held : s.data pmlc = .pmlc p) (found : s.data book = .intentBook b)
    (here : rt.address (.margin owner inst.collateralMint) = margin) (side : IsSide args.side.toNat)
    (some_contracts : contracts ≠ 0)
    (ran : (reenter rt inv owner book margin pmlc inst p args contracts b.header.cachedMaxFeeBps).run s = .ok u t) :
    Moved rt s t 0 := by
  simp only [reenter, Exec.bind_check] at ran
  obtain ⟨⟨reservedCollateral, feeBuffer, totalReserve⟩, reserved, ran⟩ := ran
  obtain ⟨backed, buffered, total⟩ := reserveFor_ok reserved
  simp only at backed buffered total
  subst total
  simp only [Exec.bind_ok] at ran
  obtain ⟨_, s1, reserves, id, s2, posted, cleared⟩ := ran
  have first := moved_atMargin genuine here reserves fun _ _ => marginStep_moveFreeToReserved
  have margins : Touches [.marginAccount] [.marginAccount] s s1 := Within.keeps.ok reserves
  have second := moved_atBook (δ := Pi.single owner ((reservedCollateral + feeBuffer : ℕ) : ℤ)) first.genuine
    (first.listed listed) at_book posted
    (fun b' _ found' ran sound => by
      -- The reservation left the book alone, so the buffer is of the fee that it caches.
      have same : AccountData.intentBook b' = .intentBook b := by
        rw [← found', ← found]
        exact congrArg Account.data (margins.get_eq (by simp [found]))
      cases same
      have none : feeBuffer = 0 := by
        have zero : b.header.cachedMaxFeeBps = 0 := sound.unbuffered.1
        rw [zero] at buffered
        exact feeBufferFor_zero buffered
      exact bookStep_post sound side some_contracts backed none ran)
    (first.owned _ owned)
  have books : Touches [.intentBook] [.intentBook] s1 s2 := Within.keeps.ok posted
  have held1 := pmlc_eq_of_margins margins held
  have held2 : s2.data pmlc = .pmlc p := by
    rw [← held1]
    exact congrArg Account.data (books.get_eq (by simp [held1]))
  have third := moved_clearReentry second.genuine held2 cleared
  exact ((first.trans second).cast (reenter_entry owner inst.collateralMint _)).then third

theorem moved_processClaimReentry {args : ClaimReentryArgs} (genuine : Genuine rt s)
    (ran : (processClaimReentry rt inv args).run s = .ok () t) : Moved rt s t 0 := by
  unfold processClaimReentry at ran
  split at ran
  next owner config pmlc instrument book margin rest _ =>
    simp only [Exec.bind_check, exists_const, ne_eq, not_not] at ran
    obtain ⟨-, -, -, -, owned, -, -, side, p, held, -, -, -, same_instrument, inst, found, -, mint, at_book, -, -, _,
      ⟨here, -⟩, m, -, -, -, ran⟩ := ran
    have listed : s.Listed rt instrument inst.listing := listed_of_load (owned _ (by simp)) found
    split at ran
    · exact moved_clearReentry genuine held ran
    · simp only [Exec.bind_check] at ran
      obtain ⟨b, found_book, contracts, -, ran⟩ := ran
      split at ran
      · exact moved_clearReentry genuine held ran
      next some_contracts =>
        rw [← mint] at here
        refine moved_reenter genuine listed at_book (owned _ (by simp)) held found_book here ?_ some_contracts ran
        by_contra neither
        exact side ⟨fun long => neither (.inl long), fun short => neither (.inr short)⟩
  · cases ran

end Polyleverage
