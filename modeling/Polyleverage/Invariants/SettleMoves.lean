import Polyleverage.Invariants.PositionMoves

/-! # What a settlement moves

A resolution and a mutual close unlock the collateral of both sides and pay out no more than that. A
liquidation unlocks as much, but its payout depends on the bounty.
-/

namespace Polyleverage

open Machine

variable {rt : Runtime} {inv : rt.Invocation} {s t : Ledger} {k : Pubkey} {u : Unit}

/-- Together both sides get no more than twice the collateral. -/
theorem splitEquity_le (c : ℕ) (pnl : ℤ) : (splitEquity c pnl).1 + (splitEquity c pnl).2 ≤ 2 * c := by
  have long := boundedEquity_le c pnl
  simp only [splitEquity, saturatingSub, saturatingMul]
  omega

/-- A closed position holds nothing. -/
theorem Pmlc.lockedFor_close {p : Pmlc} {status : ℕ} (closed : status ≠ PMLC_STATUS_LIVE) (reason nowSlot : ℕ)
    (owner : Pubkey) : (p.close status reason nowSlot).lockedFor owner = 0 :=
  if_neg closed

theorem Pmlc.lockedFor_live {p : Pmlc} (live : p.status = PMLC_STATUS_LIVE) (owner : Pubkey) :
    (p.lockedFor owner : ℤ) =
      (Pi.single p.longOwner (p.collateralPerSide : ℤ) + Pi.single p.shortOwner (p.collateralPerSide : ℤ) : Pubkey → ℤ)
        owner := by
  simp only [Pmlc.lockedFor, live, if_true, Pi.add_apply, Pi.single_apply, @eq_comm _ owner]
  by_cases long : p.longOwner = owner <;> by_cases short : p.shortOwner = owner <;> simp [long, short]

theorem moved_closePmlcWith {p : Pmlc} {status reason : ℕ} (genuine : Genuine rt s) (held : s.data k = .pmlc p)
    (live : p.status = PMLC_STATUS_LIVE) (closed : status ≠ PMLC_STATUS_LIVE)
    (ran : (closePmlcWith rt inv k status reason).run s = .ok u t) :
    Moved rt s t (pmlcEntry p.collateralMint
      (-(Pi.single p.longOwner (p.collateralPerSide : ℤ) + Pi.single p.shortOwner (p.collateralPerSide : ℤ)))) := by
  have moved := moved_updatePmlc (f := fun p => p.close status reason inv.slot) genuine held ⟨rfl, rfl, rfl, rfl, rfl⟩ ran
  apply moved.cast
  congr 1
  funext owner
  rw [Pmlc.lockedFor_close closed, Pmlc.lockedFor_live live]
  simp

namespace Settling

variable {index type : ℕ} (x : Settling rt inv s index type)

/-- Spending the attestation moves nothing. -/
theorem moved_spend (genuine : Genuine rt s) {n : MarketNonceAccount} (same : n.marketId = x.n.marketId) :
    Moved rt s (s.setData x.nonce (.marketNonce n)) 0 := by
  have write := moved_setData (d := .marketNonce n) genuine (.inr x.owner_nonce)
    (fun _ _ known => by rw [x.nonce_eq] at known; rw [← known]; exact congrArg (some ∘ Sum.inr) same)
    (fun owned => by
      have fits := genuine.fits x.nonce owned
      rw [x.nonce_eq] at fits
      rw [Fits, same]
      exact fits) fun _ _ => trivial
  apply write.cast
  rw [x.nonce_eq]
  exact entry_weightless (weightless_idle rfl) (weightless_idle rfl)

end Settling

/-- Two sides get their equities for their collateral, and the position is closed. -/
def settleEntry (mint long short : Pubkey) (c longEquity shortEquity : ℤ) : Gap → ℤ :=
  marginEntry long mint (longEquity - c) 0 (-c) +
    (marginEntry short mint (shortEquity - c) 0 (-c) + pmlcEntry mint (-(Pi.single long c + Pi.single short c)))

/-- Only the backing feels whether more is paid than was locked. -/
theorem settleEntry_eq (mint long short : Pubkey) (c longEquity shortEquity : ℤ) :
    settleEntry mint long short c longEquity shortEquity = backingEntry mint (2 * c - longEquity - shortEquity) := by
  funext x
  cases x with
  | backing mint' =>
    simp only [settleEntry, Pi.add_apply, marginEntry, pmlcEntry, backingEntry]
    by_cases same : mint = mint'
    · simp only [same, if_true]
      omega
    · simp [same]
  | reserve owner mint' => simp [settleEntry, marginEntry, pmlcEntry, backingEntry]
  | lock owner mint' =>
    simp only [settleEntry, Pi.add_apply, Pi.neg_apply, marginEntry, pmlcEntry, backingEntry, Pi.single_apply,
      @eq_comm _ owner]
    by_cases same : mint = mint'
    · by_cases onLong : long = owner <;> by_cases onShort : short = owner <;> simp [same, onLong, onShort]
    · simp [same]

theorem backingEntry_le {mint : Pubkey} {amount : ℤ} (enough : 0 ≤ amount) {δ : Gap → ℤ}
    (same : δ = backingEntry mint amount) (moved : Moved rt s t δ) : Moved rt s t 0 := by
  subst same
  apply moved.weaken
  · intro mint'
    simp only [backingEntry]
    split
    · exact enough
    · exact le_refl _
  · intro owner mint'
    rfl
  · intro _ owner mint'
    rfl

/-- A bilateral settlement pays out no more than was locked. -/
theorem moved_bilateral {index type status reason : ℕ} (x : Settling rt inv s index type) {n : MarketNonceAccount}
    {pnl : ℤ} (genuine : Genuine rt s) (same : n.marketId = x.n.marketId) (closed : status ≠ PMLC_STATUS_LIVE)
    (ran : (do settleBoth rt inv x.longMargin x.shortMargin x.p.collateralPerSide (splitEquity x.p.collateralPerSide pnl)
               closePmlcWith rt inv x.pmlc status reason).run (s.setData x.nonce (.marketNonce n)) = .ok () t) :
    Moved rt s t 0 := by
  have first := x.moved_spend genuine same
  simp only [settleBoth, Exec.bind_ok, Exec.rejectIf_ok] at ran
  obtain ⟨_, s3, ⟨_, s2, long, _, _, ⟨-, rfl⟩, short⟩, closes⟩ := ran
  have second := moved_atMargin first.genuine x.long_address long fun _ _ => marginStep_settleSide
  have third := moved_atMargin second.genuine x.short_address short fun _ _ => marginStep_settleSide
  have held := pmlc_eq_of_margins (Within.keeps.ok short) (pmlc_eq_of_margins (Within.keeps.ok long) (x.pmlc_eq_after n))
  have fourth := moved_closePmlcWith third.genuine held x.live closed closes
  rw [x.mint_of] at fourth
  have le := splitEquity_le x.p.collateralPerSide pnl
  exact first.then (backingEntry_le (by omega) (settleEntry_eq x.inst.collateralMint x.p.longOwner x.p.shortOwner
    x.p.collateralPerSide (splitEquity x.p.collateralPerSide pnl).1 (splitEquity x.p.collateralPerSide pnl).2)
    (second.trans (third.trans fourth)))

theorem moved_processResolve {offset : UInt8} (genuine : Genuine rt s)
    (ran : (processResolve rt inv offset).run s = .ok () t) : Moved rt s t 0 := by
  obtain ⟨x, outcome, finalFp, pnl, -, -, -, -, settled⟩ := processResolve_ok ran
  refine moved_bilateral x genuine ?_ ?_ settled
  · rfl
  · decide

theorem moved_processCloseMutual {offset : UInt8} (genuine : Genuine rt s)
    (ran : (processCloseMutual rt inv offset).run s = .ok () t) : Moved rt s t 0 := by
  obtain ⟨x, mark, pnl, -, -, -, -, -, -, settled⟩ := processCloseMutual_ok ran
  refine moved_bilateral x genuine ?_ ?_ settled
  · rfl
  · decide

/-! ### Liquidation -/

/-- Both sides give up their collateral, and the winner and the keeper are paid. -/
theorem liquidate_entry (mint long short winner loser keeper : Pubkey) (c paid bounty : ℤ) :
    marginEntry long mint (-c) 0 (-c) + (marginEntry short mint (-c) 0 (-c) + (marginEntry winner mint paid 0 0 +
      (marginEntry loser mint 0 0 0 + (marginEntry winner mint 0 0 0 +
      (pmlcEntry mint (-(Pi.single long c + Pi.single short c)) + marginEntry keeper mint bounty 0 0))))) =
      backingEntry mint (2 * c - paid - bounty) := by
  funext x
  cases x with
  | backing mint' =>
    simp only [Pi.add_apply, marginEntry, pmlcEntry, backingEntry]
    by_cases same : mint = mint'
    · simp only [same, if_true]
      omega
    · simp [same]
  | reserve owner mint' => simp [marginEntry, pmlcEntry, backingEntry]
  | lock owner mint' =>
    simp only [Pi.add_apply, Pi.neg_apply, marginEntry, pmlcEntry, backingEntry, Pi.single_apply, @eq_comm _ owner]
    by_cases same : mint = mint'
    · by_cases onLong : long = owner <;> by_cases onShort : short = owner <;> simp [same, onLong, onShort]
    · simp [same]

/-- A payment that is skipped when there is nothing to pay. -/
theorem moved_whenMargin {m : MarginM Unit} {amount : ℕ} {owner mint : Pubkey} (genuine : Genuine rt s)
    (here : rt.address (.margin owner mint) = k) (ran : (Exec.when (0 < amount) (atMargin rt inv k m)).run s = .ok u t)
    (step : ∀ x y, m.run x = .ok () y → MarginStep x y amount 0 0) : Moved rt s t (marginEntry owner mint amount 0 0) := by
  rcases Exec.when_ok.mp ran with ⟨-, ran⟩ | ⟨none, rfl⟩
  · exact moved_atMargin genuine here ran step
  · have zero : amount = 0 := Nat.eq_zero_of_not_pos none
    subst zero
    exact (Moved.refl genuine).cast (marginEntry_zero owner mint).symm

theorem moved_payWinner {long short keeper : Pubkey} {winner loser longMargin shortMargin keeperMargin pmlc : Pubkey}
    {winnerOwner loserOwner : Pubkey} {c bounty : ℕ} {p : Pmlc} (genuine : Genuine rt s)
    (longHere : rt.address (.margin long p.collateralMint) = longMargin)
    (shortHere : rt.address (.margin short p.collateralMint) = shortMargin)
    (winnerHere : rt.address (.margin winnerOwner p.collateralMint) = winner)
    (loserHere : rt.address (.margin loserOwner p.collateralMint) = loser)
    (keeperHere : rt.address (.margin keeper p.collateralMint) = keeperMargin)
    (held : s.data pmlc = .pmlc p) (live : p.status = PMLC_STATUS_LIVE)
    (terms : p.longOwner = long ∧ p.shortOwner = short ∧ p.collateralPerSide = c)
    (ran : (do payWinner rt inv winner loser longMargin shortMargin c bounty
               closePmlcWith rt inv pmlc PMLC_STATUS_LIQUIDATED CLOSE_REASON_LIQUIDATED
               Exec.when (0 < bounty) (atMargin rt inv keeperMargin (MarginAccount.creditFree bounty))).run s = .ok () t) :
    Moved rt s t (backingEntry p.collateralMint
      (2 * c - (saturatingSub (saturatingMul 64 c 2) bounty : ℕ) - bounty)) := by
  obtain ⟨rfl, rfl, rfl⟩ := terms
  simp only [payWinner, Exec.bind_ok, Exec.rejectIf_ok] at ran
  obtain ⟨_, s5, ⟨_, _, ⟨-, rfl⟩, _, s1, long, _, s2, short, _, s3, paid, _, s4, lost, won⟩, _, s6, closes, bountied⟩ := ran
  have first := moved_atMargin genuine longHere long fun _ _ => marginStep_debitLocked
  have second := moved_atMargin first.genuine shortHere short fun _ _ => marginStep_debitLocked
  have third := moved_atMargin second.genuine winnerHere paid fun _ _ => marginStep_creditFree
  have fourth := moved_atMargin third.genuine loserHere lost fun _ _ => marginStep_subRealizedPnl
  have fifth := moved_atMargin fourth.genuine winnerHere won fun _ _ => marginStep_addRealizedPnl
  have held2 := pmlc_eq_of_margins (Within.keeps.ok short) (pmlc_eq_of_margins (Within.keeps.ok long) held)
  have held4 := pmlc_eq_of_margins (Within.keeps.ok lost) (pmlc_eq_of_margins (Within.keeps.ok paid) held2)
  have sixth := moved_closePmlcWith fifth.genuine (pmlc_eq_of_margins (Within.keeps.ok won) held4) live (by decide) closes
  have seventh := moved_whenMargin sixth.genuine keeperHere bountied fun _ _ => marginStep_creditFree
  exact (first.trans (second.trans (third.trans (fourth.trans (fifth.trans (sixth.trans seventh)))))).cast
    (liquidate_entry p.collateralMint p.longOwner p.shortOwner winnerOwner loserOwner keeper p.collateralPerSide _ bounty)

/-- A liquidation moves the backing only, one way or the other. -/
theorem moved_processLiquidate {offset : UInt8} (genuine : Genuine rt s)
    (ran : (processLiquidate rt inv offset).run s = .ok () t) : ∃ mint amount, Moved rt s t (backingEntry mint amount) := by
  obtain ⟨x, keeper, keeperMargin, kept, mark, pnl, -, -, -, -, -, keeper_address, -, -, -, -, paid⟩ := processLiquidate_ok ran
  have first := x.moved_spend genuine
    (n := { x.n.accept x.att (nowUnix rt inv) with lastAcceptedTwapFp := mark }) rfl
  have long := x.long_address
  have short := x.short_address
  rw [← x.mint_of] at long short keeper_address
  unfold payOut at paid
  split at paid
  · exact ⟨_, _, first.then (moved_payWinner first.genuine long short long short keeper_address (x.pmlc_eq_after _) x.live
      ⟨rfl, rfl, rfl⟩ paid)⟩
  · exact ⟨_, _, first.then (moved_payWinner first.genuine long short short long keeper_address (x.pmlc_eq_after _) x.live
      ⟨rfl, rfl, rfl⟩ paid)⟩

end Polyleverage
