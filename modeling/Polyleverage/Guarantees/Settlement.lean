import Polyleverage.Invariants.Settling
import Polyleverage.Sample

/-! # Settlements split twice the collateral

A resolution and a mutual close take the collateral of both sides and hand all of it out again, whatever
the PnL.
-/

namespace Polyleverage

open Machine

variable {rt : Runtime} {inv : rt.Invocation} {s t : Ledger} {u : Unit}

/-- Both sides get what the long side leaves of twice the collateral. -/
theorem splitEquity_eq {c : ℕ} (small : 2 * c < 2 ^ 64) (pnl : ℤ) :
    splitEquity c pnl = (boundedEquity c pnl, 2 * c - boundedEquity c pnl) := by
  have twice : saturatingMul 64 c 2 = 2 * c := by
    rw [saturatingMul_of_lt (by omega), Nat.mul_comm]
  simp only [splitEquity, twice, saturatingSub]

/-- The short side gains what the long side loses. -/
example : splitEquity 1000 (-250) = (750, 1250) := by decide +kernel

/-- Two different margin accounts are settled, one after the other. -/
theorem settleBoth_ok {longMargin shortMargin : Pubkey} {collateralPerSide : ℕ} {equity : ℕ × ℕ} {l m : MarginAccount}
    (long : s.data longMargin = .marginAccount l) (short : s.data shortMargin = .marginAccount m)
    (ran : (settleBoth rt inv longMargin shortMargin collateralPerSide equity).run s = .ok u t) :
    longMargin ≠ shortMargin ∧ collateralPerSide ≤ l.lockedCollateral ∧ collateralPerSide ≤ m.lockedCollateral ∧
      t = (s.setData longMargin (.marginAccount (l.settled collateralPerSide equity.1))).setData shortMargin
        (.marginAccount (m.settled collateralPerSide equity.2)) := by
  simp only [settleBoth, Exec.bind_ok, Exec.rejectIf_ok] at ran
  obtain ⟨_, _, first, _, _, ⟨apart, rfl⟩, second⟩ := ran
  obtain ⟨l', _, long', moved, rfl⟩ := atMargin_ok first
  rw [long] at long'
  cases long'
  obtain ⟨⟨enough, -⟩, rfl⟩ := settleSide_ok.mp moved
  obtain ⟨m', _, short', moved, rfl⟩ := atMargin_ok second
  rw [Ledger.data_setData_of_ne _ _ (Ne.symm apart), short] at short'
  cases short'
  obtain ⟨⟨enough', -⟩, rfl⟩ := settleSide_ok.mp moved
  exact ⟨apart, enough, enough', rfl⟩

/-- The PnL of the long side that a resolution or a mutual close computes from its attestation. -/
def SettlementPnl (att : Attestation) (p : Pmlc) (pnl : ℤ) : Prop :=
  (∃ outcome finalFp, att.finalOutcomeBps = .ok outcome ∧ finalMark outcome = .ok finalFp ∧
    resolvePnl p outcome finalFp = .ok pnl) ∨
  ∃ mark, att.priceFp = .ok mark ∧ pnlLongAtoms p.entryPriceFp mark p.sizeFp = .ok pnl

/-- A ledger after the two sides of a position were settled and the position was closed. -/
structure SplitBetween {index type : ℕ} (x : Settling rt inv s index type) (equity : ℕ × ℕ) (t : Ledger) : Prop where
  apart : x.longMargin ≠ x.shortMargin
  long_locked : x.p.collateralPerSide ≤ x.l.lockedCollateral
  short_locked : x.p.collateralPerSide ≤ x.m.lockedCollateral
  long : t.data x.longMargin = .marginAccount (x.l.settled x.p.collateralPerSide equity.1)
  short : t.data x.shortMargin = .marginAccount (x.m.settled x.p.collateralPerSide equity.2)
  closed : ∃ status ∈ [PMLC_STATUS_CLOSED, PMLC_STATUS_RESOLVED], ∃ closeReason,
    t.get x.pmlc = ⟨rt.programId, .pmlc (x.p.close status closeReason inv.slot)⟩
  others : ∀ k, k ≠ x.longMargin → k ≠ x.shortMargin → k ≠ x.pmlc → k ≠ x.nonce → t.get k = s.get k

theorem splitBetween_of_ran {index type status closeReason : ℕ} (x : Settling rt inv s index type)
    {n : MarketNonceAccount} {equity : ℕ × ℕ} (closes : status ∈ [PMLC_STATUS_CLOSED, PMLC_STATUS_RESOLVED])
    (ran : (do settleBoth rt inv x.longMargin x.shortMargin x.p.collateralPerSide equity
               closePmlcWith rt inv x.pmlc status closeReason).run (s.setData x.nonce (.marketNonce n)) = .ok () t) :
    SplitBetween x equity t := by
  have nonce_long : x.longMargin ≠ x.nonce := by
    intro same
    have held := x.nonce_eq
    rw [← same, x.long_eq] at held
    cases held
  have nonce_short : x.shortMargin ≠ x.nonce := by
    intro same
    have held := x.nonce_eq
    rw [← same, x.short_eq] at held
    cases held
  have pmlc_long : x.longMargin ≠ x.pmlc := by
    intro same
    have held := x.pmlc_eq
    rw [← same, x.long_eq] at held
    cases held
  have pmlc_short : x.shortMargin ≠ x.pmlc := by
    intro same
    have held := x.pmlc_eq
    rw [← same, x.short_eq] at held
    cases held
  have ended := (Settled.mk (settleBoth_closes (x.pmlc_eq_after n) ran)).get_pmlc
  rw [Exec.bind_ok] at ran
  obtain ⟨_, _, settled, closed⟩ := ran
  obtain ⟨apart, enough, enough', rfl⟩ := settleBoth_ok
    (by rw [Ledger.data_setData_of_ne _ _ nonce_long, x.long_eq])
    (by rw [Ledger.data_setData_of_ne _ _ nonce_short, x.short_eq]) settled
  obtain ⟨p, -, rfl⟩ := updateAccount_eq closed
  refine ⟨apart, enough, enough', ?_, ?_, ⟨status, closes, closeReason, ended⟩, fun k long short pmlc nonce => ?_⟩
  · rw [Ledger.data_setData_of_ne _ _ pmlc_long, Ledger.data_setData_of_ne _ _ apart, Ledger.data_setData_self]
  · rw [Ledger.data_setData_of_ne _ _ pmlc_short, Ledger.data_setData_self]
  · rw [Ledger.get_setData_of_ne _ _ pmlc, Ledger.get_setData_of_ne _ _ short, Ledger.get_setData_of_ne _ _ long,
      Ledger.get_setData_of_ne _ _ nonce]

/-- A bilateral settlement runs on its PnL. -/
theorem bilateral_ok {instr : Instruction} {index type : ℕ} (attests : instr.attestation = some (index, type))
    (bilateral : type ≠ ATT_TYPE_HISTORICAL_LIQUIDATION) (ran : (process rt inv instr).run s = .ok () t) :
    ∃ (x : Settling rt inv s index type) (pnl : ℤ), instr.pmlcOf inv.accounts = some x.pmlc ∧
      SettlementPnl x.att x.p pnl ∧ SplitBetween x (splitEquity x.p.collateralPerSide pnl) t := by
  cases instr with
  | liquidate offset =>
    cases attests
    exact absurd rfl bilateral
  | resolve offset =>
    cases attests
    obtain ⟨x, outcome, finalFp, pnl, position, attested, final, computed, settled⟩ := processResolve_ok ran
    exact ⟨x, pnl, position, .inl ⟨outcome, finalFp, attested, final, computed⟩, splitBetween_of_ran x (by simp) settled⟩
  | closeMutual offset =>
    cases attests
    obtain ⟨x, mark, pnl, position, -, attested, computed, -, -, settled⟩ := processCloseMutual_ok ran
    exact ⟨x, pnl, position, .inr ⟨mark, attested, computed⟩, splitBetween_of_ran x (by simp) settled⟩
  | _ => cases attests

/-- The margin account at `k` gives up locked collateral and gets free collateral. -/
def Released (s t : Ledger) (k : Pubkey) (locked free : ℕ) : Prop :=
  ∃ m m', s.data k = .marginAccount m ∧ t.data k = .marginAccount m' ∧
    m'.freeCollateral = m.freeCollateral + free ∧ m'.lockedCollateral + locked = m.lockedCollateral

/-- At a decided outcome the PnL is twice the collateral, one way or the other. -/
theorem resolvePnl_decided {p : Pmlc} {outcome finalFp : ℕ} {pnl : ℤ} (small : 2 * p.collateralPerSide < 2 ^ 64)
    (computed : resolvePnl p outcome finalFp = .ok pnl) :
    (outcome = 0 → pnl = -(2 * p.collateralPerSide)) ∧ (outcome = 10000 → pnl = 2 * p.collateralPerSide) := by
  have twice : saturatingMulSigned 128 p.collateralPerSide 2 = 2 * p.collateralPerSide := by
    unfold saturatingMulSigned clampSigned
    omega
  unfold resolvePnl at computed
  rw [twice] at computed
  constructor
  · rintro rfl
    rw [if_pos rfl] at computed
    cases computed
    rfl
  · rintro rfl
    rw [if_neg (by decide), if_pos rfl] at computed
    cases computed
    rfl

/-- A resolution and a mutual close take the collateral of both sides and split twice that much between
the two owners: the long side gets its collateral and its PnL, held between nothing and everything. The
position is the one that the call was given, and it is closed. -/
theorem bilateral_settlement_identity {instr : Instruction} {index type : ℕ}
    (attests : instr.attestation = some (index, type)) (bilateral : type ≠ ATT_TYPE_HISTORICAL_LIQUIDATION)
    (ran : (process rt inv instr).run s = .ok () t) :
    ∃ (x : Settling rt inv s index type) (pnl : ℤ), instr.pmlcOf inv.accounts = some x.pmlc ∧
      (∃ status ∈ [PMLC_STATUS_CLOSED, PMLC_STATUS_RESOLVED], ∃ closeReason,
        t.get x.pmlc = ⟨rt.programId, .pmlc (x.p.close status closeReason inv.slot)⟩) ∧
      SettlementPnl x.att x.p pnl ∧
      (2 * x.p.collateralPerSide < 2 ^ 64 → ∃ eqLong eqShort : ℕ,
        (eqLong : ℤ) = max 0 (min (x.p.collateralPerSide + pnl) (2 * x.p.collateralPerSide)) ∧
        eqLong ≤ 2 * x.p.collateralPerSide ∧ eqShort ≤ 2 * x.p.collateralPerSide ∧
        eqLong + eqShort = 2 * x.p.collateralPerSide ∧ x.longMargin ≠ x.shortMargin ∧
        rt.address (.margin x.p.longOwner x.p.collateralMint) = x.longMargin ∧
        rt.address (.margin x.p.shortOwner x.p.collateralMint) = x.shortMargin ∧
        Released s t x.longMargin x.p.collateralPerSide eqLong ∧
        Released s t x.shortMargin x.p.collateralPerSide eqShort ∧
        (x.att.finalOutcomeBps = .ok 0 → eqLong = 0) ∧
        (x.att.finalOutcomeBps = .ok 10000 → eqLong = 2 * x.p.collateralPerSide)) := by
  obtain ⟨x, pnl, given, computed, split⟩ := bilateral_ok attests bilateral ran
  refine ⟨x, pnl, given, split.closed, computed, fun small => ?_⟩
  have equity := splitEquity_eq small pnl
  have eqLong := boundedEquity_eq small pnl
  have le := boundedEquity_le x.p.collateralPerSide pnl
  rw [equity] at split
  have decided : ∀ outcome, x.att.finalOutcomeBps = .ok outcome →
      (outcome = 0 → pnl = -(2 * x.p.collateralPerSide)) ∧ (outcome = 10000 → pnl = 2 * x.p.collateralPerSide) := by
    intro outcome attested
    rcases computed with ⟨outcome', finalFp, attested', -, computed⟩ | ⟨mark, priced, -⟩
    · rw [attested] at attested'
      cases attested'
      exact resolvePnl_decided small computed
    · -- A message has one type.
      have resolution := Attestation.attestationType_of_payload attested
      have twap := Attestation.attestationType_of_payload priced
      exact absurd (resolution.symm.trans twap) (by decide)
  refine ⟨boundedEquity x.p.collateralPerSide pnl, 2 * x.p.collateralPerSide - boundedEquity x.p.collateralPerSide pnl,
    eqLong, le, Nat.sub_le _ _, Nat.add_sub_cancel' le, split.apart, ?_, ?_, ?_, ?_, ?_, ?_⟩
  · rw [x.mint_of]
    exact x.long_address
  · rw [x.mint_of]
    exact x.short_address
  · exact ⟨x.l, _, x.long_eq, split.long, rfl, Nat.sub_add_cancel split.long_locked⟩
  · exact ⟨x.m, _, x.short_eq, split.short, rfl, Nat.sub_add_cancel split.short_locked⟩
  · intro attested
    have all := (decided 0 attested).1 rfl
    omega
  · intro attested
    have all := (decided 10000 attested).2 rfl
    omega

/-- The resolution that pays Alice everything. -/
def Sample.settlement : Call Runtime.sample :=
  Sample.resolve Sample.poly Sample.alice Sample.bob 3 (Sample.outcome 1 10000)

theorem bilateral_settlement_identity_traded :
    ∃ (x : Settling Runtime.sample Sample.settlement.inv Sample.traded 0 ATT_TYPE_RESOLUTION) (pnl : ℤ),
      x.pmlc = Sample.pmlc Sample.poly 3 ∧
      (∃ p, (execute Runtime.sample Sample.settlement Sample.traded).data (Sample.pmlc Sample.poly 3) = .pmlc p ∧
        p.status ≠ PMLC_STATUS_LIVE) ∧
      SettlementPnl x.att x.p pnl ∧ (2 * x.p.collateralPerSide < 2 ^ 64 → ∃ eqLong eqShort : ℕ,
        eqLong + eqShort = 2 * x.p.collateralPerSide ∧
        Released Sample.traded (execute Runtime.sample Sample.settlement Sample.traded) x.longMargin
          x.p.collateralPerSide eqLong ∧
        Released Sample.traded (execute Runtime.sample Sample.settlement Sample.traded) x.shortMargin
          x.p.collateralPerSide eqShort) := by
  obtain ⟨x, pnl, given, ⟨status, closed, closeReason, after⟩, computed, split⟩ := bilateral_settlement_identity
    (rfl : Sample.settlement.instruction.attestation = some (0, ATT_TYPE_RESOLUTION)) (by decide)
    (Call.ran (by decide +kernel : Sample.settlement.returns Sample.traded = true))
  have here : Sample.pmlc Sample.poly 3 = x.pmlc := Option.some.inj given
  have ended : status ≠ PMLC_STATUS_LIVE := by
    rintro rfl
    simp [PMLC_STATUS_LIVE, PMLC_STATUS_CLOSED, PMLC_STATUS_RESOLVED] at closed
  refine ⟨x, pnl, here.symm, ⟨_, by rw [here]; exact congrArg Account.data after, ended⟩, computed, fun small => ?_⟩
  obtain ⟨eqLong, eqShort, -, -, -, sum, -, -, -, long, short, -⟩ := split small
  exact ⟨eqLong, eqShort, sum, long, short⟩

end Polyleverage
