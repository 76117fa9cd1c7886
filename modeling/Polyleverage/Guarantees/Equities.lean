import Polyleverage.Guarantees.Attestations
import Polyleverage.Guarantees.Liquidations
import Polyleverage.Guarantees.Settlement
import Polyleverage.Math.Pnl

/-! # Equities at a mark

The equity of the long side grows with the mark and that of the short side falls. Both are what is left of the
notional times the return, within two atoms, and the side with the smaller one is the one that a liquidation takes.
-/

namespace Polyleverage

open Machine

variable {rt : Runtime} {inv : rt.Invocation} {s t : Ledger}

/-! ### The return -/

/-- The notional times the return, in atoms. -/
def returnAtoms (notional entryFp markFp : ℕ) : ℚ := notional * ((markFp : ℚ) - entryFp) / entryFp

/-- The long side's collateral and return, held between nothing and the collateral of both sides. -/
def returnEquity (collateralPerSide notional entryFp markFp : ℕ) : ℚ :=
  max 0 (min (collateralPerSide + returnAtoms notional entryFp markFp) (2 * collateralPerSide))

/-- The mark of a resolution in the middle or of a mutual close. -/
def Attestation.SettlesAt (att : Attestation) (markFp : ℕ) : Prop :=
  att.finalOutcomeBps = .ok 5000 ∧ markFp = PRICE_ONE / 2 ∨ att.priceFp = .ok markFp

/-- At such a mark the PnL is computed from the mark. -/
theorem SettlementPnl.at_mark {att : Attestation} {p : Pmlc} {pnl : ℤ} {markFp : ℕ} (computed : SettlementPnl att p pnl)
    (marked : att.SettlesAt markFp) : pnlLongAtoms p.entryPriceFp markFp p.sizeFp = .ok pnl := by
  rcases computed with ⟨outcome, finalFp, attested, final, computed⟩ | ⟨mark, priced, computed⟩
  · rcases marked with ⟨middle, rfl⟩ | priced
    · rw [middle] at attested
      cases attested
      cases final
      exact computed
    · -- A message has one type.
      have resolution := Attestation.attestationType_of_payload attested
      have twap := Attestation.attestationType_of_payload priced
      exact absurd (resolution.symm.trans twap) (by decide)
  · rcases marked with ⟨middle, rfl⟩ | priced'
    · have resolution := Attestation.attestationType_of_payload middle
      have twap := Attestation.attestationType_of_payload priced
      exact absurd (resolution.symm.trans twap) (by decide)
    · rw [priced] at priced'
      cases priced'
      exact computed

/-- The PnL is within two atoms of the notional times the return. A resolution in the middle and a mutual close pay
both sides within two atoms of their collateral and that return, held between nothing and everything. -/
theorem settlement_tracks_return :
    (∀ notional entryFp markFp sizeFp : ℕ, ∀ v : ℤ, entryFp < PRICE_ONE → markFp < PRICE_ONE →
      positionSizeFp notional entryFp = .ok sizeFp → sizeFp < 2 ^ 127 → pnlLongAtoms entryFp markFp sizeFp = .ok v →
        |(v : ℚ) - returnAtoms notional entryFp markFp| < 2) ∧
    ∀ (rt : Runtime) (inv : rt.Invocation) (s t : Ledger) (instr : Instruction) (index type : ℕ),
      instr.attestation = some (index, type) → type ≠ ATT_TYPE_HISTORICAL_LIQUIDATION →
      (process rt inv instr).run s = .ok () t →
      ∃ x : Settling rt inv s index type, instr.pmlcOf inv.accounts = some x.pmlc ∧ ∀ notional markFp : ℕ,
        x.att.SettlesAt markFp → x.p.entryPriceFp < PRICE_ONE → markFp < PRICE_ONE →
        positionSizeFp notional x.p.entryPriceFp = .ok x.p.sizeFp → x.p.sizeFp < 2 ^ 127 →
        2 * x.p.collateralPerSide < 2 ^ 64 →
        ∃ eqLong eqShort : ℕ, Released s t x.longMargin x.p.collateralPerSide eqLong ∧
          Released s t x.shortMargin x.p.collateralPerSide eqShort ∧
          |(eqLong : ℚ) - returnEquity x.p.collateralPerSide notional x.p.entryPriceFp markFp| < 2 ∧
          |(eqShort : ℚ) -
            (2 * x.p.collateralPerSide - returnEquity x.p.collateralPerSide notional x.p.entryPriceFp markFp)| < 2 := by
  constructor
  · intro notional entryFp markFp sizeFp v entry mark sized small computed
    exact abs_pnl_sub_lt_two sized small entry mark computed
  · intro rt inv s t instr index type attests bilateral ran
    obtain ⟨x, pnl, position, computed, split⟩ := bilateral_ok attests bilateral ran
    refine ⟨x, position, fun notional markFp marked entry mark sized small twice => ?_⟩
    have near := abs_pnl_sub_lt_two sized small entry mark (computed.at_mark marked)
    have close := abs_boundedEquity_sub_le twice pnl (returnAtoms notional x.p.entryPriceFp markFp)
    have le := boundedEquity_le x.p.collateralPerSide pnl
    rw [splitEquity_eq twice] at split
    refine ⟨_, _, ⟨x.l, _, x.long_eq, split.long, rfl, Nat.sub_add_cancel split.long_locked⟩,
      ⟨x.m, _, x.short_eq, split.short, rfl, Nat.sub_add_cancel split.short_locked⟩, lt_of_le_of_lt close near, ?_⟩
    dsimp only
    rw [Nat.cast_sub le, Nat.cast_mul, Nat.cast_ofNat, sub_sub_sub_cancel_left, abs_sub_comm]
    exact lt_of_le_of_lt close near

/-- A price over the window of the sample's instruments. -/
def Sample.price (nonce markFp : ℕ) : Attestation where
  bytes := message 1 0 nonce (toLeBytes 8 markFp ++ toLeBytes 8 10)
  length_eq := by simp [message, toLeBytes, ATTESTATION_MAGIC, ATTESTATION_LEN]
  magic_eq := by simp [message, ATTESTATION_MAGIC]

/-- A third of the price of one, rounded down. -/
def Sample.third : ℕ := 333333333333333333

/-- Alice and Bob close their position at a third. -/
def Sample.agree : Call Runtime.sample :=
  callAt 1 0 [verified (price 1 third).bytes] (.closeMutual 0) [alice, bob]
    [alice, bob, config, Runtime.sample.instructionsSysvar, instrument poly, pmlc poly 3, nonce poly, marginOf alice,
      marginOf bob]

/-- The position of Alice and Bob. -/
theorem Sample.traded_terms {p : Pmlc} (held : Sample.traded.data (Sample.pmlc Sample.poly 3) = .pmlc p) :
    p.collateralPerSide = 1000 ∧ p.entryPriceFp = 500000000000000000 ∧ p.sizeFp = 4000 := by
  have known : ((Sample.traded.data (Sample.pmlc Sample.poly 3)).loadPmlc.toOption.map
      fun p => (p.collateralPerSide, p.entryPriceFp, p.sizeFp)) = some (1000, 500000000000000000, 4000) := by decide +kernel
  rw [AccountData.loadPmlc_ok.mpr held] at known
  simpa [Except.toOption] using known

/-- From a half to a third Alice loses a third of the notional of 2000, which is no whole number of atoms. -/
theorem settlement_tracks_return_traded :
    |((-666 : ℤ) : ℚ) - returnAtoms 2000 500000000000000000 Sample.third| < 2 ∧
    ∃ x : Settling Runtime.sample Sample.agree.inv Sample.traded 0 ATT_TYPE_PRICE_TWAP, ∃ eqLong eqShort : ℕ,
      Released Sample.traded (execute Runtime.sample Sample.agree Sample.traded) x.longMargin 1000 eqLong ∧
      Released Sample.traded (execute Runtime.sample Sample.agree Sample.traded) x.shortMargin 1000 eqShort ∧
      |(eqLong : ℚ) - returnEquity 1000 2000 500000000000000000 Sample.third| < 2 := by
  obtain ⟨pnls, settlements⟩ := settlement_tracks_return
  refine ⟨pnls 2000 500000000000000000 Sample.third 4000 (-666) (by decide) (by decide) (by decide) (by decide) (by decide), ?_⟩
  obtain ⟨x, position, pays⟩ := settlements _ _ _ _ _ _ _ (rfl : Sample.agree.instruction.attestation = some (0, ATT_TYPE_PRICE_TWAP))
    (by decide) (Call.ran (by decide +kernel : Sample.agree.returns Sample.traded = true))
  have here : Sample.pmlc Sample.poly 3 = x.pmlc := Option.some.inj position
  obtain ⟨collateral, entry, size⟩ := Sample.traded_terms (here ▸ x.pmlc_eq)
  have attested : Attested Runtime.sample Sample.agree.inv Sample.oracle 0 ATT_TYPE_PRICE_TWAP (Sample.price 1 Sample.third) :=
    ⟨_, rfl, rfl, by decide +kernel, by decide +kernel⟩
  have att : x.att = Sample.price 1 Sample.third := (x.attested.unique attested).2
  have marked : x.att.SettlesAt Sample.third := by
    rw [att]
    exact .inr (by decide +kernel)
  have paid := pays 2000 Sample.third marked
  rw [collateral, entry, size] at paid
  obtain ⟨eqLong, eqShort, long, short, near, -⟩ := paid (by decide) (by decide) (by decide) (by decide) (by decide)
  exact ⟨x, eqLong, eqShort, long, short, near⟩

/-! ### Monotonicity -/

/-- A larger PnL of the long side is no smaller an equity for it, and no larger one for the other side. -/
theorem splitEquity_mono {c : ℕ} (twice : 2 * c < 2 ^ 64) {pnl pnl' : ℤ} (le : pnl ≤ pnl') :
    (splitEquity c pnl).1 ≤ (splitEquity c pnl').1 ∧ (splitEquity c pnl').2 ≤ (splitEquity c pnl).2 := by
  have mono := boundedEquity_mono twice le
  rw [splitEquity_eq twice, splitEquity_eq twice]
  constructor
  · exact mono
  · exact Nat.sub_le_sub_left mono _

namespace Liquidating

/-- A liquidation at this mark instead. -/
def atMark (x : Liquidating) (markFp : ℕ) : Liquidating := { x with markFp }

/-- The test passes, and this is whether the long side wins. -/
def Passes (x : Liquidating) (longWins : Bool) : Prop :=
  ∃ equity, x.test = .ok equity ∧ (x.payout equity).longWins = longWins

variable {x : Liquidating} {equity : ℕ × ℕ}

theorem test_ok : x.test = .ok equity ↔ ∃ pnl, pnlLongAtoms x.p.entryPriceFp x.markFp x.p.sizeFp = .ok pnl ∧
    min equity.1 equity.2 ≤ shareOf x.p.collateralPerSide x.inst.liquidationBps ∧
      splitEquity x.p.collateralPerSide pnl = equity := by
  unfold test
  cases pnlLongAtoms x.p.entryPriceFp x.markFp x.p.sizeFp with
  | error e => simp [bind, Except.bind]
  | ok pnl =>
    simp only [bind, Except.bind, Except.ok.injEq, exists_eq_left']
    split
    next above =>
      simp only [reduceCtorEq, false_iff, not_and]
      rintro le rfl
      exact absurd above (Nat.not_lt.mpr le)
    next below =>
      rw [Except.ok.injEq]
      constructor
      · rintro rfl
        exact ⟨Nat.le_of_not_lt below, rfl⟩
      · exact And.right

/-- With this PnL, the test passes and the long side wins, or loses, if and only if the loser's equity is within the
threshold. -/
theorem passes_iff {pnl : ℤ} (computed : pnlLongAtoms x.p.entryPriceFp x.markFp x.p.sizeFp = .ok pnl) :
    (x.Passes true ↔ (splitEquity x.p.collateralPerSide pnl).2 < (splitEquity x.p.collateralPerSide pnl).1 ∧
      (splitEquity x.p.collateralPerSide pnl).2 ≤ shareOf x.p.collateralPerSide x.inst.liquidationBps) ∧
    (x.Passes false ↔ (splitEquity x.p.collateralPerSide pnl).1 ≤ (splitEquity x.p.collateralPerSide pnl).2 ∧
      (splitEquity x.p.collateralPerSide pnl).1 ≤ shareOf x.p.collateralPerSide x.inst.liquidationBps) := by
  have passes : ∀ longWins, x.Passes longWins ↔
      min (splitEquity x.p.collateralPerSide pnl).1 (splitEquity x.p.collateralPerSide pnl).2 ≤
        shareOf x.p.collateralPerSide x.inst.liquidationBps ∧
      decide ((splitEquity x.p.collateralPerSide pnl).2 < (splitEquity x.p.collateralPerSide pnl).1) = longWins := by
    intro longWins
    constructor
    · rintro ⟨equity, passed, wins⟩
      obtain ⟨pnl', computed', within_threshold, rfl⟩ := test_ok.mp passed
      rw [computed] at computed'
      cases computed'
      exact ⟨within_threshold, wins⟩
    · rintro ⟨within_threshold, wins⟩
      exact ⟨_, test_ok.mpr ⟨pnl, computed, within_threshold, rfl⟩, wins⟩
  rw [passes, passes, decide_eq_true_iff, decide_eq_false_iff_not]
  omega

end Liquidating

/-- With the mark the long side's equity grows and the short side's falls. A mark at which the long side is liquidated
liquidates it at every lower mark, and one at which the short side is liquidated liquidates it at every higher one. -/
theorem liquidation_rays (x : Liquidating) {markFp markFp' : ℕ} {pnl pnl' : ℤ} (small : x.p.sizeFp < 2 ^ 127)
    (twice : 2 * x.p.collateralPerSide < 2 ^ 64) (le : markFp ≤ markFp')
    (computed : pnlLongAtoms x.p.entryPriceFp markFp x.p.sizeFp = .ok pnl)
    (computed' : pnlLongAtoms x.p.entryPriceFp markFp' x.p.sizeFp = .ok pnl') :
    (splitEquity x.p.collateralPerSide pnl).1 ≤ (splitEquity x.p.collateralPerSide pnl').1 ∧
      (splitEquity x.p.collateralPerSide pnl').2 ≤ (splitEquity x.p.collateralPerSide pnl).2 ∧
      ((x.atMark markFp').Passes false → (x.atMark markFp).Passes false) ∧
      ((x.atMark markFp).Passes true → (x.atMark markFp').Passes true) := by
  have grows : pnl ≤ pnl' := by
    rw [eq_exactPnl small computed, eq_exactPnl small computed']
    exact exactPnl_mono le
  obtain ⟨long, short⟩ := splitEquity_mono twice grows
  obtain ⟨wins, loses⟩ := @Liquidating.passes_iff (x.atMark markFp) pnl computed
  obtain ⟨wins', loses'⟩ := @Liquidating.passes_iff (x.atMark markFp') pnl' computed'
  rw [wins, loses, wins', loses']
  change _ ∧ _ ∧ ((splitEquity x.p.collateralPerSide _).1 ≤ (splitEquity x.p.collateralPerSide _).2 ∧ _ → _) ∧ _
  refine ⟨long, short, ?_, ?_⟩
  · rintro ⟨order, within_threshold⟩
    exact ⟨long.trans (order.trans short), long.trans within_threshold⟩
  · rintro ⟨order, within_threshold⟩
    exact ⟨lt_of_le_of_lt short (lt_of_lt_of_le order long), short.trans within_threshold⟩

/-- In the sample's market Alice is liquidated at the lowest mark if she is at the highest. -/
theorem liquidation_rays_traded : ∃ x : Liquidating, x.p.collateralPerSide = 1000 ∧
    (splitEquity 1000 (-2000)).1 ≤ (splitEquity 1000 1999).1 ∧
      ((x.atMark 999999999999999999).Passes false → (x.atMark 0).Passes false) := by
  obtain ⟨x, u, checks, -, here, -, -⟩ := Liquidating.of_summary (by decide +kernel :
    Liquidating.summary ((liquidationChecks Runtime.sample Sample.early.inv 0).run Sample.traded) =
      some (Sample.alice, Sample.pmlc Sample.poly 3, 0, some (0, 2000)))
  have held : Sample.traded.data x.pmlc = .pmlc x.p := congrArg Account.data (liquidationChecks_ok checks).position
  obtain ⟨collateral, entry, size⟩ := Sample.traded_terms (here ▸ held)
  have rays := @liquidation_rays x 0 999999999999999999 (-2000) 1999
  rw [collateral, entry, size] at rays
  obtain ⟨long, -, lower, -⟩ := rays (by decide) (by decide) (by decide) (by decide) (by decide)
  exact ⟨x, collateral, long, lower⟩

/-! ### Who loses -/

section Ties

variable {c bps : ℕ} {pnl : ℤ}

/-- Where twice the collateral fits, the sides are even only without a PnL. -/
theorem splitEquity_even_iff (twice : 2 * c < 2 ^ 64) (some_collateral : c ≠ 0) :
    (splitEquity c pnl).1 = (splitEquity c pnl).2 ↔ pnl = 0 := by
  have long := boundedEquity_eq twice pnl
  rw [splitEquity_eq twice]
  dsimp only
  omega

/-- Where it does not, they share an odd number of atoms. -/
theorem splitEquity_odd (twice : 2 ^ 64 ≤ 2 * c) : (splitEquity c pnl).1 ≠ (splitEquity c pnl).2 := by
  have all : saturatingMul 64 c 2 = 2 ^ 64 - 1 := by
    apply Nat.min_eq_right
    unfold maxValue
    omega
  have long : boundedEquity c pnl < 2 ^ 64 := Nat.mod_lt _ (by decide)
  simp only [splitEquity, all, saturatingSub]
  omega

/-- A share below the whole is less than it. -/
theorem shareOf_lt (some_collateral : c ≠ 0) (lt : bps < BPS_DENOM) : shareOf c bps < c := by
  refine lt_of_le_of_lt (Nat.mod_le _ _) ?_
  rw [Nat.div_lt_iff_lt_mul (by decide)]
  exact Nat.mul_lt_mul_of_pos_left lt (Nat.pos_of_ne_zero some_collateral)

/-- However close to the whole the share is. -/
example : shareOf 999 9999 = 998 := by decide +kernel

theorem tdiv_eq_zero_iff {a d : ℤ} (positive : 0 < d) : a.tdiv d = 0 ↔ |a| < d := by
  rw [← Int.natAbs_eq_zero, Int.natAbs_tdiv]
  change a.natAbs / d.natAbs = 0 ↔ _
  rw [Nat.div_eq_zero_iff, Int.abs_eq_natAbs]
  omega

end Ties

namespace Liquidating

/-- The side that gets nothing is within the threshold, has less than the other, and the mark is not the entry. -/
structure Deserved (x : Liquidating) (equity : ℕ × ℕ) : Prop where
  within_threshold :
    (if (x.payout equity).longWins then equity.2 else equity.1) ≤ shareOf x.p.collateralPerSide x.inst.liquidationBps
  less : if (x.payout equity).longWins then equity.2 < equity.1 else equity.1 < equity.2
  moved : x.markFp ≠ x.p.entryPriceFp

/-- The threshold is less than the collateral of a side, or the PnL is at least one atom. Without room for twice the
collateral, the mark is not the entry. -/
def Decisive (x : Liquidating) : Prop :=
  if 2 * x.p.collateralPerSide < 2 ^ 64 then
    x.inst.liquidationBps < BPS_DENOM ∨
      (PRICE_ONE : ℤ) ≤ |((x.markFp : ℤ) - x.p.entryPriceFp) * toSigned 128 x.p.sizeFp|
  else x.markFp ≠ x.p.entryPriceFp

variable {x : Liquidating} {equity : ℕ × ℕ}

/-- Whoever loses is within the threshold, so all that counts is that the sides are not even. -/
theorem deserved_iff_uneven (passed : x.test = .ok equity) :
    x.Deserved equity ↔ equity.1 ≠ equity.2 ∧ x.markFp ≠ x.p.entryPriceFp := by
  obtain ⟨pnl, -, within_threshold, -⟩ := test_ok.mp passed
  constructor
  · rintro ⟨-, less, moved⟩
    refine ⟨fun even => ?_, moved⟩
    rw [even, ite_self] at less
    exact absurd less (Nat.lt_irrefl _)
  · rintro ⟨uneven, moved⟩
    by_cases wins : equity.2 < equity.1
    · exact ⟨by simp [payout, wins]; omega, by simp [payout, wins], moved⟩
    · exact ⟨by simp [payout, wins]; omega, by simp [payout, wins]; omega, moved⟩

theorem deserved_iff_decisive (some_collateral : x.p.collateralPerSide ≠ 0) (passed : x.test = .ok equity) :
    x.Deserved equity ↔ x.Decisive := by
  rw [deserved_iff_uneven passed]
  obtain ⟨pnl, computed, within_threshold, rfl⟩ := test_ok.mp passed
  obtain ⟨-, pnl_eq⟩ := pnlLongAtoms_ok.mp computed
  have still : x.markFp = x.p.entryPriceFp → pnl = 0 := by
    intro same
    rw [← pnl_eq, same, sub_self, zero_mul, Int.zero_tdiv]
  unfold Decisive
  split
  next twice =>
    have even_iff : (splitEquity x.p.collateralPerSide pnl).1 = (splitEquity x.p.collateralPerSide pnl).2 ↔ pnl = 0 :=
      splitEquity_even_iff twice some_collateral
    have zero_iff := @tdiv_eq_zero_iff
      (((x.markFp : ℤ) - x.p.entryPriceFp) * toSigned 128 x.p.sizeFp) PRICE_ONE (by decide)
    rw [pnl_eq] at zero_iff
    rw [ne_eq, even_iff, zero_iff, not_lt]
    constructor
    · rintro ⟨decisive, -⟩
      exact .inr decisive
    · intro decisive
      have uneven : pnl ≠ 0 := by
        rcases decisive with below | decisive
        · rintro rfl
          -- Both sides have their collateral, which is more than the threshold.
          have even := even_iff.mpr rfl
          have whole := splitEquity_eq twice 0
          have own := boundedEquity_eq twice 0
          have less := shareOf_lt some_collateral below
          rw [whole] at within_threshold
          dsimp only at within_threshold
          omega
        · intro zero
          exact absurd (zero_iff.mp zero) (not_lt.mpr decisive)
      refine ⟨?_, fun same => uneven (still same)⟩
      rw [← not_lt, ← zero_iff]
      exact uneven
  next wide =>
    constructor
    · exact And.right
    · intro moved
      exact ⟨splitEquity_odd (Nat.le_of_not_lt wide), moved⟩

end Liquidating

/-- An accepted liquidation takes a side that has really lost, if and only if the threshold is below the collateral of a
side or the PnL at the mark is at least one atom. -/
theorem deserved_iff (reached : Reachable rt (fun _ => True) s) {c : Call rt} {offset : UInt8}
    (asks : c.instruction = .liquidate offset) (returns : c.returns s = true) :
    ∃ x u equity, (liquidationChecks rt c.inv offset).run s = .ok x u ∧ x.test = .ok equity ∧
      Pays rt x.p x.keeper (x.payout equity) s (execute rt c s) ∧ (x.Deserved equity ↔ x.Decisive) := by
  obtain ⟨x, u, equity, checks, passed⟩ := Liquidating.of_returns asks returns
  have checked := liquidationChecks_ok checks
  refine ⟨x, u, equity, checks, passed, Liquidating.pays_of_returns asks checks passed returns, ?_⟩
  have genuine := genuine_of_reachable reached
  obtain ⟨-, terms, listed, -, -, collateral⟩ := genuine.pmlc_ok (congrArg Account.owner checked.position)
    (congrArg Account.data checked.position)
  apply Liquidating.deserved_iff_decisive _ passed
  rw [collateral]
  exact (genuine.listed_ok listed).2.1

/-- Alice has lost when she is liquidated at the lowest mark. -/
theorem deserved_iff_traded : ∃ x u equity, (liquidationChecks Runtime.sample Sample.early.inv 0).run Sample.traded = .ok x u ∧
    x.test = .ok equity ∧ x.Deserved equity := by
  have reached : Reachable Runtime.sample (fun _ => True) Sample.traded := Sample.reachable fun _ _ => trivial
  obtain ⟨x, u, equity, checks, passed, -, deserved⟩ := deserved_iff reached (rfl : Sample.early.instruction = .liquidate 0)
    (by decide +kernel)
  have seen : Liquidating.summary ((liquidationChecks Runtime.sample Sample.early.inv 0).run Sample.traded) =
      some (Sample.alice, Sample.pmlc Sample.poly 3, 0, some (0, 2000)) := by decide +kernel
  rw [checks] at seen
  simp only [Liquidating.summary, Option.some.injEq, Prod.mk.injEq] at seen
  obtain ⟨-, here, mark, -⟩ := seen
  obtain ⟨collateral, entry, size⟩ := Sample.traded_terms (here ▸ congrArg Account.data (liquidationChecks_ok checks).position)
  refine ⟨x, u, equity, checks, passed, deserved.mpr ?_⟩
  unfold Liquidating.Decisive
  rw [collateral, entry, size, mark, if_pos (by decide)]
  exact .inr (by decide)

namespace Sample

/-- A market in which a side is liquidated that still has all its collateral. -/
def strict : CreateInstrumentArgs := { market 0 1000 100 with liquidationBps := 10000 }

def strictlyTraded : Ledger := runCalls Runtime.sample (launch 0 ++ trade strict) genesis

/-- Carol liquidates that market's position at its entry. -/
def atEntry : Call Runtime.sample := liquidate strict carol alice bob 3 1 500000000000000000

end Sample

/-- At the entry, with all of its collateral left, the long side loses everything. -/
theorem undeserved : Reachable Runtime.sample (fun _ => True) Sample.strictlyTraded ∧
    Sample.atEntry.returns Sample.strictlyTraded = true ∧ ∃ x u,
      (liquidationChecks Runtime.sample Sample.atEntry.inv 0).run Sample.strictlyTraded = .ok x u ∧
        x.test = .ok (1000, 1000) ∧ x.markFp = 500000000000000000 ∧ (x.payout (1000, 1000)).longWins = false ∧
          ¬ x.Deserved (1000, 1000) := by
  obtain ⟨x, u, checks, -, -, mark, passed⟩ := Liquidating.of_summary (by decide +kernel :
    Liquidating.summary ((liquidationChecks Runtime.sample Sample.atEntry.inv 0).run Sample.strictlyTraded) =
      some (Sample.carol, Sample.pmlc Sample.strict 3, 500000000000000000, some (1000, 1000)))
  refine ⟨Sample.reachable fun _ _ => trivial, by decide +kernel, x, u, checks, passed, mark, rfl, fun deserved => ?_⟩
  exact Nat.lt_irrefl 1000 deserved.less

end Polyleverage
