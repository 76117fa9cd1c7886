import Polyleverage.Guarantees.FeeBuffers
import Polyleverage.Invariants.Opening

/-! # The PnL of a position that was opened

Opening a position checks that the notional times one fits into 128 bits. Settling it multiplies the size with the
distance of the mark from the entry, in 127 bits and a sign. Not every position that can be opened passes the second
test, and a size in the upper half of the range turns into a negative number before it.
-/

namespace Polyleverage

open Machine

variable {rt : Runtime} {inv : rt.Invocation} {s t : Ledger} {u : Unit} {ctx : MatchCtx} {longId shortId : ℕ}

namespace Sample

/-- The fill runs a match of the two intents. -/
theorem fill_ran {feeBps contracts : UInt16}
    (unpacked : ((unpackMatchAccounts Runtime.sample (fill poly alice bob 1 2 3).inv).run (posted feeBps contracts)).value? =
      some fillCtx)
    (returns : (fill poly alice bob 1 2 3).returns (posted feeBps contracts) = true) :
    ∃ t, (matchPairCore Runtime.sample (fill poly alice bob 1 2 3).inv fillCtx 1 2).run (posted feeBps contracts) = .ok () t := by
  obtain ⟨_, unpacked⟩ := Outcome.value?_eq_some.mp unpacked
  obtain ⟨rfl, -, -⟩ := unpackMatchAccounts_ok unpacked
  have ran : (processMatchPair Runtime.sample (fill poly alice bob 1 2 3).inv ⟨1, 2, 1⟩).run _ = _ := Call.ran returns
  rw [processMatchPair, Exec.run_bind_of_ok unpacked] at ran
  exact ⟨_, ran⟩

/-- Post an intent of one contract at this price. -/
def postAt (args : CreateInstrumentArgs) (owner : Pubkey) (side : UInt8) (priceFp : UInt64) : Call Runtime.sample :=
  call (.postIntent ⟨side, priceFp, 1, 100, 0, 0⟩) [owner]
    [owner, config, instrument args, book args, marginOf owner]

end Sample

/-! ### Exactness -/

/-- The PnL of a position that a match opens is exact whenever it is returned, if and only if its size is below
`2 ^ 127`, or the mark is the entry, or the product with the size less `2 ^ 128` does not fit either. -/
theorem pnl_exact_iff (ran : (matchPairCore rt inv ctx longId shortId).run s = .ok u t) :
    ∃ x : Opening rt inv ctx longId shortId s t, ∀ markFp : ℕ,
      (∀ v, pnlLongAtoms x.p.entryPriceFp markFp x.p.sizeFp = .ok v →
        v = exactPnl x.p.entryPriceFp markFp x.p.sizeFp ∧
          (x.p.entryPriceFp ≤ markFp → 0 ≤ v) ∧ (markFp ≤ x.p.entryPriceFp → v ≤ 0)) ↔
        x.p.sizeFp < 2 ^ 127 ∨ markFp = x.p.entryPriceFp ∨
          ¬ FitsSigned 128 (((markFp : ℤ) - x.p.entryPriceFp) * ((x.p.sizeFp : ℤ) - 2 ^ 128)) := by
  obtain ⟨x⟩ := opening_of_matchPairCore ran
  exact ⟨x, fun markFp => pnlLongAtoms_exact_iff (positionSizeFp_lt x.size_eq)⟩

/-- A gain of one half on a notional of two thousand. -/
example : (pnlLongAtoms 500000000000000000 750000000000000000 4000).toOption = some 1000 := by decide +kernel

/-- The PnL of the position of Alice and Bob at the mark of zero. -/
theorem pnl_exact_iff_filled : ∃ t, ∃ x : Opening Runtime.sample (Sample.fill Sample.poly Sample.alice Sample.bob 1 2 3).inv
    Sample.fillCtx 1 2 (Sample.posted 0 1) t, x.p.sizeFp < 2 ^ 127 → ∀ v,
      pnlLongAtoms x.p.entryPriceFp 0 x.p.sizeFp = .ok v → v = exactPnl x.p.entryPriceFp 0 x.p.sizeFp := by
  obtain ⟨t, ran⟩ := Sample.fill_ran (by decide +kernel : Outcome.value? (Exec.run _ (Sample.posted 0 1)) = _) (by decide +kernel)
  obtain ⟨x, exact⟩ := pnl_exact_iff ran
  exact ⟨t, x, fun small v computed => (((exact 0).mpr (.inl small)) v computed).1⟩

namespace Sample

/-- Alice and Bob have more tokens. -/
def richGenesis : Ledger :=
  ((genesis.set mint ⟨Runtime.sample.tokenProgram, .mint ⟨none, 1000000000000000000, 6⟩⟩).set (tokensOf alice)
    (genesis.tokens alice 400000000000000000)).set (tokensOf bob) (genesis.tokens bob 400000000000000000)

theorem richGenesis_genesis : Genesis Runtime.sample richGenesis := by
  apply genesis_of_even
  decide +kernel

/-- A thousand times leverage on a large bucket. -/
def large : CreateInstrumentArgs := { market 0 180000000000000000 100 with leverageBps := 10000000 }

/-- Both have posted in that market, at the lowest price. -/
def postedLow : Ledger :=
  runCalls Runtime.sample (call (.initProgramConfig ⟨oracle, 60⟩) [admin] [admin, config, admin, systemProgram] ::
    call (.initFeeSchedule (Vector.replicate 8 ⟨0, 0⟩)) [admin] [admin, config, feeSchedule, systemProgram] ::
    (fund alice 200000000000000000 ++ fund bob 200000000000000000 ++
      [openMarket large, postAt large alice 0 1, postAt large bob 1 1])) richGenesis

/-- The position at `k` and its long side's PnL at a mark, as computed and over the integers. -/
def pnlAt (s : Ledger) (k : Pubkey) (markFp : ℕ) : Option (ℕ × ℕ × ℕ × Option ℤ × ℤ) :=
  match s.data k with
  | .pmlc p =>
    some (p.status, p.entryPriceFp, p.sizeFp, (pnlLongAtoms p.entryPriceFp markFp p.sizeFp).toOption,
      exactPnl p.entryPriceFp markFp p.sizeFp)
  | _ => none

end Sample

/-- At the mark of zero the long side has lost, and its computed PnL is positive. -/
theorem pnl_inverted : Reachable Runtime.sample (fun _ => True) Sample.postedLow ∧
    (Sample.fill Sample.large Sample.alice Sample.bob 1 2 3).returns Sample.postedLow = true ∧
    Sample.pnlAt (execute Runtime.sample (Sample.fill Sample.large Sample.alice Sample.bob 1 2 3) Sample.postedLow)
      (Sample.pmlc Sample.large 3) 0 =
      some (PMLC_STATUS_LIVE, 1, 180000000000000000000000000000000000000, some 160282366920938463463, -180000000000000000000) := by
  refine ⟨Reachable.runCalls (fun _ _ => trivial) (.genesis Sample.richGenesis_genesis), ?_, ?_⟩
  · decide +kernel
  · decide +kernel

/-! ### Overflow -/

/-- The PnL of a position that a match opens is computed at every mark below one, if and only if the product fits
at the lowest mark and at the highest. -/
theorem pnl_defined_iff (ran : (matchPairCore rt inv ctx longId shortId).run s = .ok u t) :
    ∃ x : Opening rt inv ctx longId shortId s t,
      (∀ markFp < PRICE_ONE, pnlLongAtoms x.p.entryPriceFp markFp x.p.sizeFp ≠ .error PolyleverageError.arithmeticOverflow) ↔
        FitsSigned 128 (-(x.p.entryPriceFp : ℤ) * toSigned 128 x.p.sizeFp) ∧
        FitsSigned 128 (((PRICE_ONE : ℤ) - 1 - x.p.entryPriceFp) * toSigned 128 x.p.sizeFp) := by
  obtain ⟨x⟩ := opening_of_matchPairCore ran
  exact ⟨x, pnlLongAtoms_defined_iff⟩

/-- The position of Alice and Bob has a PnL at its entry, if it has one at both ends. -/
theorem pnl_defined_iff_filled : ∃ t, ∃ x : Opening Runtime.sample (Sample.fill Sample.poly Sample.alice Sample.bob 1 2 3).inv
    Sample.fillCtx 1 2 (Sample.posted 0 1) t,
      FitsSigned 128 (-(x.p.entryPriceFp : ℤ) * toSigned 128 x.p.sizeFp) →
      FitsSigned 128 (((PRICE_ONE : ℤ) - 1 - x.p.entryPriceFp) * toSigned 128 x.p.sizeFp) →
        pnlLongAtoms x.p.entryPriceFp 0 x.p.sizeFp ≠ .error PolyleverageError.arithmeticOverflow := by
  obtain ⟨t, ran⟩ := Sample.fill_ran (by decide +kernel : Outcome.value? (Exec.run _ (Sample.posted 0 1)) = _) (by decide +kernel)
  obtain ⟨x, defined⟩ := pnl_defined_iff ran
  exact ⟨t, x, fun lowest highest => defined.mpr ⟨lowest, highest⟩ 0 (by decide)⟩

namespace Sample

/-- Both have posted in the sample's market, at the lowest price. -/
def low : Ledger := runCalls Runtime.sample (launch 0 ++ [openMarket poly, postAt poly alice 0 1, postAt poly bob 1 1]) genesis

/-- And both are filled. -/
def lowTraded : Ledger := execute Runtime.sample (fill poly alice bob 1 2 3) low

end Sample

/-- Two thousand atoms of notional are opened at the lowest price, and cannot be liquidated at the highest. -/
theorem pnl_overflows : Reachable Runtime.sample (fun _ => True) Sample.low ∧
    (Sample.fill Sample.poly Sample.alice Sample.bob 1 2 3).returns Sample.low = true ∧
    Sample.pnlAt Sample.lowTraded (Sample.pmlc Sample.poly 3) 999999999999999999 =
      some (PMLC_STATUS_LIVE, 1, 2000000000000000000000, none, 1999999999999999996000) ∧
    ∃ t, (process Runtime.sample (Sample.liquidate Sample.poly Sample.carol Sample.alice Sample.bob 3 1 999999999999999999).inv
        (.liquidate 0)).run Sample.lowTraded = .err PolyleverageError.arithmeticOverflow t := by
  refine ⟨Sample.reachable fun _ _ => trivial, ?_, ?_, ?_⟩
  · decide +kernel
  · decide +kernel
  · exact Outcome.error?_eq_some.mp (by decide +kernel)

end Polyleverage
