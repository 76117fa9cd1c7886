import Polyleverage.Guarantees.Endings

/-! # Positions that no resolution settles

Whatever was called before, the collateral of a live position is there, and its resolution goes through up to the
last step. It pays both sides at once, so that it fails on a position whose two sides are one trader's: a match never
asks whose its two intents are. The rest is a matter of numbers that their words cannot hold.
-/

namespace Polyleverage

open Machine

variable {rt : Runtime} {s : Ledger} {p : Pmlc} {pmlc : Pubkey} {l m : MarginAccount} {outcome : ℕ}

/-- The words of a margin account hold what this payout makes of them. -/
def MarginAccount.HasRoom (m : MarginAccount) (collateralPerSide payout : ℕ) : Prop :=
  m.freeCollateral + payout < 2 ^ 64 ∧ FitsSigned 64 (toSigned 64 payout - toSigned 64 collateralPerSide)

/-- The two sides are two traders, and the numbers of a resolution at this outcome fit. -/
structure Pmlc.Resolvable (p : Pmlc) (l m : MarginAccount) (outcome : ℕ) : Prop where
  apart : p.longOwner ≠ p.shortOwner
  pnl_fits : outcome = 5000 → FitsSigned 128 (((PRICE_ONE / 2 : ℕ) - (p.entryPriceFp : ℤ)) * toSigned 128 p.sizeFp)
  room : ∀ finalFp pnl, finalMark outcome = .ok finalFp → resolvePnl p outcome finalFp = .ok pnl →
    l.HasRoom p.collateralPerSide (splitEquity p.collateralPerSide pnl).1 ∧
      m.HasRoom p.collateralPerSide (splitEquity p.collateralPerSide pnl).2

/-- In every reachable state the margin accounts of the two sides of a live position are there, and a resolution
returns if and only if the sides are two traders and the numbers fit. -/
theorem resolution_returns_iff (reached : Reachable rt (fun _ => True) s)
    (at_pmlc : s.get pmlc = ⟨rt.programId, .pmlc p⟩) (live : p.status = PMLC_STATUS_LIVE) :
    ∃ l m : MarginAccount,
      s.get (rt.address (.margin p.longOwner p.collateralMint)) = ⟨rt.programId, .marginAccount l⟩ ∧
      s.get (rt.address (.margin p.shortOwner p.collateralMint)) = ⟨rt.programId, .marginAccount m⟩ ∧
      ∀ c outcome, Resolves rt s p pmlc c outcome → (c.returns s = true ↔ p.Resolvable l m outcome) := by
  have genuine := genuine_of_reachable reached
  obtain ⟨l, at_long, enoughL⟩ := margin_of_side genuine reached at_pmlc live (.inl rfl)
  obtain ⟨m, at_short, enoughS⟩ := margin_of_side genuine reached at_pmlc live (.inr rfl)
  refine ⟨l, m, at_long, at_short, fun c outcome x => ?_⟩
  have at_long' : s.get x.ready.long = ⟨rt.programId, .marginAccount l⟩ := by rw [← x.ready.long_address, at_long]
  have at_short' : s.get x.ready.short = ⟨rt.programId, .marginAccount m⟩ := by rw [← x.ready.short_address, at_short]
  rw [x.returns_iff genuine at_pmlc live at_long' at_short', ← x.ready.long_address, ← x.ready.short_address,
    margin_ne_iff]
  constructor
  · rintro ⟨finalFp, pnl, final, computed, apart, ⟨-, long⟩, -, short⟩
    refine ⟨apart, (exists_resolvePnl x.decides).mp ⟨finalFp, pnl, final, computed⟩, ?_⟩
    intro finalFp' pnl' final' computed'
    obtain rfl := Except.ok.inj (final.symm.trans final')
    obtain rfl := Except.ok.inj (computed.symm.trans computed')
    exact ⟨long, short⟩
  · rintro ⟨apart, pnl_fits, room⟩
    obtain ⟨finalFp, pnl, final, computed⟩ := (exists_resolvePnl x.decides).mpr pnl_fits
    obtain ⟨long, short⟩ := room finalFp pnl final computed
    exact ⟨finalFp, pnl, final, computed, apart, ⟨enoughL, long⟩, enoughS, short⟩

/-- Alice's and Bob's position resolves in the middle. -/
theorem resolution_returns_iff_traded :
    (Sample.resolve Sample.poly Sample.alice Sample.bob 3 (Sample.outcome 1 5000)).returns Sample.traded = true := by
  have awaits : Sample.Awaits Sample.traded Sample.alice Sample.bob :=
    ⟨by decide +kernel, by decide +kernel, by decide +kernel, by decide +kernel, by decide +kernel⟩
  obtain ⟨p, at_pmlc, live, mint, long, short, ⟨resolves⟩⟩ := awaits.resolves (o := 5000)
    ⟨⟨_, rfl, rfl, by decide +kernel, by decide +kernel⟩, by decide +kernel, by decide +kernel, by decide +kernel,
      by decide +kernel, .inr (.inl rfl)⟩
  have terms : ((Sample.traded.data (Sample.pmlc Sample.poly 3)).loadPmlc.toOption.map
      fun p => (p.collateralPerSide, p.entryPriceFp, p.sizeFp)) = some (1000, 500000000000000000, 4000) := by
    decide +kernel
  rw [AccountData.loadPmlc_ok.mpr (data_of_get at_pmlc)] at terms
  obtain ⟨collateral, entry, size⟩ :
      p.collateralPerSide = 1000 ∧ p.entryPriceFp = 500000000000000000 ∧ p.sizeFp = 4000 := by
    simpa [Except.toOption] using terms
  have reached : Reachable Runtime.sample (fun _ => True) Sample.traded := Sample.reachable fun _ _ => trivial
  obtain ⟨l, m, at_long, at_short, returns⟩ := resolution_returns_iff reached at_pmlc live
  rw [long, mint] at at_long
  rw [short, mint] at at_short
  have readL : Sample.traded.data (Sample.marginOf Sample.alice) = .marginAccount l := data_of_get at_long
  have readS : Sample.traded.data (Sample.marginOf Sample.bob) = .marginAccount m := data_of_get at_short
  have freeL : (Sample.traded.data (Sample.marginOf Sample.alice)).loadMargin.toOption.map (·.freeCollateral) =
      some 99000 := by decide +kernel
  have freeS : (Sample.traded.data (Sample.marginOf Sample.bob)).loadMargin.toOption.map (·.freeCollateral) =
      some 99000 := by decide +kernel
  rw [AccountData.loadMargin_ok.mpr readL] at freeL
  rw [AccountData.loadMargin_ok.mpr readS] at freeS
  have room : ∀ x : MarginAccount, x.freeCollateral = 99000 → x.HasRoom 1000 1000 := by
    intro x free
    exact ⟨by rw [free]; decide, by decide⟩
  refine (returns _ _ resolves).mpr ⟨by rw [long, short]; decide, fun _ => by rw [entry, size]; decide, ?_⟩
  intro finalFp pnl final computed
  cases final
  change pnlLongAtoms p.entryPriceFp (PRICE_ONE / 2) p.sizeFp = .ok pnl at computed
  rw [entry, size, show pnlLongAtoms 500000000000000000 (PRICE_ONE / 2) 4000 = .ok 0 by decide] at computed
  cases computed
  rw [collateral]
  exact ⟨room l (Option.some.inj freeL), room m (Option.some.inj freeS)⟩

namespace Sample

/-- Alice buys from herself. -/
def selfTraded : Ledger :=
  runCalls Runtime.sample
    (launch 0 ++ [openMarket poly, post poly alice 0 1, post poly alice 1 1, fill poly alice alice 1 2 3]) genesis

end Sample

/-- The position between Alice and herself is live and cannot be resolved, although the message and the accounts are
as they should be. -/
theorem resolution_stuck : Reachable Runtime.sample (fun _ => True) Sample.selfTraded ∧
    ∃ p, Sample.selfTraded.get (Sample.pmlc Sample.poly 3) = ⟨Runtime.sample.programId, .pmlc p⟩ ∧
      p.status = PMLC_STATUS_LIVE ∧ ∃ c,
        Nonempty (Resolves Runtime.sample Sample.selfTraded p (Sample.pmlc Sample.poly 3) c 10000) ∧
        c.returns Sample.selfTraded = false := by
  refine ⟨Sample.reachable fun _ _ => trivial, ?_⟩
  have awaits : Sample.Awaits Sample.selfTraded Sample.alice Sample.alice :=
    ⟨by decide +kernel, by decide +kernel, by decide +kernel, by decide +kernel, by decide +kernel⟩
  obtain ⟨p, at_pmlc, live, -, -, -, resolves⟩ := awaits.resolves (o := 10000)
    ⟨⟨_, rfl, rfl, by decide +kernel, by decide +kernel⟩, by decide +kernel, by decide +kernel, by decide +kernel,
      by decide +kernel, .inr (.inr rfl)⟩
  exact ⟨p, at_pmlc, live, _, resolves, by decide +kernel⟩

end Polyleverage
