import Polyleverage.Guarantees.Positions
import Polyleverage.Invariants.SettleMoves
import Polyleverage.Sample

/-! # The outcome of a liquidation

A liquidation first checks its attestation and its accounts, then compares the equity at the attested mark
with the threshold, and then pays. The comparison and the payout read nothing but what never changes of the
position and of its instrument, so they come out the same whenever the liquidation is submitted.
-/

namespace Polyleverage

open Machine

variable {rt : Runtime} {inv : rt.Invocation} {s t u : Ledger} {k : Pubkey} {offset : UInt8}

instance {ε σ : Type} : LawfulMonad (Exec ε σ) := by
  refine LawfulMonad.mk' _ ?_ (fun _ _ => rfl) ?_
  · intro α m
    funext s
    change (m s).bind _ = m s
    cases m s <;> rfl
  · intro α β γ m f g
    funext s
    change ((m s).bind _).bind _ = (m s).bind _
    cases m s <;> rfl

/-- What the checks of a liquidation have found: its accounts, the position, and the attested mark. -/
structure Liquidating where
  keeper : Pubkey
  pmlc : Pubkey
  longMargin : Pubkey
  shortMargin : Pubkey
  keeperMargin : Pubkey
  inst : InstrumentConfig
  p : Pmlc
  markFp : ℕ

/-- All that a liquidation checks before the threshold: the attestation is well formed, is about this position,
is fresh, and its nonce is unused. -/
def liquidationChecks (rt : Runtime) (inv : rt.Invocation) (attestationIxOffset : UInt8) : LedgerM Liquidating := do
  match inv.accounts with
  | keeper :: config :: sysvar :: instrument :: pmlc :: nonce :: longMargin :: shortMargin :: keeperMargin :: _ => do
    assertSigner rt inv keeper
    assertWritable rt inv pmlc
    assertWritable rt inv nonce
    assertWritable rt inv longMargin
    assertWritable rt inv shortMargin
    assertWritable rt inv keeperMargin
    assertOwned rt [config, instrument, pmlc, nonce, longMargin, shortMargin, keeperMargin]
    Exec.rejectIf (sysvar ≠ rt.instructionsSysvar) .invalidAccountData
    let cfg ← loadUnpaused config
    let inst ← load AccountData.loadInstrument instrument
    validateMargin rt keeper inst.collateralMint keeperMargin
    let att ← loadAttestation rt inv cfg sysvar attestationIxOffset.toNat ATT_TYPE_HISTORICAL_LIQUIDATION
    Exec.ofExcept (checkBreach att pmlc (nowUnix rt inv))
    let _ ← assertPda rt (.marketNonce inst.marketId) nonce
    atAccount rt inv AccountData.loadMarketNonce .marketNonce nonce
      (acceptAttestation att inst (nowUnix rt inv) fun n => do
        let mark ← att.breachMarkFp
        .ok { n with lastAcceptedTwapFp := mark })
    let markFp ← Exec.ofExcept att.breachMarkFp
    let p ← loadLivePmlc pmlc instrument inst
    pure { keeper, pmlc, longMargin, shortMargin, keeperMargin, inst, p, markFp }
  | _ => Exec.throw .notEnoughAccountKeys

namespace Liquidating

/-- The threshold test, with both sides' equity at the mark. -/
def test (x : Liquidating) : Except ProgramError (ℕ × ℕ) := do
  let pnlLong ← pnlLongAtoms x.p.entryPriceFp x.markFp x.p.sizeFp
  let equity := splitEquity x.p.collateralPerSide pnlLong
  if shareOf x.p.collateralPerSide x.inst.liquidationBps < min equity.1 equity.2 then
    .error PolyleverageError.notLiquidatable
  else .ok equity

/-- Everything after the threshold. -/
def settle (rt : Runtime) (inv : rt.Invocation) (x : Liquidating) (equity : ℕ × ℕ) : LedgerM Unit := do
  validateMargin rt x.p.longOwner x.inst.collateralMint x.longMargin
  validateMargin rt x.p.shortOwner x.inst.collateralMint x.shortMargin
  payOut rt inv x.longMargin x.shortMargin x.keeperMargin x.pmlc x.p.collateralPerSide
    (shareOf x.p.collateralPerSide x.inst.liquidationBountyBps) equity

theorem run_test (x : Liquidating) (f : ℕ × ℕ → LedgerM Unit) :
    (do let pnlLong ← Exec.ofExcept (pnlLongAtoms x.p.entryPriceFp x.markFp x.p.sizeFp)
        Exec.rejectIf (shareOf x.p.collateralPerSide x.inst.liquidationBps <
          min (splitEquity x.p.collateralPerSide pnlLong).1 (splitEquity x.p.collateralPerSide pnlLong).2)
          PolyleverageError.notLiquidatable
        f (splitEquity x.p.collateralPerSide pnlLong)) = Exec.ofExcept x.test >>= f := by
  unfold test
  cases pnlLongAtoms x.p.entryPriceFp x.markFp x.p.sizeFp with
  | error e => rfl
  | ok pnl =>
    change Exec.rejectIf _ _ >>= _ = Exec.ofExcept (if _ then _ else _) >>= f
    unfold Exec.rejectIf
    split <;> rfl

end Liquidating

/-- A liquidation is its checks, its test, and what comes after. -/
theorem processLiquidate_eq : processLiquidate rt inv offset =
    (do let x ← liquidationChecks rt inv offset
        let equity ← Exec.ofExcept x.test
        x.settle rt inv equity) := by
  unfold processLiquidate liquidationChecks
  generalize inv.accounts = accounts
  rcases accounts with _ | ⟨keeper, _ | ⟨config, _ | ⟨sysvar, _ | ⟨instrument, _ | ⟨pmlc, _ | ⟨nonce, _ | ⟨longMargin,
    _ | ⟨shortMargin, _ | ⟨keeperMargin, rest⟩⟩⟩⟩⟩⟩⟩⟩⟩
  iterate 9 exact rfl
  simp only [bind_assoc, pure_bind]
  repeat refine congrArg _ (funext fun _ => ?_)
  rw [← Liquidating.run_test]
  iterate 2 refine congrArg _ (funext fun _ => ?_)
  unfold Liquidating.settle
  iterate 2 refine congrArg _ (funext fun _ => ?_)
  unfold payOut
  split <;> rfl

/-! ### What the checks establish -/

/-- The position and its instrument are accounts of the program, and only the nonce account is written. -/
structure Liquidating.Checked (s u : Ledger) (inv : rt.Invocation) (x : Liquidating) : Prop where
  position : s.get x.pmlc = ⟨rt.programId, .pmlc x.p⟩
  live : x.p.status = PMLC_STATUS_LIVE
  listed : s.Listed rt x.p.instrument x.inst.listing
  mint_of : x.p.collateralMint = x.inst.collateralMint
  signed : inv.isSigner x.keeper = true
  keeper_address : rt.address (.margin x.keeper x.inst.collateralMint) = x.keeperMargin
  touches : Touches [.marketNonce] [.marketNonce] s u

theorem liquidationChecks_ok {x : Liquidating} (ran : (liquidationChecks rt inv offset).run s = .ok x u) : x.Checked s u inv := by
  unfold liquidationChecks at ran
  split at ran
  next keeper config sysvar instrument pmlc nonce longMargin shortMargin keeperMargin rest accounts =>
    simp only [Exec.bind_check, exists_const, ne_eq, not_not] at ran
    obtain ⟨signed, -, -, -, -, -, owned, -, cfg, -, inst, found, ⟨keeper_address, -⟩, att, -, -, _, -, ran⟩ := ran
    rw [Exec.bind_ok] at ran
    obtain ⟨_, mid, wrote, ran⟩ := ran
    have touches : Touches [.marketNonce] [.marketNonce] s mid := Within.keeps.ok wrote
    simp only [Exec.bind_check] at ran
    obtain ⟨mark, -, p, ⟨held, live, instrument_of, -, mint_of⟩, ran⟩ := ran
    obtain ⟨rfl, rfl⟩ := Exec.pure_ok.mp ran
    have same : mid.get pmlc = s.get pmlc := touches.get_eq' (by simp [held])
    have position : s.data pmlc = .pmlc p := by
      rw [Ledger.data, ← same]
      exact held
    exact {
      position := get_eq_of_data (owned _ (by simp)) position
      live, mint_of, signed, keeper_address, touches
      listed := by
        dsimp only
        rw [instrument_of]
        exact listed_of_load (owned _ (by simp)) found }
  · cases ran

/-! ### What is paid -/

def AccountData.freeCollateral : AccountData → ℕ
  | .marginAccount m => m.freeCollateral
  | _ => 0

def AccountData.lockedCollateral : AccountData → ℕ
  | .marginAccount m => m.lockedCollateral
  | _ => 0

/-- The free and the locked collateral of every margin account change by these amounts. -/
def Rebalances (free locked : Pubkey → ℤ) (s t : Ledger) : Prop :=
  ∀ k, ((t.data k).freeCollateral : ℤ) = (s.data k).freeCollateral + free k ∧
    ((t.data k).lockedCollateral : ℤ) = (s.data k).lockedCollateral + locked k

section Rebalances

variable {free free' locked locked' : Pubkey → ℤ}

theorem Rebalances.trans (first : Rebalances free locked s u) (next : Rebalances free' locked' u t) :
    Rebalances (free + free') (locked + locked') s t := by
  intro k
  obtain ⟨free, locked⟩ := first k
  obtain ⟨free', locked'⟩ := next k
  constructor
  · rw [free', free, Pi.add_apply, add_assoc]
  · rw [locked', locked, Pi.add_apply, add_assoc]

theorem Rebalances.cast (rebalances : Rebalances free locked s t) (frees : free = free') (locks : locked = locked') :
    Rebalances free' locked' s t := by
  subst frees locks
  exact rebalances

theorem rebalances_of_touches {old new : List AccountKind} (touches : Touches old new s t)
    (unwritten : AccountKind.marginAccount ∉ old) (unleft : AccountKind.marginAccount ∉ new) : Rebalances 0 0 s t := by
  have none : ∀ d : AccountData, d.kind ≠ .marginAccount → d.freeCollateral = 0 ∧ d.lockedCollateral = 0 := by
    intro d other
    cases d with
    | marginAccount m => exact absurd rfl other
    | _ => exact ⟨rfl, rfl⟩
  intro k
  rcases touches k with same | ⟨was, is⟩
  · rw [Ledger.data, same, Ledger.data]
    simp
  · have before := none (s.data k) fun kind => unwritten (kind ▸ was)
    have after := none (t.data k) fun kind => unleft (kind ▸ is)
    simp [before, after]

theorem rebalances_atMargin {m : MarginM Unit} {u : Unit} {total reserved locked : ℤ} (ran : (atMargin rt inv k m).run s = .ok u t)
    (step : ∀ x y, m.run x = .ok () y → MarginStep x y total reserved locked) :
    Rebalances (Pi.single k (total - reserved - locked)) (Pi.single k locked) s t := by
  obtain ⟨x, y, held, inner, rfl⟩ := atMargin_ok ran
  have moved := step x y inner
  intro j
  by_cases here : j = k
  · subst here
    have totals := moved.total
    have reserves := moved.reserved
    have locks := moved.locked
    simp only [MarginAccount.total] at totals
    push_cast at totals
    simp only [Ledger.data_setData_self, held, AccountData.freeCollateral, AccountData.lockedCollateral, Pi.single_eq_same]
    omega
  · rw [Ledger.data_setData_of_ne _ _ here, Pi.single_eq_of_ne here, Pi.single_eq_of_ne here]
    simp

end Rebalances

/-- What a liquidation takes and pays: the winning side, what each side loses of its locked collateral, what the
winner gets, and what the keeper gets. -/
structure Payout where
  longWins : Bool
  collateral : ℕ
  credit : ℕ
  bounty : ℕ

/-- The liquidation of `p` by this keeper pays `o`. -/
def Pays (rt : Runtime) (p : Pmlc) (keeper : Pubkey) (o : Payout) (s t : Ledger) : Prop :=
  let margin := fun owner => rt.address (.margin owner p.collateralMint)
  Rebalances
    (Pi.single (margin (if o.longWins then p.longOwner else p.shortOwner)) (o.credit : ℤ) + Pi.single (margin keeper) (o.bounty : ℤ))
    (Pi.single (margin p.longOwner) (-(o.collateral : ℤ)) + Pi.single (margin p.shortOwner) (-(o.collateral : ℤ))) s t

theorem rebalances_payWinner {winner loser long short : Pubkey} {collateral bounty : ℕ} {v : Unit}
    (ran : (payWinner rt inv winner loser long short collateral bounty).run s = .ok v t) :
    Rebalances (Pi.single winner ((saturatingSub (saturatingMul 64 collateral 2) bounty : ℕ) : ℤ))
      (Pi.single long (-(collateral : ℤ)) + Pi.single short (-(collateral : ℤ))) s t := by
  simp only [payWinner, Exec.bind_ok, Exec.rejectIf_ok] at ran
  obtain ⟨_, _, ⟨-, rfl⟩, _, s1, debited, _, s2, debited', _, s3, paid, _, s4, lost, won⟩ := ran
  have first := rebalances_atMargin debited fun _ _ => marginStep_debitLocked
  have second := rebalances_atMargin debited' fun _ _ => marginStep_debitLocked
  have third := rebalances_atMargin paid fun _ _ => marginStep_creditFree
  have fourth := rebalances_atMargin lost fun _ _ => marginStep_subRealizedPnl
  have fifth := rebalances_atMargin won fun _ _ => marginStep_addRealizedPnl
  apply (first.trans (second.trans (third.trans (fourth.trans fifth)))).cast
  · simp
  · simp

theorem rebalances_payOut {long short keeper pmlc : Pubkey} {collateral bounty : ℕ} {equity : ℕ × ℕ} {v : Unit}
    (ran : (payOut rt inv long short keeper pmlc collateral bounty equity).run s = .ok v t) :
    Rebalances (Pi.single (if equity.2 < equity.1 then long else short)
        ((saturatingSub (saturatingMul 64 collateral 2) bounty : ℕ) : ℤ) + Pi.single keeper (bounty : ℤ))
      (Pi.single long (-(collateral : ℤ)) + Pi.single short (-(collateral : ℤ))) s t := by
  have decided : ∃ loser, (do
      payWinner rt inv (if equity.2 < equity.1 then long else short) loser long short collateral bounty
      closePmlcWith rt inv pmlc PMLC_STATUS_LIQUIDATED CLOSE_REASON_LIQUIDATED
      Exec.when (0 < bounty) (atMargin rt inv keeper (MarginAccount.creditFree bounty))).run s = .ok v t := by
    unfold payOut at ran
    split at ran
    next wins => exact ⟨short, by rwa [if_pos wins]⟩
    next loses => exact ⟨long, by rwa [if_neg loses]⟩
  obtain ⟨loser, ran⟩ := decided
  simp only [Exec.bind_ok] at ran
  obtain ⟨_, s1, paid, _, s2, closed, bountied⟩ := ran
  have closes : Touches [.pmlc] [.pmlc] s1 s2 := Within.keeps.ok closed
  have first := rebalances_payWinner paid
  have second := rebalances_of_touches closes (by simp) (by simp)
  have third : Rebalances (Pi.single keeper (bounty : ℤ)) 0 s2 t := by
    rcases Exec.when_ok.mp bountied with ⟨-, credited⟩ | ⟨none, rfl⟩
    · apply (rebalances_atMargin credited fun _ _ => marginStep_creditFree).cast <;> simp
    · have same : Touches [] [] s2 s2 := Std.Refl.refl s2
      apply (rebalances_of_touches same (by simp) (by simp)).cast
      · simp [Nat.eq_zero_of_not_pos none]
      · rfl
  apply (first.trans (second.trans third)).cast <;> simp

namespace Liquidating

/-- The payout at this equity. -/
def payout (x : Liquidating) (equity : ℕ × ℕ) : Payout where
  longWins := equity.2 < equity.1
  collateral := x.p.collateralPerSide
  credit := saturatingSub (saturatingMul 64 x.p.collateralPerSide 2) (shareOf x.p.collateralPerSide x.inst.liquidationBountyBps)
  bounty := shareOf x.p.collateralPerSide x.inst.liquidationBountyBps

variable {x : Liquidating} {equity : ℕ × ℕ}

theorem settle_pays (checked : x.Checked s u inv) (ran : (x.settle rt inv equity).run u = .ok () t) :
    Pays rt x.p x.keeper (x.payout equity) s t := by
  simp only [settle, Exec.bind_check] at ran
  obtain ⟨_, ⟨long_address, -⟩, _, ⟨short_address, -⟩, ran⟩ := ran
  rw [← checked.mint_of] at long_address short_address
  have keeper_address := checked.keeper_address
  rw [← checked.mint_of] at keeper_address
  have spent := rebalances_of_touches checked.touches (by simp) (by simp)
  apply (spent.trans (rebalances_payOut ran)).cast
  · by_cases wins : equity.2 < equity.1 <;> simp [payout, wins, long_address, short_address, keeper_address]
  · simp [payout, long_address, short_address]

end Liquidating

/-! ### Two liquidations of one position -/

/-- Behind its checks a liquidation tests the threshold, and pays when it passes. -/
theorem run_liquidate {x : Liquidating} (checks : (liquidationChecks rt inv offset).run s = .ok x u) :
    (process rt inv (.liquidate offset)).run s = (Exec.ofExcept x.test >>= x.settle rt inv).run u := by
  change (processLiquidate rt inv offset).run s = _
  rw [processLiquidate_eq, Exec.run_bind_of_ok checks]

namespace Liquidating

/-- What the test and the payout read of a position and its instrument. -/
structure SameTerms (x x' : Liquidating) : Prop where
  entryPriceFp : x'.p.entryPriceFp = x.p.entryPriceFp
  sizeFp : x'.p.sizeFp = x.p.sizeFp
  collateralPerSide : x'.p.collateralPerSide = x.p.collateralPerSide
  liquidationBps : x'.inst.liquidationBps = x.inst.liquidationBps
  liquidationBountyBps : x'.inst.liquidationBountyBps = x.inst.liquidationBountyBps

variable {x x' : Liquidating}

/-- A liquidation that returns has passed the test and pays what the test says. -/
theorem pays_of_returns {c : Call rt} {equity : ℕ × ℕ} (asks : c.instruction = .liquidate offset)
    (checks : (liquidationChecks rt c.inv offset).run s = .ok x u) (passes : x.test = .ok equity) (returns : c.returns s = true) :
    Pays rt x.p x.keeper (x.payout equity) s (execute rt c s) := by
  have ran := c.ran returns
  rw [asks, run_liquidate checks, passes] at ran
  exact settle_pays (liquidationChecks_ok checks) ran

end Liquidating

/-- The keeper, the position, the mark and the verdict. -/
def Liquidating.summary (found : Outcome ProgramError Ledger Liquidating) : Option (Pubkey × Pubkey × ℕ × Option (ℕ × ℕ)) :=
  match found with
  | .ok x _ => some (x.keeper, x.pmlc, x.markFp, x.test.toOption)
  | _ => none

theorem Liquidating.of_summary {found : Outcome ProgramError Ledger Liquidating} {keeper : Pubkey} {mark : ℕ} {equity : ℕ × ℕ}
    (seen : summary found = some (keeper, k, mark, some equity)) :
    ∃ x u, found = .ok x u ∧ x.keeper = keeper ∧ x.pmlc = k ∧ x.markFp = mark ∧ x.test = .ok equity := by
  unfold summary at seen
  split at seen
  next x u =>
    simp only [Option.some.injEq, Prod.mk.injEq] at seen
    obtain ⟨keeper, position, mark, passes⟩ := seen
    refine ⟨x, u, rfl, keeper, position, mark, ?_⟩
    cases verdict : x.test with
    | error e =>
      rw [verdict] at passes
      cases passes
    | ok equity' =>
      rw [verdict] at passes
      cases passes
      rfl
  · cases seen

namespace Sample

/-- Alice liquidates the position she is long in. -/
def early : Call Runtime.sample := liquidate poly alice alice bob 3 1 0

/-- Bob liquidates the same position. -/
def late : Call Runtime.sample := liquidate poly bob alice bob 3 2 0

end Sample

/-- The liquidation of `p` pays `o`, which is all the collateral of the two sides, and no more of it than the
loser's goes to the keeper. -/
structure Conserves (rt : Runtime) (p : Pmlc) (keeper : Pubkey) (o : Payout) (s t : Ledger) : Prop where
  pays : Pays rt p keeper o s t
  taken : o.collateral = p.collateralPerSide
  whole : o.credit + o.bounty = 2 * p.collateralPerSide
  fromLoser : o.bounty ≤ p.collateralPerSide

/-- The share in basis points stays within the collateral. -/
def BountyFits (collateralPerSide bountyBps : ℕ) : Prop :=
  collateralPerSide * bountyBps % (BPS_DENOM * 2 ^ 64) < BPS_DENOM * (collateralPerSide + 1)

instance (collateralPerSide bountyBps : ℕ) : Decidable (BountyFits collateralPerSide bountyBps) :=
  inferInstanceAs (Decidable (_ < _))

theorem shareOf_le_iff {collateral bps : ℕ} : shareOf collateral bps ≤ collateral ↔ BountyFits collateral bps := by
  rw [shareOf, truncate, ← Nat.mod_mul_right_div_self, ← Nat.lt_succ_iff, Nat.div_lt_iff_lt_mul (by decide),
    Nat.mul_comm (collateral + 1)]
  rfl

/-- A share of more than the whole. -/
example : shareOf 1000 65535 = 6553 := by decide +kernel

/-- A bounty of at most the whole collateral fits. -/
theorem bountyFits_of_le {collateral bps : ℕ} (le : bps ≤ BPS_DENOM) : BountyFits collateral bps := by
  have small : collateral * bps ≤ BPS_DENOM * collateral := by
    rw [Nat.mul_comm BPS_DENOM]
    exact Nat.mul_le_mul_left collateral le
  have positive : 0 < BPS_DENOM := by decide
  refine lt_of_le_of_lt (Nat.mod_le _ _) ?_
  rw [Nat.mul_succ]
  omega

theorem Liquidating.payout_whole_iff {x : Liquidating} {equity : ℕ × ℕ} (small : 2 * x.p.collateralPerSide < 2 ^ 64) :
    ((x.payout equity).credit + (x.payout equity).bounty = 2 * x.p.collateralPerSide ∧
      (x.payout equity).bounty ≤ x.p.collateralPerSide) ↔ BountyFits x.p.collateralPerSide x.inst.liquidationBountyBps := by
  rw [← shareOf_le_iff]
  have double : saturatingMul 64 x.p.collateralPerSide 2 = 2 * x.p.collateralPerSide := by
    rw [saturatingMul_of_lt (by omega), Nat.mul_comm]
  simp only [payout, double, saturatingSub]
  constructor
  · exact And.right
  · intro fits
    exact ⟨by omega, fits⟩

/-- A liquidation that returns has passed its checks and its test. -/
theorem Liquidating.of_returns {c : Call rt} (asks : c.instruction = .liquidate offset) (returns : c.returns s = true) :
    ∃ x u equity, (liquidationChecks rt c.inv offset).run s = .ok x u ∧ x.test = .ok equity := by
  have ran := c.ran returns
  rw [asks] at ran
  change (processLiquidate rt c.inv offset).run s = _ at ran
  rw [processLiquidate_eq, Exec.bind_ok] at ran
  obtain ⟨x, u, checks, ran⟩ := ran
  rw [Exec.bind_check] at ran
  obtain ⟨equity, passes, -⟩ := ran
  exact ⟨x, u, equity, checks, passes⟩

/-- The collateral of one side, the bounty's share of it, and the bounty. -/
def Liquidating.stakes (found : Outcome ProgramError Ledger Liquidating) : Option (ℕ × ℕ × ℕ) :=
  match found with
  | .ok x _ => some (x.p.collateralPerSide, x.inst.liquidationBountyBps, shareOf x.p.collateralPerSide x.inst.liquidationBountyBps)
  | _ => none

theorem Liquidating.stakes_eq_some {found : Outcome ProgramError Ledger Liquidating} {collateral bps bounty : ℕ}
    {x : Liquidating} {u : Ledger} (stakes : Liquidating.stakes found = some (collateral, bps, bounty)) (checks : found = .ok x u) :
    x.p.collateralPerSide = collateral ∧ x.inst.liquidationBountyBps = bps ∧ (∀ equity, (x.payout equity).bounty = bounty) := by
  subst checks
  simp only [Liquidating.stakes, Option.some.injEq, Prod.mk.injEq] at stakes
  obtain ⟨rfl, rfl, rfl⟩ := stakes
  exact ⟨rfl, rfl, fun _ => rfl⟩

/-- A liquidation pays out exactly what it takes, with the bounty from the loser's collateral, if and only if the
bounty's share is within the collateral of one side. -/
theorem liquidation_conserves_iff {c : Call rt} (asks : c.instruction = .liquidate offset) (returns : c.returns s = true) :
    ∃ x u equity, (liquidationChecks rt c.inv offset).run s = .ok x u ∧ x.test = .ok equity ∧
      s.get x.pmlc = ⟨rt.programId, .pmlc x.p⟩ ∧ x.p.status = PMLC_STATUS_LIVE ∧ s.Listed rt x.p.instrument x.inst.listing ∧
      (2 * x.p.collateralPerSide < 2 ^ 64 →
        (Conserves rt x.p x.keeper (x.payout equity) s (execute rt c s) ↔
          BountyFits x.p.collateralPerSide x.inst.liquidationBountyBps)) := by
  obtain ⟨x, u, equity, checks, passes⟩ := Liquidating.of_returns asks returns
  have checked := liquidationChecks_ok checks
  refine ⟨x, u, equity, checks, passes, checked.position, checked.live, checked.listed, fun small => ?_⟩
  have whole_iff : (x.payout equity).credit + (x.payout equity).bounty = 2 * x.p.collateralPerSide ∧
      (x.payout equity).bounty ≤ x.p.collateralPerSide ↔ BountyFits x.p.collateralPerSide x.inst.liquidationBountyBps :=
    Liquidating.payout_whole_iff small
  rw [← whole_iff]
  constructor
  · intro conserves
    exact ⟨conserves.whole, conserves.fromLoser⟩
  · rintro ⟨whole, fromLoser⟩
    exact ⟨Liquidating.pays_of_returns asks checks passes returns, rfl, whole, fromLoser⟩

/-- The liquidation of the sample's position pays out what it takes. -/
theorem liquidation_conserves_iff_traded : ∃ p keeper o, p.collateralPerSide = 1000 ∧
    Conserves Runtime.sample p keeper o Sample.traded (execute Runtime.sample Sample.early Sample.traded) := by
  have returns : Sample.early.returns Sample.traded = true := by decide +kernel
  obtain ⟨x, u, equity, checks, -, -, -, -, conserves⟩ := liquidation_conserves_iff (rfl : Sample.early.instruction = _) returns
  obtain ⟨collateral, bps, -⟩ := Liquidating.stakes_eq_some (by decide +kernel :
    Liquidating.stakes ((liquidationChecks Runtime.sample Sample.early.inv 0).run Sample.traded) = some (1000, 100, 10)) checks
  rw [collateral, bps] at conserves
  exact ⟨x.p, x.keeper, x.payout equity, collateral, (conserves (by decide)).mpr (by decide)⟩

namespace Sample

/-- A market whose bounty is more than six times the collateral of one side. -/
def generous : CreateInstrumentArgs := market 0 1000 65535

def generously : Ledger := runCalls Runtime.sample (launch 0 ++ trade generous) genesis

/-- Carol liquidates that market's position. -/
def reap : Call Runtime.sample := liquidate generous carol alice bob 3 1 0

end Sample

/-- The keeper gets more than three times the collateral that the position held. -/
theorem liquidation_creates_value : Reachable Runtime.sample (fun _ => True) Sample.generously ∧
    Sample.reap.returns Sample.generously = true ∧ ∃ x u equity,
      (liquidationChecks Runtime.sample Sample.reap.inv 0).run Sample.generously = .ok x u ∧ x.test = .ok equity ∧
        x.p.collateralPerSide = 1000 ∧ (x.payout equity).bounty = 6553 ∧
        ¬ Conserves Runtime.sample x.p x.keeper (x.payout equity) Sample.generously
          (execute Runtime.sample Sample.reap Sample.generously) := by
  have returns : Sample.reap.returns Sample.generously = true := by decide +kernel
  obtain ⟨x, u, equity, checks, passes⟩ := Liquidating.of_returns (rfl : Sample.reap.instruction = _) returns
  obtain ⟨collateral, -, bounty⟩ := Liquidating.stakes_eq_some (by decide +kernel :
    Liquidating.stakes ((liquidationChecks Runtime.sample Sample.reap.inv 0).run Sample.generously) = some (1000, 65535, 6553)) checks
  refine ⟨Sample.reachable fun _ _ => trivial, returns, x, u, equity, checks, passes, collateral, bounty equity, fun conserves => ?_⟩
  have within_one := conserves.fromLoser
  rw [bounty equity, collateral] at within_one
  omega

end Polyleverage
