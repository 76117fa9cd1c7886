import Polyleverage.Exec.Avoiding
import Polyleverage.Invariants.Buffers
import Polyleverage.Invariants.TakerFee
import Polyleverage.Sample

/-! # What a fee buffer pays for

An intent sets aside a fee buffer when it is posted, and a fill hands a share of it back before it takes the
fee. But the rate that the book multiplies with is zero, so the buffers are empty, and the fee of a taker
comes out of its other free collateral.
-/

namespace Polyleverage

open Machine

variable {rt : Runtime} {inv : rt.Invocation} {s t v : Ledger} {ctx : MatchCtx} {longId shortId : ℕ}

/-! ### Matches that charge -/

/-- A match that has filled the pair in the book and has charged the fee. -/
structure MatchCharge (rt : Runtime) (inv : rt.Invocation) (v : Ledger) (ctx : MatchCtx) (longId shortId : ℕ) where
  inst : InstrumentConfig
  r : MatchResult
  filled : Ledger
  fee : ℕ
  after : Ledger
  instrument_eq : v.data ctx.instrument = .instrumentConfig inst
  active : inst.requireActive = .ok ()
  book_of : inst.intentBook = ctx.book
  matched : (atBook rt inv ctx.book (matchInBook rt ctx.instrument ctx.pmlc inst.collateralBucket longId shortId
    inv.slot)).run v = .ok r filled
  long_margin : (validateMargin rt r.longTrader inst.collateralMint ctx.longMargin).run filled = .ok () filled
  short_margin : (validateMargin rt r.shortTrader inst.collateralMint ctx.shortMargin).run filled = .ok () filled
  charged : (chargeTaker rt inv ctx r inst.collateralMint inst.collateralBucket).run filled = .ok fee after

namespace MatchCharge

/-- What the fill hands back of the taker's fee buffer. -/
def release (x : MatchCharge rt inv v ctx longId shortId) : ℕ :=
  if x.r.takerIsLong then x.r.feeBufReleaseLong else x.r.feeBufReleaseShort

/-- The fee is at most what the fill hands back, and the match is not rejected for lack of free collateral. -/
structure Covered (x : MatchCharge rt inv v ctx longId shortId) : Prop where
  buffered : x.fee ≤ x.release
  accepted : ∀ t, (matchPairCore rt inv ctx longId shortId).run v ≠ .err PolyleverageError.insufficientFreeCollateral t

/-- The match goes on with the margin accounts. -/
theorem run_eq (x : MatchCharge rt inv v ctx longId shortId) : (matchPairCore rt inv ctx longId shortId).run v =
    (do
      atMargin rt inv ctx.longMargin
        (lockSide x.inst.collateralBucket x.r.feeBufReleaseLong (if x.r.takerIsLong then x.fee else 0))
      atMargin rt inv ctx.shortMargin
        (lockSide x.inst.collateralBucket x.r.feeBufReleaseShort (if x.r.takerIsLong then 0 else x.fee))
      openPmlc rt inv ctx x.r x.inst : LedgerM Unit).run x.after := by
  have found : (load AccountData.loadInstrument ctx.instrument).run v = .ok x.inst v :=
    Exec.gets_ok.mpr ⟨AccountData.loadInstrument_ok.mpr x.instrument_eq, rfl⟩
  have active : (Exec.ofExcept x.inst.requireActive : LedgerM Unit).run v = .ok () v := Exec.ofExcept_ok.mpr ⟨x.active, rfl⟩
  have book_of : (Exec.rejectIf (x.inst.intentBook ≠ ctx.book) PolyleverageError.invalidPda : LedgerM Unit).run v = .ok () v :=
    Exec.rejectIf_ok.mpr ⟨not_not.mpr x.book_of, rfl⟩
  rw [matchPairCore, Exec.run_bind_of_ok found, Exec.run_bind_of_ok active, Exec.run_bind_of_ok book_of,
    Exec.run_bind_of_ok x.matched, Exec.run_bind_of_ok x.long_margin, Exec.run_bind_of_ok x.short_margin,
    Exec.run_bind_of_ok x.charged]

end MatchCharge

/-! ### Free collateral that is not debited -/

/-- The error of free collateral that is too small. -/
@[reducible] def ProgramError.isFree : ProgramError → Bool
  | .custom .insufficientFreeCollateral => true
  | _ => false

section Avoiding

instance (d : AccountData) : Exec.Sparing ProgramError.isFree d.loadMargin where
  spares e failed := by
    unfold AccountData.loadMargin AccountData.loadAs at failed
    split at failed
    · cases failed
    · cases failed
      split <;> rfl

instance {α : Type} (value : Option α) : Exec.Sparing ProgramError.isFree (orOverflow value) := by
  unfold orOverflow
  split <;> infer_instance

instance (bucket : Bucket) (amount : ℕ) : Exec.Avoiding ProgramError.isFree (MarginAccount.credit bucket amount) := by
  unfold MarginAccount.credit
  infer_instance

instance (amount : ℕ) : Exec.Avoiding ProgramError.isFree (MarginAccount.debit .reserved amount) := by
  have other : Exec.IsFalse (ProgramError.isFree Bucket.reserved.insufficient) := ⟨rfl⟩
  unfold MarginAccount.debit
  infer_instance

/-- Without a fee nothing is taken from free collateral. -/
instance (perSide release : ℕ) : Exec.Avoiding ProgramError.isFree (lockSide perSide release 0) := by
  have unpaid : Exec.when (0 < 0) (MarginAccount.debitFree 0) = (pure () : MarginM Unit) := rfl
  rw [lockSide, unpaid]
  unfold MarginAccount.moveReservedToLocked MarginAccount.moveReservedToFree MarginAccount.move
  infer_instance

instance (k : Pubkey) (movement : MarginM Unit) [avoids : Exec.Avoiding ProgramError.isFree movement] :
    Exec.Avoiding ProgramError.isFree (atMargin rt inv k movement) where
  avoids s e t failed := by
    rcases atAccount_err failed with ⟨-, misread⟩ | ⟨x, y, -, inner, -⟩
    · exact (inferInstance : Exec.Sparing ProgramError.isFree (AccountData.loadMargin _)).spares _ misread
    · exact avoids.avoids _ _ _ inner

instance (payer k owner : Pubkey) (space : ℕ) : Exec.Avoiding ProgramError.isFree (createAccount rt inv payer k space owner) :=
  ⟨fun _ _ _ failed => absurd failed createAccount_ne_err⟩

instance (k : Pubkey) (d : AccountData) : Exec.Avoiding ProgramError.isFree (writeData rt inv k d) :=
  ⟨fun _ _ _ failed => absurd failed writeData_ne_err⟩

instance (collateral leverage : ℕ) : Exec.Sparing ProgramError.isFree (notionalAtoms collateral leverage) := by
  unfold notionalAtoms
  infer_instance

instance (notional entryFp : ℕ) : Exec.Sparing ProgramError.isFree (positionSizeFp notional entryFp) := by
  unfold positionSizeFp
  infer_instance

instance (r : MatchResult) (inst : InstrumentConfig) : Exec.Avoiding ProgramError.isFree (openPmlc rt inv ctx r inst) := by
  unfold openPmlc
  infer_instance

end Avoiding

/-! ### Matches without buffers -/

/-- The match charges by the rates that were there before the call. -/
theorem Leads.takerBps (leads : Leads rt s v ctx) {slot : ℕ} :
    v.takerBps ctx.feeSchedule ctx.takerVolume slot = s.takerBps ctx.feeSchedule ctx.takerVolume slot :=
  leads.touches.takerBps (by simp) (by simp)

namespace MatchCharge

theorem fee_eq (x : MatchCharge rt inv v ctx longId shortId) :
    x.fee = v.takerFee ctx.feeSchedule ctx.takerVolume x.inst.collateralBucket inv.slot := by
  have touches : Touches [.intentBook] [.intentBook] v x.filled := Within.keeps.ok x.matched
  rw [chargeTaker_fee x.charged, touches.takerFee (by simp) (by simp)]

theorem release_eq_zero (x : MatchCharge rt inv v ctx longId shortId) (all : AllUnbuffered rt v)
    (owned : v.owner ctx.book = rt.programId) : x.release = 0 := by
  obtain ⟨b, b', held, inner, -⟩ := atBook_ok x.matched
  obtain ⟨long, short⟩ := (all _ b (get_eq_of_data owned held)).releases inner
  rw [release, long, short, ite_self]

/-- Without buffers a fee is covered when there is none. -/
theorem covered_iff (x : MatchCharge rt inv v ctx longId shortId) (all : AllUnbuffered rt v)
    (owned : v.owner ctx.book = rt.programId) : x.Covered ↔ x.fee = 0 := by
  constructor
  · rintro ⟨buffered, -⟩
    rw [x.release_eq_zero all owned] at buffered
    exact Nat.le_zero.mp buffered
  · intro none
    refine ⟨none ▸ Nat.zero_le _, fun t failed => ?_⟩
    rw [x.run_eq, none, ite_self] at failed
    have spared : ProgramError.isFree PolyleverageError.insufficientFreeCollateral = false := Exec.Avoiding.avoids _ _ _ failed
    cases spared

/-- A match that returns has charged its fee. -/
theorem nonempty_of_ok {u : Unit} (ran : (matchPairCore rt inv ctx longId shortId).run v = .ok u t) :
    Nonempty (MatchCharge rt inv v ctx longId shortId) := by
  rw [matchPairCore] at ran
  simp only [Exec.bind_check, not_not] at ran
  obtain ⟨inst, instrument_eq, _, active, _, book_of, ran⟩ := ran
  simp only [Exec.bind_ok] at ran
  obtain ⟨r, filled, matched, ran⟩ := ran
  obtain ⟨_, mid, long, _, mid', short, fee, after, charged, -⟩ := ran
  obtain ⟨-, rfl⟩ := Exec.Checks.run_eq_ok.mp long
  obtain ⟨-, rfl⟩ := Exec.Checks.run_eq_ok.mp short
  exact ⟨⟨inst, r, filled, fee, after, instrument_eq, active, book_of, matched, long, short, charged⟩⟩

end MatchCharge

namespace Sample

/-- The accounts of Carol's match of Alice's intent and Bob's. -/
def fillCtx : MatchCtx where
  payer := carol
  instrument := instrument poly
  book := book poly
  longMargin := marginOf alice
  shortMargin := marginOf bob
  pmlc := pmlc poly 3
  feeSchedule := feeSchedule
  takerVolume := volumeOf bob
  makerVolume := volumeOf alice
  feeTreasury := treasury

/-- The fill is a match, and gets as far as its fee. -/
theorem fill_matches {feeBps contracts : UInt16}
    (unpacked : ((unpackMatchAccounts Runtime.sample (fill poly alice bob 1 2 3).inv).run (posted feeBps contracts)).value? =
      some fillCtx)
    (returns : (fill poly alice bob 1 2 3).returns (posted feeBps contracts) = true) :
    (fill poly alice bob 1 2 3).Matches (posted feeBps contracts) fillCtx 1 2 (posted feeBps contracts) ∧
      Nonempty (MatchCharge Runtime.sample (fill poly alice bob 1 2 3).inv (posted feeBps contracts) fillCtx 1 2) := by
  obtain ⟨_, unpacked⟩ := Outcome.value?_eq_some.mp unpacked
  obtain ⟨rfl, -, -⟩ := unpackMatchAccounts_ok unpacked
  refine ⟨⟨unpacked, rfl, rfl⟩, ?_⟩
  have ran : (processMatchPair Runtime.sample (fill poly alice bob 1 2 3).inv ⟨1, 2, 1⟩).run _ = _ := Call.ran returns
  rw [processMatchPair, Exec.run_bind_of_ok unpacked] at ran
  exact MatchCharge.nonempty_of_ok ran

end Sample

/-- In every run the fee of a match is covered exactly when it is less than one atom, that is, when the
collateral of one contract times the taker's rate stays below the whole. -/
theorem fee_covered_iff (reached : Reachable rt (fun _ => True) s) (c : Call rt) (matching : c.Matches s ctx longId shortId v)
    (x : MatchCharge rt c.inv v ctx longId shortId) :
    x.Covered ↔ x.inst.collateralBucket * s.takerBps ctx.feeSchedule ctx.takerVolume c.inv.slot % (BPS_DENOM * 2 ^ 64) <
      BPS_DENOM := by
  have leads := matching.leads (genuine_of_reachable reached)
  rw [x.covered_iff (leads.allUnbuffered reached) leads.book, x.fee_eq, takerFee_eq_zero_iff, leads.takerBps]

/-- Without a fee the match of Alice's intent and Bob's is covered. -/
theorem fee_covered_iff_free :
    ∃ x : MatchCharge Runtime.sample (Sample.fill Sample.poly Sample.alice Sample.bob 1 2 3).inv (Sample.posted 0 1)
      Sample.fillCtx 1 2, x.Covered := by
  have reached : Reachable Runtime.sample (fun _ => True) (Sample.posted 0 1) := Sample.reachable fun _ _ => trivial
  obtain ⟨matching, ⟨x⟩⟩ := Sample.fill_matches (by decide +kernel : Outcome.value? (Exec.run _ (Sample.posted 0 1)) = _) (by decide +kernel)
  refine ⟨x, (fee_covered_iff reached _ matching x).mpr ?_⟩
  have rate : (Sample.posted 0 1).takerBps Sample.feeSchedule (Sample.volumeOf Sample.bob) 1 = 0 := by decide +kernel
  change x.inst.collateralBucket * (Sample.posted 0 1).takerBps Sample.feeSchedule (Sample.volumeOf Sample.bob) 1 % _ < _
  rw [rate, Nat.mul_zero]
  decide

/-- With a fee of one hundredth, Bob pays ten atoms and gets nothing back. When he has posted all he has, he
cannot pay them, and the match is rejected. -/
theorem fee_uncovered :
    (∃ x : MatchCharge Runtime.sample (Sample.fill Sample.poly Sample.alice Sample.bob 1 2 3).inv (Sample.posted 100 1)
      Sample.fillCtx 1 2, Reachable Runtime.sample (fun _ => True) (Sample.posted 100 1) ∧
        (Sample.fill Sample.poly Sample.alice Sample.bob 1 2 3).Matches (Sample.posted 100 1) Sample.fillCtx 1 2
          (Sample.posted 100 1) ∧ x.fee = 10 ∧ x.release = 0 ∧ ¬ x.Covered) ∧
      ∃ t, (process Runtime.sample (Sample.fill Sample.poly Sample.alice Sample.bob 1 2 3).inv (.matchPair ⟨1, 2, 1⟩)).run
        (Sample.posted 100 100) = .err PolyleverageError.insufficientFreeCollateral t := by
  constructor
  · have reached : Reachable Runtime.sample (fun _ => True) (Sample.posted 100 1) := Sample.reachable fun _ _ => trivial
    obtain ⟨matching, ⟨x⟩⟩ := Sample.fill_matches (by decide +kernel : Outcome.value? (Exec.run _ (Sample.posted 100 1)) = _) (by decide +kernel)
    have leads := matching.leads (genuine_of_reachable reached)
    have all := leads.allUnbuffered reached
    have bucket : x.inst.collateralBucket = 1000 := by
      have known : (((Sample.posted 100 1).data Sample.fillCtx.instrument).loadInstrument.toOption.map
        InstrumentConfig.collateralBucket) = some 1000 := by decide +kernel
      rw [AccountData.loadInstrument_ok.mpr x.instrument_eq] at known
      exact Option.some.inj known
    have fee : x.fee = 10 := by
      rw [x.fee_eq, bucket]
      decide +kernel
    refine ⟨x, reached, matching, fee, x.release_eq_zero all leads.book, fun covered => ?_⟩
    rw [x.covered_iff all leads.book, fee] at covered
    cases covered
  · exact Outcome.error?_eq_some.mp (by decide +kernel)

end Polyleverage
