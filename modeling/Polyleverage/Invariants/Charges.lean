import Polyleverage.Invariants.Matches
import Polyleverage.Invariants.TakerFee

/-! # What a trader is charged

A match charges the taker a fee for its contract. A substitution that settles charges the trader that enters the
position what the position has gained. Nothing else is taken from a trader that does not sign.
-/

namespace Polyleverage

variable {rt : Runtime} {inv : rt.Invocation} {s v : Ledger} {trader : Pubkey} {bucket : ℕ}

/-- The match of this pair has the trader take, for this fee. -/
def Takes (inv : rt.Invocation) (ctx : MatchCtx) (longId shortId : ℕ) (v : Ledger) (trader : Pubkey) (bucket fee : ℕ) :
    Prop :=
  ∃ inst b b' r, v.data ctx.instrument = .instrumentConfig inst ∧ inst.intentBook = ctx.book ∧
    inst.collateralBucket = bucket ∧ v.data ctx.book = .intentBook b ∧
    (matchInBook rt ctx.instrument ctx.pmlc bucket longId shortId inv.slot).run b = .ok r b' ∧ r.taker = trader ∧
    fee = v.takerFee ctx.feeSchedule ctx.takerVolume bucket inv.slot

/-- The substitution has the trader enter the position, for this premium. -/
def Enters (inv : rt.Invocation) (args : MatchPairArgs) (withSettle : Bool) (s : Ledger) (trader : Pubkey) (bucket : ℕ)
    (premium : ℤ) : Prop :=
  ∃ substitutor instrument book pmlc rest inst p b b' x, inv.accounts = substitutor :: instrument :: book :: pmlc :: rest ∧
    s.get instrument = ⟨rt.programId, .instrumentConfig inst⟩ ∧ inst.intentBook = book ∧ inst.collateralBucket = bucket ∧
    s.get pmlc = ⟨rt.programId, .pmlc p⟩ ∧ s.get book = ⟨rt.programId, .intentBook b⟩ ∧
    (substituteInBook substitutor p bucket args.longIntentId.toNat args.shortIntentId.toNat inv.slot).run b = .ok x b' ∧
    x.newPmlcOwner = trader ∧ substitutionDelta withSettle p bucket x = .ok premium

/-- The call charges the trader this much for a contract of this collateral. -/
inductive Call.Charges (c : Call rt) (s : Ledger) (trader : Pubkey) (bucket : ℕ) : ℕ → Prop
  | fee {ctx longId shortId v fee} (matching : c.Matches s ctx longId shortId v)
      (takes : Takes c.inv ctx longId shortId v trader bucket fee) : Charges c s trader bucket fee
  | premium {args premium} (settles : c.instruction = .matchSubstituteWithSettle args)
      (enters : Enters c.inv args true s trader bucket premium) : Charges c s trader bucket premium.toNat

end Polyleverage
