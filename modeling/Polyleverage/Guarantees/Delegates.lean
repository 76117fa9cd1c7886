import Polyleverage.Guarantees.SeatCounters
import Polyleverage.Guarantees.Sessions
import Polyleverage.Invariants.TakerFee

/-! # What a delegate can cost

A session is charged what a delegated post reserves, so its cap bounds what the posts of its delegate take
from the owner's free collateral. The fee of a match that such a post finds comes on top, and no session is
charged for it.
-/

namespace Polyleverage

open Machine

variable {rt : Runtime} {inv : rt.Invocation} {s t : Ledger} {k owner : Pubkey}

/-! ### Losses -/

namespace Ledger

/-- The free collateral in the margin account at `k`. -/
def freeAt (s : Ledger) (k : Pubkey) : ℕ :=
  match s.data k with
  | .marginAccount m => m.freeCollateral
  | _ => 0

/-- What a post of this owner refunds of its expired intents. -/
def prunedFor (s : Ledger) (book owner : Pubkey) (nowSlot : ℕ) : ℕ :=
  match s.data book with
  | .intentBook b =>
    match (Book.pruneOwnExpired owner nowSlot).run b with
    | .ok refund _ => refund
    | _ => 0
  | _ => 0

/-- The fee for one contract with the accounts that a post has for its match. -/
def inlineFee (s : Ledger) (accounts : List Pubkey) (perSide nowSlot : ℕ) : ℕ :=
  match accounts with
  | _ :: _ :: _ :: feeSchedule :: takerVolume :: _ => s.takerFee feeSchedule takerVolume perSide nowSlot
  | _ => 0

theorem freeAt_eq {m : MarginAccount} (held : s.data k = .marginAccount m) : s.freeAt k = m.freeCollateral := by
  rw [freeAt, held]

end Ledger

theorem FreeGrows.freeAt_le (grows : FreeGrows s t) (k : Pubkey) : s.freeAt k ≤ t.freeAt k := by
  cases held : s.data k with
  | marginAccount m =>
    obtain ⟨m', held', le⟩ := grows k (s.owner k) m (by rw [← held]; rfl)
    rw [Ledger.freeAt_eq held, Ledger.freeAt_eq (congrArg Account.data held')]
    exact le
  | _ =>
    rw [Ledger.freeAt, held]
    exact Nat.zero_le _

/-- How much less free collateral the owner has after an accepted call of the delegate of its session. What
a post refunds of expired intents is not set off. -/
def delegatedLoss (rt : Runtime) (owner : Pubkey) (c : Call rt) (s : Ledger) : Option ℕ :=
  match c.instruction, c.inv.accounts with
  | .postIntentDelegated _, _ :: _ :: _ :: _ :: book :: margin :: session :: _ =>
    if session = rt.address (.session owner) ∧ c.returns s = true then
      some (s.freeAt margin + s.prunedFor book owner c.inv.slot - (execute rt c s).freeAt margin)
    else none
  | .cancelIntentDelegated _, _ :: _ :: _ :: _ :: margin :: session :: _ =>
    if session = rt.address (.session owner) ∧ c.returns s = true then
      some (s.freeAt margin - (execute rt c s).freeAt margin)
    else none
  | _, _ => none

/-- The losses since the last creation of the owner's session, one call later. -/
def lossesAfter (rt : Runtime) (owner : Pubkey) (c : Call rt) (s : Ledger) (losses : List ℕ) : List ℕ :=
  if renews rt owner c s then [] else losses ++ (delegatedLoss rt owner c s).toList

/-- The losses since the last creation of the owner's session, after some calls. -/
def delegatedLosses (rt : Runtime) (owner : Pubkey) : List (Call rt) → Ledger → List ℕ → List ℕ
  | [], _, losses => losses
  | c :: rest, s, losses => delegatedLosses rt owner rest (execute rt c s) (lossesAfter rt owner c s losses)

/-- The call posts for this owner, its post fills a pair, and the owner's fee for that is not zero. -/
def Call.PaysTakerFee (c : Call rt) (s : Ledger) (owner : Pubkey) : Prop :=
  ∃ args ctx inst p, c.instruction = .postIntentDelegated args ∧ (unpackPostIntentDelegated rt c.inv).run s = .ok ctx s ∧
    ctx.owner = owner ∧ FillsInline c.inv ctx args s p ∧ s.data ctx.instrument = .instrumentConfig inst ∧
    s.inlineFee (c.inv.accounts.drop ctx.inlineMatchOffset) inst.collateralBucket c.inv.slot ≠ 0

/-! ### One call -/

theorem consumes_of_matchInBook {b b' : IntentBook} {instrument pmlc : Pubkey} {bucket longId shortId nowSlot : ℕ}
    {r : MatchResult} (ran : (matchInBook rt instrument pmlc bucket longId shortId nowSlot).run b = .ok r b') :
    ∃ p, Book.Consumes b bucket longId shortId nowSlot p := by
  simp only [matchInBook, Exec.bind_ok, Exec.gets_ok, Exec.ofExcept_ok] at ran
  obtain ⟨p, _, ⟨found, rfl⟩, filled, _, ⟨consumed, rfl⟩, -⟩ := ran
  exact ⟨p, found, filled, consumed⟩

/-- A match that a post tries takes nothing from free collateral unless it fills a pair for a fee. -/
theorem freeGrows_inlineMatch {ctx : PostCtx} {args : PostIntentArgs} {id : ℕ} {u : Unit} (owned : s.owner ctx.book = rt.programId)
    (free : ∀ p inst, FillsFound inv ctx args s id p → s.data ctx.instrument = .instrumentConfig inst →
      s.inlineFee (inv.accounts.drop ctx.inlineMatchOffset) inst.collateralBucket inv.slot = 0)
    (ran : (inlineMatch rt inv ctx args id).run s = .ok u t) : FreeGrows s t := by
  unfold inlineMatch at ran
  split at ran
  next counterpartyMargin pmlc system sched takerVolume makerVolume treasury rest accounts =>
    have enough : 7 ≤ (inv.accounts.drop ctx.inlineMatchOffset).length := by
      rw [accounts]
      simp
    rw [Exec.bind_ok] at ran
    obtain ⟨counterparty, s1, looked, ran⟩ := ran
    obtain ⟨b, b', found, looked_up, rfl, -⟩ := atAccount_ok looked
    obtain rfl : b = b' := (keeps_findOverlapOnSide _ _ _ _).ok looked_up
    rw [AccountData.loadBook_ok] at found
    have looking : Touches [.intentBook] [.intentBook] s (s.setData ctx.book (.intentBook b)) := Within.keeps.ok looked
    have first := freeGrows_of_touches looking (by simp)
    have same : ∀ j, (s.setData ctx.book (.intentBook b)).get j = s.get j := by
      rw [← found]
      exact get_setData_data s ctx.book
    let inner := inlineMatchCtx ctx args counterpartyMargin pmlc sched takerVolume makerVolume treasury
    -- A pair that the match fills is one that the post found.
    have matches_free : ∀ {longId shortId v}, (∀ p, FillsPair rt s ctx.instrument ctx.book longId shortId inv.slot p →
        FillsFound inv ctx args s id p) → v ∈ ((matchPairCore rt inv inner longId shortId).run
          (s.setData ctx.book (.intentBook b))).state? → FreeGrows (s.setData ctx.book (.intentBook b)) v := by
      intro longId shortId v found_by left
      refine freeGrows_matchPairCore (fun inst c c' r held active at_book at_key ran => ?_) left
      obtain ⟨p, consumes⟩ := consumes_of_matchInBook ran
      rw [Ledger.data, same] at held at_key
      have fills : FillsPair rt s ctx.instrument ctx.book longId shortId inv.slot p :=
        ⟨inst, c, held, get_eq_of_data owned at_key, active, at_book, consumes⟩
      have none := free p inst (found_by p fills) held
      rw [accounts] at none
      rw [looking.takerFee (by simp) (by simp)]
      exact none
    cases counterparty with
    | none =>
      obtain ⟨-, rfl⟩ := Exec.pure_ok.mp ran
      exact first
    | some other =>
      simp only [Exec.bind_ok, Exec.pure_ok] at ran
      obtain ⟨caught, s2, swallowed, -, rfl⟩ := ran
      have left : s2 ∈ ((inlineMatchPair rt inv inner args id other).run (s.setData ctx.book (.intentBook b))).state? := by
        rcases Exec.swallow_ok.mp swallowed with ⟨-, matched⟩ | ⟨e, -, failed⟩
        · rw [matched]
          rfl
        · rw [failed]
          rfl
      unfold inlineMatchPair at left
      suffices rest : FreeGrows (s.setData ctx.book (.intentBook b)) s2 from Trans.trans first rest
      split at left
      next long =>
        exact matches_free (fun p fills => ⟨enough, b, other, found, looked_up, by rwa [if_pos long]⟩) left
      next short =>
        exact matches_free (fun p fills => ⟨enough, b, other, found, looked_up, by rwa [if_neg short]⟩) left
  · obtain ⟨-, rfl⟩ := Exec.pure_ok.mp ran
    exact Std.Refl.refl _

/-- A post takes its reserve from the free collateral, after the refund. -/
theorem free_of_reserveForPost {mint : Pubkey} {bump refund reserve : ℕ} {m m' : MarginAccount} {u : Unit}
    (ran : (reserveForPost owner mint bump refund reserve).run m = .ok u m') :
    m'.freeCollateral + reserve = m.freeCollateral + refund := by
  simp only [reserveForPost, Exec.bind_check] at ran
  obtain ⟨_, rfl, _, -, ran⟩ := ran
  rw [Exec.bind_ok] at ran
  obtain ⟨_, m1, refunded, reserved⟩ := ran
  obtain ⟨enough, -, rfl⟩ := (MarginAccount.move_ok (by decide)).mp reserved
  rcases Exec.when_ok.mp refunded with ⟨-, refunded⟩ | ⟨none, rfl⟩
  · obtain ⟨-, -, rfl⟩ := (MarginAccount.move_ok (by decide)).mp refunded
    simp only [MarginAccount.setBalance, MarginAccount.balance] at enough ⊢
    omega
  · simp only [MarginAccount.setBalance, MarginAccount.balance] at enough ⊢
    omega

theorem Touches.inlineFee {old new : List AccountKind} {accounts : List Pubkey} {perSide nowSlot : ℕ}
    (touches : Touches old new s t) (volumes : AccountKind.userVolume ∉ old ∧ AccountKind.userVolume ∉ new)
    (schedules : AccountKind.feeSchedule ∉ old ∧ AccountKind.feeSchedule ∉ new) :
    t.inlineFee accounts perSide nowSlot = s.inlineFee accounts perSide nowSlot := by
  unfold Ledger.inlineFee
  split
  · exact touches.takerFee volumes schedules
  · rfl

/-- A delegated post costs its owner what the session is charged, unless its match pays a fee. -/
theorem loss_of_post {args : PostIntentArgs} {c : Call rt} {feePayer delegate config instrument book margin : Pubkey}
    {rest : List Pubkey} (is_post : c.instruction = .postIntentDelegated args)
    (accounts : c.inv.accounts =
      feePayer :: delegate :: config :: instrument :: book :: margin :: rt.address (.session owner) :: rest)
    (returns : c.returns s = true) (unpaid : ¬ c.PaysTakerFee s owner) :
    ∃ inst b, s.data instrument = .instrumentConfig inst ∧ s.data book = .intentBook b ∧
      s.freeAt margin + s.prunedFor book owner c.inv.slot ≤ (execute rt c s).freeAt margin + args.reserve inst b := by
  have ran := Call.ran returns
  rw [is_post, process, processPostIntentDelegated, Exec.bind_ok] at ran
  obtain ⟨ctx, _, unpacked, ran⟩ := ran
  obtain ⟨rfl, -, feePayer', delegate', config', session, rest', x, accounts', -, -, held, alive⟩ :=
    unpackPostIntentDelegated_accounts unpacked
  rw [doPostIntentInner, Exec.bind_ok] at ran
  obtain ⟨id, mid, posted, matched⟩ := ran
  obtain ⟨posting⟩ := postIntent_ok posted
  obtain ⟨rfl, rfl, rfl, mine⟩ : instrument = ctx.instrument ∧ book = ctx.book ∧ margin = ctx.margin ∧
      rt.address (.session owner) = session := by
    rw [accounts] at accounts'
    simp only [List.cons.injEq] at accounts'
    tauto
  obtain rfl : ctx.owner = owner := by
    obtain ⟨-, -, -, address_eq, owner_eq⟩ := alive
    rw [← address_eq, ← owner_eq.symm] at mine
    simpa using (rt.address_injective _ _ mine).symm
  refine ⟨posting.inst, posting.b, posting.instrument_eq, posting.book_eq, ?_⟩
  have pruned : s.prunedFor ctx.book ctx.owner c.inv.slot = posting.refund := by
    rw [Ledger.prunedFor, posting.book_eq]
    simp only [posting.pruned]
  have before : s.freeAt ctx.margin = posting.m.freeCollateral := Ledger.freeAt_eq posting.margin_eq
  have between : mid.freeAt ctx.margin = posting.m1.freeCollateral :=
    Ledger.freeAt_eq (congrArg Account.data posting.margin_after)
  have balance := free_of_reserveForPost posting.reserved
  -- The match that may follow is free.
  have grows : FreeGrows mid (execute rt c s) := by
    rcases Exec.when_ok.mp matched with ⟨tries, matched⟩ | ⟨-, same⟩
    · have posts : Touches [.intentBook, .marginAccount, .session] [.intentBook, .marginAccount, .session] s mid :=
        (within_postIntent ctx args fun _ => by simp).keeps.ok posted
      refine freeGrows_inlineMatch (congrArg Account.owner posting.book_after) (fun p inst found at_instrument => ?_) matched
      by_contra paid
      have kept : s.data ctx.instrument = .instrumentConfig inst := by
        rw [← at_instrument]
        exact congrArg Account.data (posts.get_eq' (by simp [at_instrument])).symm
      rw [posts.inlineFee (by simp) (by simp)] at paid
      exact unpaid ⟨args, ctx, inst, p, is_post, unpacked, rfl, ⟨tries, id, mid, posted, found⟩, kept, paid⟩
    · rw [← same]
      exact Std.Refl.refl _
  have last := grows.freeAt_le ctx.margin
  omega

/-- A delegated cancel costs nothing. -/
theorem loss_of_cancel {intentId : UInt64} {c : Call rt} (is_cancel : c.instruction = .cancelIntentDelegated intentId)
    (returns : c.returns s = true) : s.freeAt k ≤ (execute rt c s).freeAt k := by
  have ran := Call.ran returns
  rw [is_cancel, process] at ran
  obtain ⟨feePayer', delegate', instrument', book', margin', session', rest', owner', x, accounts', -, -, -, -, ran⟩ :=
    processCancelIntentDelegated_ok ran
  simp only [cancelIntent, Exec.bind_check] at ran
  obtain ⟨inst, -, _, -, ran⟩ := ran
  rw [Exec.bind_ok] at ran
  obtain ⟨refund, mid, cancelled, refunded⟩ := ran
  have first : Touches [.intentBook] [.intentBook] s mid := Within.keeps.ok cancelled
  have grows : FreeGrows mid (execute rt c s) := by
    have keeps : Exec.Keeping MarginAccount.FreeGrows (refundMargin inst.collateralMint refund) := by
      unfold refundMargin MarginAccount.moveReservedToFree MarginAccount.move
      infer_instance
    exact Exec.Keeping.keeps.ok refunded
  exact (Trans.trans (freeGrows_of_touches first (by simp)) grows : FreeGrows s _).freeAt_le k

theorem loss_le_charge {c : Call rt} {loss : ℕ} (unpaid : c.returns s = true → ¬ c.PaysTakerFee s owner)
    (lost : delegatedLoss rt owner c s = some loss) : loss ≤ (chargedBy rt owner c s).getD 0 := by
  unfold delegatedLoss at lost
  split at lost
  next args _ _ _ instrument book margin session rest is_post accounts =>
    split at lost
    next accepted =>
      obtain ⟨rfl, returns⟩ := accepted
      cases lost
      obtain ⟨inst, b, at_instrument, at_book, le⟩ := loss_of_post is_post accounts returns (unpaid returns)
      have charged : chargedBy rt owner c s = some (args.reserve inst b) := by
        unfold chargedBy
        rw [is_post, accounts]
        simp [at_instrument, at_book, returns]
      rw [charged, Option.getD_some]
      omega
    · cases lost
  next _ _ _ _ _ margin _ _ is_cancel _ =>
    split at lost
    next accepted =>
      cases lost
      have none : s.freeAt margin ≤ (execute rt c s).freeAt margin := loss_of_cancel is_cancel accepted.2
      omega
    · cases lost
  · cases lost

/-! ### Runs -/

theorem sum_lossesAfter_le {c : Call rt} {losses posts : List ℕ} (unpaid : c.returns s = true → ¬ c.PaysTakerFee s owner)
    (le : losses.sum ≤ posts.sum) : (lossesAfter rt owner c s losses).sum ≤ (postsAfter rt owner c s posts).sum := by
  unfold lossesAfter postsAfter
  split
  · exact Nat.le_refl _
  · rw [List.sum_append, List.sum_append]
    apply Nat.add_le_add le
    cases lost : delegatedLoss rt owner c s with
    | none => exact Nat.zero_le _
    | some loss =>
      have bounded := loss_le_charge unpaid lost
      cases charged : chargedBy rt owner c s with
      | none =>
        rw [charged] at bounded
        simpa using bounded
      | some amount =>
        rw [charged] at bounded
        simpa using bounded

/-- No accepted call of a run pays a fee for a match of a delegated post of this owner. -/
def NeverPaysTakerFee (rt : Runtime) (owner : Pubkey) : List (Call rt) → Ledger → Prop
  | [], _ => True
  | c :: rest, s => (c.returns s = true → ¬ c.PaysTakerFee s owner) ∧ NeverPaysTakerFee rt owner rest (execute rt c s)

/-- The call is a delegated post that tries a match. -/
def Instruction.triesForOwner : Instruction → Bool
  | postIntentDelegated args => args.tryMatch ≠ 0
  | _ => false

/-- A run in which no delegated post tries a match pays no fee. -/
theorem neverPaysTakerFee_of_untried {calls : List (Call rt)} (untried : ∀ c ∈ calls, c.instruction.triesForOwner = false) :
    NeverPaysTakerFee rt owner calls s := by
  induction calls generalizing s with
  | nil => trivial
  | cons c rest ih =>
    refine ⟨?_, ih fun c' member => untried c' (List.mem_cons_of_mem c member)⟩
    rintro - ⟨args, ctx, inst, p, is_post, -, -, ⟨tries, -⟩, -⟩
    have still := untried c List.mem_cons_self
    rw [is_post] at still
    exact of_decide_eq_false still tries

theorem sum_delegatedLosses_le {calls : List (Call rt)} {losses posts : List ℕ} (unpaid : NeverPaysTakerFee rt owner calls s)
    (le : losses.sum ≤ posts.sum) :
    (delegatedLosses rt owner calls s losses).sum ≤ (delegatedPosts rt owner calls s posts).sum := by
  induction calls generalizing s losses posts with
  | nil => exact le
  | cons c rest ih => exact ih unpaid.2 (sum_lossesAfter_le unpaid.1 le)

/-- The cap of a session. -/
def AccountData.sessionCap : AccountData → Option ℕ
  | .session x => some x.cumulativeCollateralCap
  | _ => none

theorem AccountData.sessionCap_eq_some {d : AccountData} {cap : ℕ} :
    d.sessionCap = some cap ↔ ∃ x, d = .session x ∧ x.cumulativeCollateralCap = cap := by
  cases d <;> simp [sessionCap]

/-- The cap of Bob's session for Alice. -/
example : ((runCalls Runtime.sample Sample.delegating Sample.genesis).data
    (Runtime.sample.address (.session Sample.alice))).sessionCap = some 8000 := by decide +kernel

namespace Sample

/-- Alice lets Bob post for her, up to the collateral of one contract. -/
def openCapped : Call Runtime.sample :=
  call (.createSession ⟨bob, 50, 1000, 1000, []⟩) [alice]
    [alice, config, Runtime.sample.address (.session alice), systemProgram]

/-- Bob posts a long intent of one contract for Alice, and has it matched against his own short one. -/
def postTaking : Call Runtime.sample :=
  call (.postIntentDelegated ⟨0, 500000000000000000, 1, 100, 0, 1⟩) [bob, carol]
    [carol, bob, config, instrument poly, book poly, marginOf alice, Runtime.sample.address (.session alice), marginOf bob,
      pmlc poly 3, systemProgram, feeSchedule, volumeOf alice, volumeOf bob, treasury]

/-- The fee is one hundredth of the collateral. -/
def taking : List (Call Runtime.sample) :=
  launch 100 ++ [openMarket poly, openCapped, post poly bob 1 1, postTaking]

end Sample

/-- In a run in which no delegated post pays a fee for its match, all that the calls of the delegate took from the
owner's free collateral, since the session was created, stays within the session's cap. -/
theorem delegated_losses_within_cap {start : Ledger} (gen : Genesis rt start) (calls : List (Call rt)) (owner : Pubkey)
    (unpaid : NeverPaysTakerFee rt owner calls start) {x : Session}
    (held : (runCalls rt calls start).get (rt.address (.session owner)) = ⟨rt.programId, .session x⟩) :
    (delegatedLosses rt owner calls start []).sum ≤ x.cumulativeCollateralCap := by
  have accounted : Accounted rt owner (delegatedPosts rt owner calls start []) (runCalls rt calls start) := by
    apply accounted_runCalls
    intro y none
    rw [gen.vacant] at none
    cases congrArg Account.data none
  obtain ⟨-, -, -, within_cap⟩ := accounted x held
  exact (sum_delegatedLosses_le unpaid (Nat.le_refl _)).trans within_cap

/-- Bob posts for Alice twice, and has nothing matched. -/
theorem delegated_losses_within_cap_delegating : ∃ x, (runCalls Runtime.sample Sample.delegating Sample.genesis).get
      (Runtime.sample.address (.session Sample.alice)) = ⟨Runtime.sample.programId, .session x⟩ ∧
    (delegatedLosses Runtime.sample Sample.alice Sample.delegating Sample.genesis []).sum ≤ x.cumulativeCollateralCap := by
  have owned : (runCalls Runtime.sample Sample.delegating Sample.genesis).owner
      (Runtime.sample.address (.session Sample.alice)) = Runtime.sample.programId := by decide +kernel
  obtain ⟨x, held, -⟩ := AccountData.sessionCap_eq_some.mp (by decide +kernel :
    ((runCalls Runtime.sample Sample.delegating Sample.genesis).data (Runtime.sample.address (.session Sample.alice))).sessionCap =
      some 8000)
  have at_session := get_eq_of_data owned held
  have unpaid : NeverPaysTakerFee Runtime.sample Sample.alice Sample.delegating Sample.genesis :=
    neverPaysTakerFee_of_untried (by decide +kernel)
  exact ⟨x, at_session, delegated_losses_within_cap Sample.genesis_genesis Sample.delegating Sample.alice unpaid at_session⟩

/-- Bob's post cost Alice the fee as well, more than her session allows. -/
theorem delegated_losses_exceed_cap : ∃ x, (runCalls Runtime.sample Sample.taking Sample.genesis).get
      (Runtime.sample.address (.session Sample.alice)) = ⟨Runtime.sample.programId, .session x⟩ ∧
    x.cumulativeCollateralCap = 1000 ∧ delegatedLosses Runtime.sample Sample.alice Sample.taking Sample.genesis [] = [1010] := by
  have owned : (runCalls Runtime.sample Sample.taking Sample.genesis).owner
      (Runtime.sample.address (.session Sample.alice)) = Runtime.sample.programId := by decide +kernel
  obtain ⟨x, held, cap⟩ := AccountData.sessionCap_eq_some.mp (by decide +kernel :
    ((runCalls Runtime.sample Sample.taking Sample.genesis).data (Runtime.sample.address (.session Sample.alice))).sessionCap =
      some 1000)
  exact ⟨x, get_eq_of_data owned held, cap, by decide +kernel⟩

end Polyleverage
