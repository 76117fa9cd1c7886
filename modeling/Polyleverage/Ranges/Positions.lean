import Polyleverage.Ranges.Trading

/-! # The ranges of intents and positions

A post writes what its arguments say and what was computed for it with overflow checks. A settlement writes
fields of an attestation, which are bytes, and the clock.
-/

namespace Polyleverage

open Machine Exec

variable {rt : Runtime} {inv : rt.Invocation} {k : Pubkey}

/-! ### Posts -/

theorem feeBufferFor_lt {contracts bucket maxFeeBps buffer : ℕ}
    (buffered : feeBufferFor contracts bucket maxFeeBps = .ok buffer) :
    buffer < 2 ^ 64 := by
  rw [feeBufferFor, orOverflow_ok] at buffered
  simp only [bind, Option.bind_eq_some_iff] at buffered
  obtain ⟨_, -, _, -, buffered⟩ := buffered
  split at buffered
  next small =>
    cases buffered
    exact small
  · cases buffered

theorem PostIntentArgs.inRange_draft (args : PostIntentArgs) {reserve buffer : ℕ} (reserved : reserve < 2 ^ 64)
    (buffered : buffer < 2 ^ 64) : (args.draft reserve buffer).InRange where
  side := args.side.toNat_lt
  flags := by
    show (if args.reentryEnabled ≠ 0 then INTENT_FLAG_REENTRY else 0) < 2 ^ 8
    split <;> decide
  priceFp := args.priceFp.toNat_lt
  contracts := args.contracts.toNat_lt
  expirationSlot := args.expirationSlot.toNat_lt
  reservedCollateral := reserved
  feeBuffer := buffered

/-- A post is for an owner and an instrument with a key of 32 bytes. -/
structure PostCtx.InRange (ctx : PostCtx) : Prop where
  owner : ctx.owner.IsBytes
  instrument : ctx.instrument.IsBytes

theorem keeping_postIntent {ctx : PostCtx} (args : PostIntentArgs) (fits : ctx.InRange) :
    Keeping (Stays Ledger.InRange) (postIntent rt inv ctx args) := by
  unfold postIntent
  iterate 13 refine Exec.keeping_bind inferInstance fun _ => ?_
  refine keeping_after_check fun _ reserve _ reserved => Exec.keeping_bind inferInstance fun b => ?_
  refine keeping_after_check fun _ buffer _ buffered => keeping_after_check fun _ total _ _ => ?_
  obtain ⟨small, rfl⟩ := checkedMul_eq_some.mp (orOverflow_ok.mp reserved)
  have draft := args.inRange_draft small (feeBufferFor_lt buffered)
  have posted : Keeping (Stays Ledger.InRange) (atBook rt inv ctx.book (Book.post ctx.owner (args.draft _ buffer))) :=
    (upholds_atBook (upholds_post fits.owner draft)).keeping
  split <;> infer_instance

section Posts

variable (bumps : rt.BumpsFit) (fits : inv.InRange)

include bumps in
theorem keeping_inlineMatch {ctx : PostCtx} {args : PostIntentArgs} {id : ℕ} (key : ctx.instrument.IsBytes) :
    Keeping (Stays Ledger.InRange) (inlineMatch rt inv ctx args id) := by
  unfold inlineMatch
  split
  next margin pmlc _ schedule takerVolume makerVolume treasury _ _ =>
    have (counterparty : ℕ) : Keeping (Stays Ledger.InRange)
        (inlineMatchPair rt inv (inlineMatchCtx ctx args margin pmlc schedule takerVolume makerVolume treasury) args id
          counterparty) := by
      unfold inlineMatchPair
      split
      · exact keeping_matchPairCore bumps key
      · exact keeping_matchPairCore bumps key
    refine Exec.keeping_bind inferInstance fun counterparty => ?_
    split <;> infer_instance
  · infer_instance

include bumps in
theorem keeping_doPostIntentInner {ctx : PostCtx} {args : PostIntentArgs} (fits : ctx.InRange) :
    Keeping (Stays Ledger.InRange) (doPostIntentInner rt inv ctx args) := by
  have (id : ℕ) : Keeping (Stays Ledger.InRange) (inlineMatch rt inv ctx args id) :=
    keeping_inlineMatch bumps fits.instrument
  exact Exec.keeping_bind (keeping_postIntent args fits) inferInstance

/-- The owner of a session was stored in it. -/
theorem upholds_sessionOwner {delegate instrument : Pubkey} :
    Upholds Ledger.InRange Pubkey.IsBytes (sessionOwner rt inv k delegate instrument) := by
  refine upholds_bind upholds_load fun x (stored : x.InRange) => ?_
  iterate 4 refine upholds_bind (upholds_of_keeping _) fun _ _ => ?_
  exact upholds_pure stored.owner

include bumps fits in
theorem keeping_processPostIntent {args : PostIntentArgs} :
    Keeping (Stays Ledger.InRange) (processPostIntent rt inv args) := by
  have unpacked : Upholds Ledger.InRange PostCtx.InRange (unpackPostIntent rt inv) := by
    unfold unpackPostIntent
    split
    next owner config instrument book margin rest accounts =>
      have keys := fits.keys accounts
      refine upholds_bind (upholds_of_keeping _) fun _ _ => upholds_pure ?_
      exact ⟨keys owner (by simp), keys instrument (by simp)⟩
    · exact upholds_throw _
  exact keeping_after unpacked fun ctx => keeping_doPostIntentInner bumps

include bumps fits in
theorem keeping_processPostIntentDelegated {args : PostIntentArgs} :
    Keeping (Stays Ledger.InRange) (processPostIntentDelegated rt inv args) := by
  have unpacked : Upholds Ledger.InRange PostCtx.InRange (unpackPostIntentDelegated rt inv) := by
    unfold unpackPostIntentDelegated
    split
    next feePayer delegate config instrument book margin session rest accounts =>
      have keys := fits.keys accounts
      iterate 5 refine upholds_bind (upholds_of_keeping _) fun _ _ => ?_
      refine upholds_bind upholds_sessionOwner fun owner stored => upholds_pure ?_
      exact ⟨stored, keys instrument (by simp)⟩
    · exact upholds_throw _
  exact keeping_after unpacked fun ctx => keeping_doPostIntentInner bumps

end Posts

/-! ### Cancels and prunes -/

instance (instrument book margin : Pubkey) (id : ℕ) (authorize : Pubkey → IntentNode → Except ProgramError Unit) :
    Keeping (Stays Ledger.InRange) (cancelIntent rt inv instrument book margin id authorize) := by
  unfold cancelIntent
  infer_instance

instance (id : UInt64) : Keeping (Stays Ledger.InRange) (processCancelIntent rt inv id) := by
  unfold processCancelIntent
  split <;> infer_instance

instance (id : UInt64) : Keeping (Stays Ledger.InRange) (processCancelIntentDelegated rt inv id) := by
  unfold processCancelIntentDelegated
  split <;> (repeat with_reducible refine keeping_bind inferInstance fun _ => ?_) <;> infer_instance

instance (trader mint : Pubkey) (margins : List Pubkey) :
    Keeping (Stays Ledger.InRange) (findMargin rt trader mint margins) := by
  induction margins with
  | nil =>
    unfold findMargin
    infer_instance
  | cons margin rest ih =>
    unfold findMargin
    infer_instance

instance (book mint : Pubkey) (work : List (ℕ × IntentNode × Pubkey × ℕ)) (margins : List Pubkey) :
    Keeping (Stays Ledger.InRange) (pruneAll rt inv book mint work margins) := by
  induction work generalizing margins with
  | nil =>
    unfold pruneAll
    infer_instance
  | cons found work ih =>
    unfold pruneAll
    infer_instance

instance : Keeping (Stays Ledger.InRange) (processPruneExpired rt inv) := by
  unfold processPruneExpired
  split <;> (repeat with_reducible refine keeping_bind inferInstance fun _ => ?_) <;> infer_instance

/-! ### Settlement -/

section Attestations

variable {att : Attestation} {offset length : ℕ}

/-- A field of an attestation is as wide as its bytes. -/
theorem Attestation.field_lt : fromLeBytes (att.field offset length) < 256 ^ length := by
  have bound := Codec.ofWordBytes_lt (att.field offset length)
  have short : (att.field offset length).length ≤ length := List.length_take_le _ _
  rw [fromLeBytes_eq]
  exact lt_of_lt_of_le bound (Nat.pow_le_pow_right (by decide) short)

theorem Attestation.payload_lt {type v : ℕ} (read : (att.payload type offset length).map fromLeBytes = .ok v) :
    v < 256 ^ length := by
  unfold Attestation.payload at read
  split at read
  · cases read
  · cases read
    exact Attestation.field_lt

theorem nowUnix_lt (fits : inv.InRange) : nowUnix rt inv < 2 ^ 64 := by
  have upper := fits.clock.2
  unfold nowUnix
  omega

theorem keeping_acceptAttestation {inst : InstrumentConfig} {now : ℕ}
    {record : MarketNonceAccount → Except ProgramError MarketNonceAccount} (clock : now < 2 ^ 64)
    (step : ∀ n n' : MarketNonceAccount, n.InRange → record n = .ok n' → n'.InRange) :
    Keeping (Stays MarketNonceAccount.InRange) (acceptAttestation att inst now record) := by
  refine keeping_get fun n inRange => upholds_bind (upholds_of_keeping _) fun _ _ => ?_
  refine upholds_bind_check fun _ recorded _ accepted => upholds_put (step _ _ ?_ accepted)
  exact { inRange with lastAcceptedCreNonce := Attestation.field_lt, lastAcceptedTs := clock }

/-- The price of an attestation is recorded. -/
theorem MarketNonceAccount.InRange.mark {n n' : MarketNonceAccount} {mark : Except ProgramError ℕ} (inRange : n.InRange)
    (small : ∀ v, mark = .ok v → v < 2 ^ 64)
    (recorded :
      (do let v ← mark; .ok { n with lastAcceptedTwapFp := v } : Except ProgramError MarketNonceAccount) = .ok n') :
    n'.InRange := by
  cases read : mark with
  | error e => simp [read, bind, Except.bind] at recorded
  | ok v =>
    rw [read] at recorded
    cases recorded
    exact { inRange with lastAcceptedTwapFp := small v read }

end Attestations

section Settlement

variable (fits : inv.InRange)

instance (longMargin shortMargin : Pubkey) (perSide : ℕ) (equity : ℕ × ℕ) :
    Keeping (Stays Ledger.InRange) (settleBoth rt inv longMargin shortMargin perSide equity) := by
  unfold settleBoth
  infer_instance

instance (winner loser long short : Pubkey) (perSide bounty : ℕ) :
    Keeping (Stays Ledger.InRange) (payWinner rt inv winner loser long short perSide bounty) := by
  unfold payWinner
  repeat with_reducible refine keeping_bind inferInstance fun _ => ?_
  infer_instance

theorem keeping_closePmlcWith {pmlc : Pubkey} {status reason : ℕ} (ended : status < 2 ^ 8) (closed : reason < 2 ^ 8) :
    Keeping (Stays Ledger.InRange) (closePmlcWith rt inv pmlc status reason) :=
  keeping_updateAccount fun _ inRange =>
    { inRange with status := ended, closeReason := closed, lastMarkSlot := inv.slot_lt }

include fits in
theorem keeping_processLiquidate {offset : UInt8} :
    Keeping (Stays Ledger.InRange) (processLiquidate rt inv offset) := by
  have closed (pmlc) :
      Keeping (Stays Ledger.InRange) (closePmlcWith rt inv pmlc PMLC_STATUS_LIQUIDATED CLOSE_REASON_LIQUIDATED) :=
    keeping_closePmlcWith (by decide) (by decide)
  have accepted (att : Attestation) (inst) : Keeping (Stays MarketNonceAccount.InRange)
      (acceptAttestation att inst (nowUnix rt inv) fun n => do
        let mark ← att.breachMarkFp
        .ok { n with lastAcceptedTwapFp := mark }) :=
    keeping_acceptAttestation (nowUnix_lt fits) fun n n' inRange => inRange.mark fun v => Attestation.payload_lt
  unfold processLiquidate
  split <;> (repeat with_reducible refine keeping_bind inferInstance fun _ => ?_) <;> infer_instance

include fits in
theorem keeping_processResolve {offset : UInt8} : Keeping (Stays Ledger.InRange) (processResolve rt inv offset) := by
  have closed (pmlc) :
      Keeping (Stays Ledger.InRange) (closePmlcWith rt inv pmlc PMLC_STATUS_RESOLVED CLOSE_REASON_RESOLVED) :=
    keeping_closePmlcWith (by decide) (by decide)
  have accepted (att : Attestation) (inst) : Keeping (Stays MarketNonceAccount.InRange)
      (acceptAttestation att inst (nowUnix rt inv) fun n => do
        let outcome ← att.finalOutcomeBps
        .ok { n with finalOutcomeBps := outcome, isResolved := 1 }) := by
    refine keeping_acceptAttestation (nowUnix_lt fits) fun n n' inRange recorded => ?_
    cases read : att.finalOutcomeBps with
    | error e => simp [read, bind, Except.bind] at recorded
    | ok v =>
      rw [read] at recorded
      cases recorded
      exact { inRange with finalOutcomeBps := Attestation.payload_lt read, isResolved := (by decide : 1 < 2 ^ 8) }
  unfold processResolve
  split <;> (repeat with_reducible refine keeping_bind inferInstance fun _ => ?_) <;> infer_instance

include fits in
theorem keeping_processCloseMutual {offset : UInt8} :
    Keeping (Stays Ledger.InRange) (processCloseMutual rt inv offset) := by
  have closed (pmlc) :
      Keeping (Stays Ledger.InRange) (closePmlcWith rt inv pmlc PMLC_STATUS_CLOSED CLOSE_REASON_MUTUAL) :=
    keeping_closePmlcWith (by decide) (by decide)
  have accepted (att : Attestation) (inst) : Keeping (Stays MarketNonceAccount.InRange)
      (acceptAttestation att inst (nowUnix rt inv) fun n => do
        let mark ← att.priceFp
        .ok { n with lastAcceptedTwapFp := mark }) :=
    keeping_acceptAttestation (nowUnix_lt fits) fun n n' inRange => inRange.mark fun v => Attestation.payload_lt
  unfold processCloseMutual
  split <;> (repeat with_reducible refine keeping_bind inferInstance fun _ => ?_) <;> infer_instance

end Settlement

/-! ### Positions -/

section Positions

variable (fits : inv.InRange)

theorem keeping_handOver {pmlc owner : Pubkey} {side : ℕ} (ownerBytes : owner.IsBytes) :
    Keeping (Stays Ledger.InRange) (handOver rt inv pmlc side owner) := by
  refine keeping_updateAccount fun p inRange => ?_
  unfold Pmlc.setOwner
  split
  · exact { inRange with longOwner := ownerBytes, lastMarkSlot := inv.slot_lt }
  · exact { inRange with shortOwner := ownerBytes, lastMarkSlot := inv.slot_lt }

include fits in
theorem keeping_processNovate {side : UInt8} : Keeping (Stays Ledger.InRange) (processNovate rt inv side) := by
  unfold processNovate
  split
  next currentOwner newOwner config instrument pmlc currentMargin newMargin rest accounts =>
    have keys := fits.keys accounts
    have handed (side) : Keeping (Stays Ledger.InRange) (handOver rt inv pmlc side newOwner) :=
      keeping_handOver (keys newOwner (by simp))
    repeat with_reducible refine keeping_bind inferInstance fun _ => ?_
    infer_instance
  · infer_instance

instance (args : MatchPairArgs) (withSettle : Bool) :
    Keeping (Stays Ledger.InRange) (doSubstitute rt inv args withSettle) := by
  unfold doSubstitute
  split
  · iterate 13 refine Exec.keeping_bind inferInstance fun _ => ?_
    refine keeping_after (upholds_atBook (upholds_substituteInBook _ _ _ _ _)) fun c newOwner => ?_
    iterate 5 refine Exec.keeping_bind inferInstance fun _ => ?_
    exact keeping_handOver newOwner
  · infer_instance

instance (pmlc : Pubkey) (side : ℕ) : Keeping (Stays Ledger.InRange) (clearReentry rt inv pmlc side) :=
  keeping_updateAccount fun _ inRange => { inRange with flags := lt_of_le_of_lt (Nat.sub_le _ _) inRange.flags }

theorem reserveFor_lt {contracts bucket maxFeeBps : ℕ} {reserve : ℕ × ℕ × ℕ}
    (reserved : reserveFor contracts bucket maxFeeBps = .ok reserve) : reserve.1 < 2 ^ 64 ∧ reserve.2.1 < 2 ^ 64 := by
  obtain ⟨-, buffered, -⟩ := reserveFor_ok reserved
  refine ⟨?_, feeBufferFor_lt buffered⟩
  cases collateral : checkedMul 64 contracts bucket with
  | none => simp [reserveFor, collateral, orOverflow, bind, Except.bind] at reserved
  | some v =>
    obtain ⟨small, rfl⟩ := checkedMul_eq_some.mp collateral
    rwa [(reserveFor_ok reserved).1]

/-- The number of contracts is capped at the largest that an intent holds. -/
theorem upholds_affordableContracts {free bucket maxFeeBps : ℕ} :
    Upholds Ledger.InRange (· < 2 ^ 16) (affordableContracts free bucket maxFeeBps) := by
  have trimmed (n : ℕ) (small : n < 2 ^ 16) :
      Upholds Ledger.InRange (· < 2 ^ 16) (trimContracts free bucket maxFeeBps n) := by
    induction n with
    | zero => exact upholds_pure (by decide : 0 < 2 ^ 16)
    | succ n ih =>
      iterate 3 refine upholds_bind (upholds_of_keeping _) fun _ _ => ?_
      exact upholds_ite (fun _ => upholds_pure small) fun _ => ih (by omega)
  have small : min (free / bucket) (maxValue 16) < 2 ^ 16 := lt_of_le_of_lt (Nat.min_le_right _ _) (by decide)
  refine upholds_bind (upholds_of_keeping _) fun reserve _ => ?_
  exact upholds_ite (fun _ => trimmed _ small) fun _ => upholds_pure small

theorem Pmlc.InRange.reentryPriceFp {p : Pmlc} (inRange : p.InRange) (side : ℕ) : p.reentryPriceFp side < 2 ^ 64 := by
  unfold Pmlc.reentryPriceFp
  split
  · exact inRange.longReentryPriceFp
  · exact inRange.shortReentryPriceFp

theorem keeping_reenter {owner book margin pmlc : Pubkey} {inst : InstrumentConfig} {p : Pmlc} {args : ClaimReentryArgs}
    {contracts maxFeeBps : ℕ} (ownerBytes : owner.IsBytes) (position : p.InRange) (few : contracts < 2 ^ 16) :
    Keeping (Stays Ledger.InRange) (reenter rt inv owner book margin pmlc inst p args contracts maxFeeBps) := by
  refine keeping_after_check fun _ reserve _ reserved => Exec.keeping_bind inferInstance fun _ => ?_
  obtain ⟨collateral, buffer⟩ := reserveFor_lt reserved
  refine Exec.keeping_bind (upholds_atBook (upholds_post ownerBytes ?_)).keeping fun _ => inferInstance
  exact
    { side := args.side.toNat_lt
      flags := (by decide : INTENT_FLAG_REENTRY < 2 ^ 8)
      priceFp := position.reentryPriceFp _
      contracts := few
      expirationSlot := args.expirationSlot.toNat_lt
      reservedCollateral := collateral
      feeBuffer := buffer }

include fits in
theorem keeping_processClaimReentry {args : ClaimReentryArgs} :
    Keeping (Stays Ledger.InRange) (processClaimReentry rt inv args) := by
  unfold processClaimReentry
  split
  next owner config pmlc instrument book margin rest accounts =>
    have keys := fits.keys accounts
    iterate 7 refine Exec.keeping_bind inferInstance fun _ => ?_
    refine keeping_after upholds_load fun p (position : p.InRange) => ?_
    iterate 14 refine Exec.keeping_bind inferInstance fun _ => ?_
    split
    · infer_instance
    · refine Exec.keeping_bind inferInstance fun b => keeping_after upholds_affordableContracts fun contracts few => ?_
      split
      · infer_instance
      · exact keeping_reenter (keys owner (by simp)) position few
  · infer_instance

instance : Keeping (Stays Ledger.InRange) (processClosePmlc rt inv) := by
  unfold processClosePmlc
  split <;> (repeat with_reducible refine keeping_bind inferInstance fun _ => ?_) <;> infer_instance

end Positions

end Polyleverage
