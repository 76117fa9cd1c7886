import Polyleverage.Exec.Upholding
import Polyleverage.Guarantees.Encodings
import Polyleverage.State.Raw

/-! # The ranges of the stored fields

The model keeps numbers as natural numbers and integers, the accounts keep them as machine words. Here is
which word every field is, and that what the handlers do to one account keeps its fields in range.
-/

namespace Polyleverage

open Machine Exec

/-! ### The fields -/

structure ProgramConfig.InRange (c : ProgramConfig) : Prop where
  globalPause : c.globalPause < 2 ^ 8
  bump : c.bump < 2 ^ 8
  admin : c.admin.IsBytes
  feeTreasuryAuthority : c.feeTreasuryAuthority.IsBytes
  attestationSigner : c.attestationSigner.IsBytes
  defaultMaxStalenessSecs : c.defaultMaxStalenessSecs < 2 ^ 64

structure MarginAccount.InRange (m : MarginAccount) : Prop where
  bump : m.bump < 2 ^ 8
  owner : m.owner.IsBytes
  collateralMint : m.collateralMint.IsBytes
  freeCollateral : m.freeCollateral < 2 ^ 64
  reservedCollateral : m.reservedCollateral < 2 ^ 64
  lockedCollateral : m.lockedCollateral < 2 ^ 64
  realizedPnl : FitsSigned 64 m.realizedPnl

structure InstrumentConfig.InRange (c : InstrumentConfig) : Prop where
  status : c.status < 2 ^ 8
  bump : c.bump < 2 ^ 8
  source : c.source < 2 ^ 8
  marketId : c.marketId < 2 ^ 256
  sourceTokenIdA : c.sourceTokenIdA < 2 ^ 256
  sourceTokenIdB : c.sourceTokenIdB < 2 ^ 256
  collateralMint : c.collateralMint.IsBytes
  intentBook : c.intentBook.IsBytes
  leverageBps : c.leverageBps < 2 ^ 32
  collateralBucket : c.collateralBucket < 2 ^ 64
  twapWindowSlots : c.twapWindowSlots < 2 ^ 64
  tickFp : c.tickFp < 2 ^ 64
  liquidationBps : c.liquidationBps < 2 ^ 32
  liquidationBountyBps : c.liquidationBountyBps < 2 ^ 16
  maxStalenessSecs : c.maxStalenessSecs < 2 ^ 64
  referenceUsd : c.referenceUsd < 2 ^ 64

structure Pmlc.InRange (p : Pmlc) : Prop where
  status : p.status < 2 ^ 8
  closeReason : p.closeReason < 2 ^ 8
  flags : p.flags < 2 ^ 8
  bump : p.bump < 2 ^ 8
  id : p.id < 2 ^ 64
  instrument : p.instrument.IsBytes
  collateralMint : p.collateralMint.IsBytes
  marketId : p.marketId < 2 ^ 256
  longOwner : p.longOwner.IsBytes
  shortOwner : p.shortOwner.IsBytes
  collateralPerSide : p.collateralPerSide < 2 ^ 64
  leverageBps : p.leverageBps < 2 ^ 32
  entryPriceFp : p.entryPriceFp < 2 ^ 64
  notionalAtoms : p.notionalAtoms < 2 ^ 64
  sizeFpLo : p.sizeFpLo < 2 ^ 64
  sizeFpHi : p.sizeFpHi < 2 ^ 64
  openedSlot : p.openedSlot < 2 ^ 64
  lastMarkSlot : p.lastMarkSlot < 2 ^ 64
  longReentryPriceFp : p.longReentryPriceFp < 2 ^ 64
  shortReentryPriceFp : p.shortReentryPriceFp < 2 ^ 64

structure MarketNonceAccount.InRange (n : MarketNonceAccount) : Prop where
  isResolved : n.isResolved < 2 ^ 8
  bump : n.bump < 2 ^ 8
  marketId : n.marketId < 2 ^ 256
  lastAcceptedCreNonce : n.lastAcceptedCreNonce < 2 ^ 64
  lastAcceptedTwapFp : n.lastAcceptedTwapFp < 2 ^ 64
  lastAcceptedTs : n.lastAcceptedTs < 2 ^ 64
  finalOutcomeBps : n.finalOutcomeBps < 2 ^ 16

structure FeeTierRaw.InRange (t : FeeTierRaw) : Prop where
  volumeThreshold : t.volumeThreshold < 2 ^ 64
  feeBps : t.feeBps < 2 ^ 16

structure FeeSchedule.InRange (s : FeeSchedule) : Prop where
  bump : s.bump < 2 ^ 8
  tiers : ∀ tier ∈ s.tiers.toList, tier.InRange
  maxTierFeeBps : s.maxTierFeeBps < 2 ^ 16
  lastUpdatedSlot : s.lastUpdatedSlot < 2 ^ 64

structure UserVolume.InRange (v : UserVolume) : Prop where
  bump : v.bump < 2 ^ 8
  owner : v.owner.IsBytes
  collateralMint : v.collateralMint.IsBytes
  volumeCurrentAtoms : v.volumeCurrentAtoms < 2 ^ 64
  volumePrevAtoms : v.volumePrevAtoms < 2 ^ 64
  epochStartSlot : v.epochStartSlot < 2 ^ 64
  epochLengthSlots : v.epochLengthSlots < 2 ^ 64

structure FeeTreasury.InRange (t : FeeTreasury) : Prop where
  bump : t.bump < 2 ^ 8
  collateralMint : t.collateralMint.IsBytes
  accruedAtoms : t.accruedAtoms < 2 ^ 64
  totalSweptAtoms : t.totalSweptAtoms < 2 ^ 64

structure TimelockProposal.InRange (p : TimelockProposal) : Prop where
  kind : p.kind < 2 ^ 8
  status : p.status < 2 ^ 8
  bump : p.bump < 2 ^ 8
  proposalId : p.proposalId < 2 ^ 64
  proposer : p.proposer.IsBytes
  newSigner : p.newSigner.IsBytes
  proposedSlot : p.proposedSlot < 2 ^ 64
  proposedUnixTs : FitsSigned 64 p.proposedUnixTs
  executableAfterUnixTs : FitsSigned 64 p.executableAfterUnixTs

/-- As many keys as there are cells for them. -/
structure KeysStored (cells : ℕ) (keys : List Pubkey) : Prop where
  length : keys.length ≤ cells
  keys : ∀ k ∈ keys, k.IsBytes

/-- As many words as there are cells for them. -/
structure WordsStored (cells width : ℕ) (words : List ℕ) : Prop where
  length : words.length ≤ cells
  words : ∀ v ∈ words, v < 2 ^ width

structure AdminMultisig.InRange (ms : AdminMultisig) : Prop where
  bump : ms.bump < 2 ^ 8
  threshold : ms.threshold < 2 ^ 8
  bootstrapAdmin : ms.bootstrapAdmin.IsBytes
  version : ms.version < 2 ^ 64
  signers : KeysStored MAX_MULTISIG_SIGNERS ms.signers

structure BucketRegistry.InRange (r : BucketRegistry) : Prop where
  bump : r.bump < 2 ^ 8
  version : r.version < 2 ^ 64
  leverageBps : WordsStored MAX_LEVERAGE_SLOTS 32 r.leverageBps
  collateralBuckets : WordsStored MAX_COLLATERAL_SLOTS 64 r.collateralBuckets

structure StablecoinRegistry.InRange (r : StablecoinRegistry) : Prop where
  bump : r.bump < 2 ^ 8
  wusdDecimals : r.wusdDecimals < 2 ^ 8
  wusdMint : r.wusdMint.IsBytes
  version : r.version < 2 ^ 64
  mints : KeysStored MAX_STABLECOIN_SLOTS r.mints

structure Session.InRange (s : Session) : Prop where
  bump : s.bump < 2 ^ 8
  revoked : s.revoked < 2 ^ 8
  owner : s.owner.IsBytes
  delegate : s.delegate.IsBytes
  expiresAtSlot : s.expiresAtSlot < 2 ^ 64
  perIntentMaxCollateralAtoms : s.perIntentMaxCollateralAtoms < 2 ^ 64
  cumulativeCollateralUsed : s.cumulativeCollateralUsed < 2 ^ 64
  cumulativeCollateralCap : s.cumulativeCollateralCap < 2 ^ 64
  createdAtSlot : s.createdAtSlot < 2 ^ 64
  version : s.version < 2 ^ 64
  allowedInstruments : KeysStored MAX_SESSION_INSTRUMENTS s.allowedInstruments

/-! ### Words -/

theorem saturatingAdd_lt (w a b : ℕ) : saturatingAdd w a b < 2 ^ w := by
  have most : saturatingAdd w a b ≤ 2 ^ w - 1 := Nat.min_le_right _ _
  have positive := Nat.two_pow_pos w
  omega

theorem truncate_lt (w a : ℕ) : truncate w a < 2 ^ w := Nat.mod_lt _ (Nat.two_pow_pos w)

theorem fitsSigned_clampSigned (v : ℤ) : FitsSigned 64 (clampSigned 64 v) := by
  unfold FitsSigned clampSigned
  omega

/-- An update of an account that keeps its ranges. -/
theorem keeping_modify {τ : Type} {R : τ → Prop} {f : τ → τ} (step : ∀ x, R x → R (f x)) :
    Keeping (Stays R) (Exec.modify f : Exec ProgramError τ Unit) := ⟨keeps_modify step⟩

/-- A program on one account that goes on with what it holds. -/
theorem keeping_get {τ α : Type} {R : τ → Prop} {f : τ → Exec ProgramError τ α}
    (next : ∀ x, R x → Upholds R (fun _ => True) (f x)) :
    Keeping (Stays R) (Exec.get >>= f) := (upholds_bind upholds_get next).keeping

/-! ### Margin accounts -/

namespace MarginAccount

theorem InRange.setBalance {m : MarginAccount} (inRange : m.InRange) {bucket : Bucket} {v : ℕ} (fits : v < 2 ^ 64) :
    (m.setBalance bucket v).InRange := by
  cases bucket
  · exact { inRange with freeCollateral := fits }
  · exact { inRange with reservedCollateral := fits }
  · exact { inRange with lockedCollateral := fits }

theorem InRange.balance {m : MarginAccount} (inRange : m.InRange) (bucket : Bucket) : m.balance bucket < 2 ^ 64 := by
  cases bucket
  · exact inRange.freeCollateral
  · exact inRange.reservedCollateral
  · exact inRange.lockedCollateral

variable {bucket source destination : Bucket} {amount : ℕ} {pnl : ℤ}

instance : Keeping (Stays InRange) (credit bucket amount) := by
  refine keeping_get fun m inRange => upholds_bind_check fun _ v _ sum => upholds_put ?_
  obtain ⟨small, rfl⟩ := checkedAdd_eq_some.mp sum
  exact inRange.setBalance small

instance : Keeping (Stays InRange) (debit bucket amount) := by
  refine keeping_get fun m inRange => upholds_bind_check fun _ v _ difference => upholds_put ?_
  obtain ⟨-, rfl⟩ := checkedSub_eq_some.mp difference
  have small := inRange.balance bucket
  exact inRange.setBalance (by omega)

instance : Keeping (Stays InRange) (move source destination amount) := by
  unfold move
  infer_instance

instance : Keeping (Stays InRange) (creditFree amount) := inferInstanceAs (Keeping _ (credit _ _))

instance : Keeping (Stays InRange) (debitFree amount) := inferInstanceAs (Keeping _ (debit _ _))

instance : Keeping (Stays InRange) (creditLocked amount) := inferInstanceAs (Keeping _ (credit _ _))

instance : Keeping (Stays InRange) (debitLocked amount) := inferInstanceAs (Keeping _ (debit _ _))

instance : Keeping (Stays InRange) (moveFreeToReserved amount) := inferInstanceAs (Keeping _ (move _ _ _))

instance : Keeping (Stays InRange) (moveReservedToFree amount) := inferInstanceAs (Keeping _ (move _ _ _))

instance : Keeping (Stays InRange) (moveReservedToLocked amount) := inferInstanceAs (Keeping _ (move _ _ _))

instance : Keeping (Stays InRange) (moveLockedToFree amount) := inferInstanceAs (Keeping _ (move _ _ _))

instance : Keeping (Stays InRange) (addRealizedPnl pnl) :=
  keeping_modify fun _ inRange => { inRange with realizedPnl := fitsSigned_clampSigned _ }

instance : Keeping (Stays InRange) (subRealizedPnl pnl) :=
  keeping_modify fun _ inRange => { inRange with realizedPnl := fitsSigned_clampSigned _ }

theorem inRange_init {owner mint : Pubkey} {bump : ℕ} (ownerBytes : owner.IsBytes) (mintBytes : mint.IsBytes)
    (small : bump < 2 ^ 8) : (init owner mint bump).InRange where
  bump := small
  owner := ownerBytes
  collateralMint := mintBytes
  freeCollateral := by simp [init]
  reservedCollateral := by simp [init]
  lockedCollateral := by simp [init]
  realizedPnl := by
    show FitsSigned 64 0
    decide

end MarginAccount

section Margins

open MarginAccount

variable {owner mint : Pubkey} {bump amount refund reserve perSide release fee equity : ℕ} {delta : ℤ} {r : Refund}

instance : Keeping (Stays MarginAccount.InRange) (withdrawFree owner mint bump amount) := by
  unfold withdrawFree
  infer_instance

instance : Keeping (Stays MarginAccount.InRange) (reserveForPost owner mint bump refund reserve) := by
  unfold reserveForPost
  infer_instance

instance : Keeping (Stays MarginAccount.InRange) (refundMargin mint r) := by
  unfold refundMargin
  infer_instance

instance : Keeping (Stays MarginAccount.InRange) (lockSide perSide release fee) := by
  unfold lockSide
  infer_instance

instance : Keeping (Stays MarginAccount.InRange) (takeOver amount) := by
  unfold takeOver
  infer_instance

instance (movement : MarginM Unit) [Keeping (Stays MarginAccount.InRange) movement] :
    Keeping (Stays MarginAccount.InRange) (asOwner owner mint movement) := by
  unfold asOwner
  infer_instance

instance : Keeping (Stays MarginAccount.InRange) (leaveSide perSide release delta) := by
  unfold leaveSide
  repeat with_reducible refine keeping_bind inferInstance fun _ => ?_
  infer_instance

instance : Keeping (Stays MarginAccount.InRange) (enterSide perSide release delta) := by
  unfold enterSide
  infer_instance

instance : Keeping (Stays MarginAccount.InRange) (settleSide perSide equity) := by
  unfold settleSide
  infer_instance

end Margins

/-! ### Fees -/

theorem UserVolume.inRange_init {owner mint : Pubkey} {nowSlot bump : ℕ} (ownerBytes : owner.IsBytes)
    (mintBytes : mint.IsBytes) (slot : nowSlot < 2 ^ 64) (small : bump < 2 ^ 8) :
    (init owner mint nowSlot bump).InRange where
  bump := small
  owner := ownerBytes
  collateralMint := mintBytes
  volumeCurrentAtoms := by simp [init]
  volumePrevAtoms := by simp [init]
  epochStartSlot := slot
  epochLengthSlots := by simp [init, USER_VOLUME_EPOCH_SLOTS]

instance (nowSlot : ℕ) : Keeping (Stays UserVolume.InRange) (UserVolume.maybeRollEpoch nowSlot) := by
  refine keeping_get fun v inRange => upholds_when fun _ => upholds_bind (upholds_put ?_) fun _ _ => ?_
  · refine { inRange with volumeCurrentAtoms := by simp, volumePrevAtoms := ?_ }
    show (if _ then v.volumeCurrentAtoms else 0) < _
    have current := inRange.volumeCurrentAtoms
    split <;> omega
  · refine upholds_bind (upholds_of_keeping _) fun elapsed _ => upholds_bind_check fun _ start _ sum => ?_
    obtain ⟨small, rfl⟩ := checkedAdd_eq_some.mp sum
    exact upholds_modify fun v inRange => { inRange with epochStartSlot := small }

instance (amount nowSlot : ℕ) : Keeping (Stays UserVolume.InRange) (UserVolume.addVolume amount nowSlot) := by
  refine Exec.keeping_bind inferInstance fun _ => keeping_get fun v inRange =>
    upholds_bind_check fun _ volume _ sum => ?_
  obtain ⟨small, rfl⟩ := checkedAdd_eq_some.mp sum
  exact upholds_put { inRange with volumeCurrentAtoms := small }

theorem FeeTreasury.inRange_init {mint : Pubkey} {bump : ℕ} (mintBytes : mint.IsBytes) (small : bump < 2 ^ 8) :
    (init mint bump).InRange := ⟨small, mintBytes, by simp [init], by simp [init]⟩

instance (amount : ℕ) : Keeping (Stays FeeTreasury.InRange) (FeeTreasury.accrue amount) := by
  refine keeping_get fun t inRange => upholds_bind_check fun _ accrued _ sum => ?_
  obtain ⟨small, rfl⟩ := checkedAdd_eq_some.mp sum
  exact upholds_put { inRange with accruedAtoms := small }

instance (mint : Pubkey) (amount : ℕ) : Keeping (Stays FeeTreasury.InRange) (sweepTreasury mint amount) := by
  refine Exec.keeping_bind inferInstance fun _ => Exec.keeping_bind inferInstance fun _ =>
    keeping_get fun t inRange => ?_
  refine upholds_bind_check fun _ accrued _ difference => ?_
  obtain ⟨-, rfl⟩ := checkedSub_eq_some.mp difference
  have small := inRange.accruedAtoms
  refine upholds_bind (upholds_put { inRange with accruedAtoms := ?_ }) fun _ _ =>
    upholds_bind_check fun _ swept _ sum => ?_
  · show t.accruedAtoms - amount < _
    omega
  · obtain ⟨small, rfl⟩ := checkedAdd_eq_some.mp sum
    exact upholds_modify fun t inRange => { inRange with totalSweptAtoms := small }

theorem computeMaxFeeBps_lt {tiers : FeeTiers} (each : ∀ tier ∈ tiers.toList, tier.InRange) :
    computeMaxFeeBps tiers < 2 ^ 16 := by
  have grows : ∀ (l : List FeeTierRaw) (bound : ℕ), (∀ tier ∈ l, tier.InRange) → bound < 2 ^ 16 →
      l.foldl (fun bound tier => if bound < tier.feeBps then tier.feeBps else bound) bound < 2 ^ 16 := by
    intro l
    induction l with
    | nil => exact fun _ _ small => small
    | cons tier rest ih =>
      intro bound each small
      rw [List.foldl_cons]
      obtain ⟨first, others⟩ := List.forall_mem_cons.mp each
      have fee := first.feeBps
      apply ih _ others
      split <;> assumption
  exact grows _ _ each (by simp)

theorem inRange_toRawTiers (tiers : FeeTierArgs) : ∀ tier ∈ (toRawTiers tiers).toList, tier.InRange := by
  intro tier member
  rw [toRawTiers, Vector.toList_map, List.mem_map] at member
  obtain ⟨t, -, rfl⟩ := member
  exact ⟨t.volumeThreshold.toNat_lt, t.feeBps.toNat_lt⟩

theorem FeeSchedule.inRange_init {tiers : FeeTiers} {nowSlot bump : ℕ} (each : ∀ tier ∈ tiers.toList, tier.InRange)
    (slot : nowSlot < 2 ^ 64) (small : bump < 2 ^ 8) : (init tiers nowSlot bump).InRange :=
  ⟨small, each, computeMaxFeeBps_lt each, slot⟩

theorem keeping_setTiers {tiers : FeeTiers} {nowSlot : ℕ} (each : ∀ tier ∈ tiers.toList, tier.InRange)
    (slot : nowSlot < 2 ^ 64) :
    Keeping (Stays FeeSchedule.InRange) (setTiers tiers nowSlot) := by
  refine keeping_get fun s inRange => upholds_bind (upholds_of_keeping _) fun _ _ => upholds_put ?_
  exact ⟨inRange.bump, each, computeMaxFeeBps_lt each, slot⟩

/-! ### Sessions, the multisig and the registries -/

instance (amount : ℕ) : Keeping (Stays Session.InRange) (chargeSession amount) := by
  refine keeping_get fun s inRange => upholds_bind_check fun _ charged _ recorded => upholds_put ?_
  obtain ⟨⟨-, -, small, -⟩, rfl⟩ := Session.recordIntent_ok.mp recorded
  exact { inRange with cumulativeCollateralUsed := small, version := saturatingAdd_lt _ _ _ }

instance (owner : Pubkey) : Keeping (Stays Session.InRange) (revokeBy owner) := by
  refine keeping_get fun s inRange => upholds_bind (upholds_of_keeping _) fun _ _ => upholds_put ?_
  refine { inRange with revoked := ?_, version := saturatingAdd_lt _ _ _ }
  show 1 < 2 ^ 8
  decide

theorem keysStored_of_fit {cells : ℕ} {keys : List Pubkey} (length : keys.length ≤ cells) (fit : KeysFit keys) :
    KeysStored cells keys :=
  ⟨length, fit.2⟩

theorem keeping_rotateMultisig {rt : Runtime} {inv : rt.Invocation} {args : MultisigArgs} (fit : KeysFit args.signers) :
    Keeping (Stays AdminMultisig.InRange) (rotateMultisig rt inv args) := by
  refine keeping_get fun ms inRange => upholds_bind (upholds_of_keeping _) fun _ _ => ?_
  refine upholds_bind_check fun _ rotated _ accepted => upholds_put ?_
  have valid : AdminMultisig.validate args.signers args.threshold.toNat = .ok () := by
    cases checked : AdminMultisig.validate args.signers args.threshold.toNat with
    | ok u => rfl
    | error e => simp [AdminMultisig.rotate, checked, bind, Except.bind] at accepted
  simp only [AdminMultisig.rotate, valid, bind, Except.bind, Except.ok.injEq] at accepted
  subst accepted
  exact
    { inRange with
      threshold := args.threshold.toNat_lt
      version := saturatingAdd_lt _ _ _
      signers := keysStored_of_fit (AdminMultisig.validate_ok.mp valid).1.2 fit }

/-- Lists that are accepted have cells for all their values. -/
theorem BucketRegistry.length_of_validateInputs {leverages buckets : List ℕ}
    (valid : validateInputs leverages buckets = .ok ()) :
    leverages.length ≤ MAX_LEVERAGE_SLOTS ∧ buckets.length ≤ MAX_COLLATERAL_SLOTS := by
  unfold validateInputs at valid
  split at valid
  · cases valid
  next few =>
    split at valid
    · cases valid
    next few' =>
      rw [not_or, not_lt] at few few'
      exact ⟨few.2, few'.2⟩

theorem words_u32 (l : List UInt32) : ∀ v ∈ l.map (·.toNat), v < 2 ^ 32 := by
  intro v member
  obtain ⟨w, -, rfl⟩ := List.mem_map.mp member
  exact w.toNat_lt

theorem words_u64 (l : List UInt64) : ∀ v ∈ l.map (·.toNat), v < 2 ^ 64 := by
  intro v member
  obtain ⟨w, -, rfl⟩ := List.mem_map.mp member
  exact w.toNat_lt

instance (args : BucketRegistryArgs) : Keeping (Stays BucketRegistry.InRange) (setRegistry args) := by
  refine keeping_get fun r inRange => upholds_bind_check fun _ replaced _ accepted => upholds_put ?_
  simp only [BucketRegistry.set, bind, Except.bind] at accepted
  split at accepted
  · cases accepted
  next u valid =>
    cases accepted
    obtain ⟨few, few'⟩ := BucketRegistry.length_of_validateInputs valid
    exact ⟨inRange.bump, saturatingAdd_lt _ _ _, ⟨few, words_u32 _⟩, ⟨few', words_u64 _⟩⟩

theorem keeping_acceptMint {mint : Pubkey} (bytes : mint.IsBytes) (decimals : ℕ) :
    Keeping (Stays StablecoinRegistry.InRange) (acceptMint mint decimals) := by
  refine keeping_get fun r inRange => upholds_bind (upholds_of_keeping _) fun _ _ => ?_
  refine upholds_bind_check fun _ added _ accepted => upholds_put ?_
  unfold StablecoinRegistry.addMint at accepted
  split at accepted
  · cases accepted
  · split at accepted
    · cases accepted
    next room =>
      cases accepted
      refine { inRange with version := saturatingAdd_lt _ _ _, mints := ⟨?_, ?_⟩ }
      · rw [List.length_append]
        exact not_le.mp room
      · intro k member
        rcases List.mem_append.mp member with old | new
        · exact inRange.mints.keys k old
        · rwa [List.mem_singleton.mp new]

/-- The last mint is one of the mints. -/
theorem StablecoinRegistry.mem_of_mem_swapRemove {mints : List Pubkey} {i : ℕ} {k : Pubkey}
    (member : k ∈ swapRemove mints i) :
    k ∈ mints := by
  unfold swapRemove at member
  split at member
  next last found =>
    rcases List.mem_or_eq_of_mem_set (List.mem_of_mem_dropLast member) with old | rfl
    · exact old
    · exact List.mem_of_getLast? found
  · cases member

theorem StablecoinRegistry.length_swapRemove_le (mints : List Pubkey) (i : ℕ) :
    (swapRemove mints i).length ≤ mints.length := by
  unfold swapRemove
  split
  · simp
  · simp

instance (mint : Pubkey) : Keeping (Stays StablecoinRegistry.InRange) (dropMint mint) := by
  refine keeping_get fun r inRange => upholds_bind_check fun _ removed _ accepted => upholds_put ?_
  unfold StablecoinRegistry.removeMint at accepted
  split at accepted
  · cases accepted
  next i found =>
    cases accepted
    refine { inRange with version := saturatingAdd_lt _ _ _, mints := ⟨?_, ?_⟩ }
    · exact (StablecoinRegistry.length_swapRemove_le _ _).trans inRange.mints.length
    · exact fun k member => inRange.mints.keys k (StablecoinRegistry.mem_of_mem_swapRemove member)

end Polyleverage
