import Polyleverage.Exec.Avoiding
import Polyleverage.Guarantees.Solvency

/-! # Locked collateral is always there

Both sides of a live position are backed by locked collateral, so that no settlement, novation or
substitution fails for lack of it. The parts of a handler that take nothing out of the locked balance
cannot end with that error; the parts that do find enough.
-/

namespace Polyleverage

open Machine

/-- The error of a locked balance that is too small. -/
@[reducible] def ProgramError.isLocked : ProgramError → Bool
  | .custom .insufficientLockedCollateral => true
  | _ => false

/-! ### Parts that take nothing out of the locked balance -/

section Sparing

variable {α : Type}

theorem sparing_loadAs {found : Option α} {length : ℕ} {missing : PolyleverageError} {d : AccountData}
    (other : ProgramError.isLocked missing = false) :
    Exec.Sparing ProgramError.isLocked (d.loadAs found length missing) where
  spares e failed := by
    unfold AccountData.loadAs at failed
    cases found with
    | some a => cases failed
    | none =>
      cases failed
      split
      · exact other
      · rfl

instance (d : AccountData) : Exec.Sparing ProgramError.isLocked d.loadProgramConfig := sparing_loadAs rfl

instance (d : AccountData) : Exec.Sparing ProgramError.isLocked d.loadMargin := sparing_loadAs rfl

instance (d : AccountData) : Exec.Sparing ProgramError.isLocked d.loadInstrument := sparing_loadAs rfl

instance (d : AccountData) : Exec.Sparing ProgramError.isLocked d.loadPmlc := sparing_loadAs rfl

instance (d : AccountData) : Exec.Sparing ProgramError.isLocked d.loadMarketNonce := sparing_loadAs rfl

instance (d : AccountData) : Exec.Sparing ProgramError.isLocked d.loadBook where
  spares e failed := by
    unfold AccountData.loadBook at failed
    split at failed
    · cases failed
    · cases failed
      split <;> rfl

instance (value : Option α) : Exec.Sparing ProgramError.isLocked (orOverflow value) := by
  unfold orOverflow
  split <;> infer_instance

instance (entryFp markFp sizeFp : ℕ) : Exec.Sparing ProgramError.isLocked (pnlLongAtoms entryFp markFp sizeFp) := by
  unfold pnlLongAtoms
  infer_instance

instance (outcomeBps : ℕ) : Exec.Sparing ProgramError.isLocked (finalMark outcomeBps) := by
  unfold finalMark
  infer_instance

instance (p : Pmlc) (outcomeBps finalFp : ℕ) : Exec.Sparing ProgramError.isLocked (resolvePnl p outcomeBps finalFp) := by
  unfold resolvePnl
  infer_instance

instance (m : MarginAccount) (owner mint : Pubkey) (bump : ℕ) :
    Exec.Sparing ProgramError.isLocked (m.requireIdentity owner mint bump) := by
  unfold MarginAccount.requireIdentity
  infer_instance

instance (m : MarginAccount) (owner mint : Pubkey) : Exec.Sparing ProgramError.isLocked (m.requireOwner owner mint) := by
  unfold MarginAccount.requireOwner
  infer_instance

instance (c : InstrumentConfig) : Exec.Sparing ProgramError.isLocked c.requireActive := by
  unfold InstrumentConfig.requireActive
  infer_instance

instance (p : Pmlc) : Exec.Sparing ProgramError.isLocked p.requireLive := by
  unfold Pmlc.requireLive
  infer_instance

section Attestations

variable (att : Attestation)

instance (bytes : List UInt8) : Exec.Sparing ProgramError.isLocked (Attestation.parse bytes) where
  spares e failed := by
    unfold Attestation.parse at failed
    split at failed
    · split at failed <;> cases failed
      rfl
    · cases failed
      rfl

instance (type offset length : ℕ) : Exec.Sparing ProgramError.isLocked (att.payload type offset length) := by
  unfold Attestation.payload
  infer_instance

instance : Exec.Sparing ProgramError.isLocked att.priceFp := by
  unfold Attestation.priceFp
  infer_instance

instance : Exec.Sparing ProgramError.isLocked att.twapWindowSlots := by
  unfold Attestation.twapWindowSlots
  infer_instance

instance : Exec.Sparing ProgramError.isLocked att.finalOutcomeBps := by
  unfold Attestation.finalOutcomeBps
  infer_instance

instance : Exec.Sparing ProgramError.isLocked att.breachPmlcPubkey := by
  unfold Attestation.breachPmlcPubkey
  infer_instance

instance : Exec.Sparing ProgramError.isLocked att.breachMarkFp := by
  unfold Attestation.breachMarkFp
  infer_instance

instance : Exec.Sparing ProgramError.isLocked att.breachUnixTs := by
  unfold Attestation.breachUnixTs
  infer_instance

instance (market last now staleness : ℕ) :
    Exec.Sparing ProgramError.isLocked (att.validateFreshnessAndNonce market last now staleness) := by
  unfold Attestation.validateFreshnessAndNonce
  infer_instance

instance (pmlc : Pubkey) (now : ℕ) : Exec.Sparing ProgramError.isLocked (checkBreach att pmlc now) := by
  unfold checkBreach
  infer_instance

instance (data : List UInt8) (key : Pubkey) :
    Exec.Sparing ProgramError.isLocked (extractVerifiedEd25519Message data key) := by
  unfold extractVerifiedEd25519Message
  split
  · infer_instance
  · split
    · infer_instance
    · split
      · infer_instance
      · split <;> infer_instance

end Attestations

section Books

variable (b : IntentBook) (id first : ℕ)

instance (nodes : List RawNode) : Exec.Sparing ProgramError.isLocked (Book.findIntentFrom id first nodes) := by
  induction nodes generalizing first with
  | nil =>
    unfold Book.findIntentFrom
    infer_instance
  | cons raw rest ih =>
    cases raw <;> unfold Book.findIntentFrom <;> infer_instance

instance : Exec.Sparing ProgramError.isLocked (Book.findIntentById b id) := by
  unfold Book.findIntentById
  infer_instance

instance (i : ℕ) : Exec.Sparing ProgramError.isLocked (b.intent i) := by
  unfold IntentBook.intent
  split <;> infer_instance

instance (i : ℕ) : Exec.Sparing ProgramError.isLocked (b.seat i) := by
  unfold IntentBook.seat
  split <;> infer_instance

instance (longId shortId now : ℕ) : Exec.Sparing ProgramError.isLocked (Book.findPair longId shortId now b) := by
  unfold Book.findPair
  infer_instance

instance (feeBuffer before fill : ℕ) :
    Exec.Sparing ProgramError.isLocked (Book.releaseFeeBufferForFill feeBuffer before fill) := by
  unfold Book.releaseFeeBufferForFill
  infer_instance

instance (node : IntentNode) : Exec.Sparing ProgramError.isLocked (Book.fillRelease node) := by
  unfold Book.fillRelease
  infer_instance

instance (bucket : ℕ) (p : Book.Pair) : Exec.Sparing ProgramError.isLocked (Book.consume bucket p) := by
  have reserved : ∀ v, Exec.Sparing ProgramError.isLocked (Book.consume.insufficientReserved v) := by
    intro v
    unfold Book.consume.insufficientReserved
    split <;> infer_instance
  have buffered : ∀ v, Exec.Sparing ProgramError.isLocked (Book.consume.underflow v) := by
    intro v
    unfold Book.consume.underflow
    split <;> infer_instance
  unfold Book.consume
  infer_instance

instance (withSettle : Bool) (p : Pmlc) (bucket : ℕ) (c : SubstitutionCtx) :
    Exec.Sparing ProgramError.isLocked (substitutionDelta withSettle p bucket c) := by
  unfold substitutionDelta
  infer_instance

end Books

end Sparing

section Avoiding

variable {rt : Runtime} {inv : rt.Invocation}

instance (k : Pubkey) : Exec.Avoiding ProgramError.isLocked (assertSigner rt inv k) := by
  unfold assertSigner
  infer_instance

instance (k : Pubkey) : Exec.Avoiding ProgramError.isLocked (assertWritable rt inv k) := by
  unfold assertWritable
  infer_instance

instance (keys : List Pubkey) : Exec.Avoiding ProgramError.isLocked (assertOwned rt keys) := by
  unfold assertOwned
  infer_instance

instance (seeds : Seeds) (k : Pubkey) : Exec.Avoiding ProgramError.isLocked (assertPda rt seeds k) := by
  unfold assertPda
  infer_instance

instance {τ : Type} (view : AccountData → Except ProgramError τ) (k : Pubkey)
    [∀ d, Exec.Sparing ProgramError.isLocked (view d)] : Exec.Avoiding ProgramError.isLocked (load view k) := by
  unfold load
  infer_instance

instance (owner mint k : Pubkey) : Exec.Avoiding ProgramError.isLocked (validateMargin rt owner mint k) := by
  unfold validateMargin
  infer_instance

instance (config : Pubkey) : Exec.Avoiding ProgramError.isLocked (loadUnpaused config) := by
  unfold loadUnpaused
  infer_instance

instance (sysvar key : Pubkey) (index : ℕ) :
    Exec.Avoiding ProgramError.isLocked (verifyViaEd25519Sysvar rt inv sysvar key index) := by
  unfold verifyViaEd25519Sysvar
  infer_instance

instance (cfg : ProgramConfig) (sysvar : Pubkey) (index type : ℕ) :
    Exec.Avoiding ProgramError.isLocked (loadAttestation rt inv cfg sysvar index type) := by
  unfold loadAttestation
  infer_instance

instance (pmlc instrument : Pubkey) (inst : InstrumentConfig) :
    Exec.Avoiding ProgramError.isLocked (loadLivePmlc pmlc instrument inst) := by
  unfold loadLivePmlc
  infer_instance

instance (att : Attestation) (inst : InstrumentConfig) (now : ℕ)
    (record : MarketNonceAccount → Except ProgramError MarketNonceAccount)
    [∀ n, Exec.Sparing ProgramError.isLocked (record n)] :
    Exec.Avoiding ProgramError.isLocked (acceptAttestation att inst now record) := by
  unfold acceptAttestation
  infer_instance

instance {α τ : Type} (view : AccountData → Except ProgramError τ) (data : τ → AccountData) (k : Pubkey)
    (m : Exec ProgramError τ α) [spares : ∀ d, Exec.Sparing ProgramError.isLocked (view d)]
    [avoids : Exec.Avoiding ProgramError.isLocked m] : Exec.Avoiding ProgramError.isLocked (atAccount rt inv view data k m) where
  avoids s e t failed := by
    rcases atAccount_err failed with ⟨-, misread⟩ | ⟨x, y, -, inner, -⟩
    · exact (spares (s.data k)).spares _ misread
    · exact avoids.avoids _ _ _ inner

end Avoiding

/-! ### Parts that find enough -/

/-- The error that is ruled out. -/
abbrev lockedError : ProgramError := PolyleverageError.insufficientLockedCollateral

theorem isLocked_lockedError : lockedError.isLocked = true := rfl

section Debits

variable {m m' : MarginAccount} {c : ℕ} {e : ProgramError}

instance (bucket : Bucket) (amount : ℕ) : Exec.Avoiding ProgramError.isLocked (MarginAccount.credit bucket amount) := by
  unfold MarginAccount.credit
  infer_instance

instance (amount : ℕ) : Exec.Avoiding ProgramError.isLocked (MarginAccount.creditFree amount) := by
  unfold MarginAccount.creditFree
  infer_instance

instance (pnl : ℤ) : Exec.Avoiding ProgramError.isLocked (MarginAccount.addRealizedPnl pnl) := by
  unfold MarginAccount.addRealizedPnl
  infer_instance

instance (pnl : ℤ) : Exec.Avoiding ProgramError.isLocked (MarginAccount.subRealizedPnl pnl) := by
  unfold MarginAccount.subRealizedPnl
  infer_instance

theorem avoiding_debit {bucket : Bucket} (amount : ℕ) (other : ProgramError.isLocked bucket.insufficient = false) :
    Exec.Avoiding ProgramError.isLocked (MarginAccount.debit bucket amount) := by
  have spares : Exec.IsFalse (ProgramError.isLocked bucket.insufficient) := ⟨other⟩
  unfold MarginAccount.debit
  infer_instance

instance (amount : ℕ) : Exec.Avoiding ProgramError.isLocked (MarginAccount.debitFree amount) := avoiding_debit amount rfl

theorem avoiding_move {source destination : Bucket} (amount : ℕ)
    (other : ProgramError.isLocked source.insufficient = false) :
    Exec.Avoiding ProgramError.isLocked (MarginAccount.move source destination amount) := by
  have avoids := avoiding_debit amount other
  unfold MarginAccount.move
  infer_instance

instance (amount : ℕ) : Exec.Avoiding ProgramError.isLocked (MarginAccount.moveReservedToFree amount) :=
  avoiding_move amount rfl

instance (amount : ℕ) : Exec.Avoiding ProgramError.isLocked (MarginAccount.moveReservedToLocked amount) :=
  avoiding_move amount rfl

/-- A debit fails only for lack of balance. -/
theorem debit_err {bucket : Bucket} {amount : ℕ} (failed : (MarginAccount.debit bucket amount).run m = .err e m') :
    m.balance bucket < amount := by
  rw [MarginAccount.debit, Exec.run_bind_get] at failed
  by_contra enough
  rw [not_lt] at enough
  have found : checkedSub (m.balance bucket) amount = some (m.balance bucket - amount) :=
    checkedSub_eq_some.mpr ⟨enough, rfl⟩
  rw [found] at failed
  cases failed

/-- An empty account has nothing locked. -/
example : ((MarginAccount.debitLocked 1).run (MarginAccount.init Sample.alice Sample.mint 255)).error? = some lockedError := by
  decide +kernel

/-- A program that starts with a debit of what is locked. -/
theorem debit_then {f : Unit → MarginM Unit} (enough : c ≤ m.lockedCollateral)
    [∀ u, Exec.Avoiding ProgramError.isLocked (f u)] : ((MarginAccount.debit .locked c >>= f).run m) ≠ .err lockedError m' := by
  intro failed
  rcases Exec.err_bind failed with first | ⟨u, mid, -, later⟩
  · have short := debit_err first
    change m.lockedCollateral < c at short
    omega
  · have avoided := (inferInstance : Exec.Avoiding ProgramError.isLocked (f u)).avoids _ _ _ later
    cases avoided

theorem debitLocked_ne_err (enough : c ≤ m.lockedCollateral) : (MarginAccount.debitLocked c).run m ≠ .err lockedError m' := by
  intro failed
  have short := debit_err failed
  change m.lockedCollateral < c at short
  omega

theorem settleSide_ne_err {equity : ℕ} (enough : c ≤ m.lockedCollateral) :
    (settleSide c equity).run m ≠ .err lockedError m' := debit_then enough

theorem moveLockedToFree_ne_err (enough : c ≤ m.lockedCollateral) :
    (MarginAccount.moveLockedToFree c).run m ≠ .err lockedError m' := debit_then enough

instance (owner mint : Pubkey) (movement : MarginM Unit) [Exec.Avoiding ProgramError.isLocked movement] :
    Exec.Avoiding ProgramError.isLocked (asOwner owner mint movement) := by
  unfold asOwner
  infer_instance

/-- A program that leaves the locked balance as it is, before another one. -/
theorem after_ne_err {f : Unit → MarginM Unit} {movement : MarginM Unit} [Exec.Avoiding ProgramError.isLocked movement]
    (same : ∀ m1, movement.run m = .ok () m1 → m1.lockedCollateral = m.lockedCollateral)
    (next : ∀ m1, m1.lockedCollateral = m.lockedCollateral → (f ()).run m1 ≠ .err lockedError m') :
    (movement >>= f).run m ≠ .err lockedError m' := by
  intro failed
  obtain ⟨_, m1, ran, failed⟩ := Exec.err_bind_avoiding ProgramError.isLocked isLocked_lockedError failed
  exact next m1 (same m1 ran) failed

theorem MarginStep.locked_eq {total reserved : ℤ} (step : MarginStep m m' total reserved 0) :
    m'.lockedCollateral = m.lockedCollateral := by
  have locked := step.locked
  omega

theorem leaveSide_ne_err {release : ℕ} {delta : ℤ} (enough : c ≤ m.lockedCollateral) :
    (leaveSide c release delta).run m ≠ .err lockedError m' := by
  apply after_ne_err
  · intro m1 ran
    exact (marginStep_moveReservedToFree ran).locked_eq
  intro m1 first
  apply after_ne_err
  · intro m2 ran
    rcases Exec.when_ok.mp ran with ⟨-, ran⟩ | ⟨-, rfl⟩
    · exact (marginStep_moveReservedToFree ran).locked_eq
    · rfl
  intro m2 second
  have there : c ≤ m2.lockedCollateral := by omega
  intro failed
  rcases Exec.err_bind failed with moved | ⟨u, mid, -, later⟩
  · exact moveLockedToFree_ne_err there moved
  · have avoided := (inferInstance : Exec.Avoiding ProgramError.isLocked _).avoids _ _ _ later
    cases avoided

instance (bucket release : ℕ) (delta : ℤ) : Exec.Avoiding ProgramError.isLocked (enterSide bucket release delta) := by
  unfold enterSide
  infer_instance

instance (amount : ℕ) : Exec.Avoiding ProgramError.isLocked (takeOver amount) := by
  unfold takeOver MarginAccount.creditLocked
  infer_instance

theorem asOwner_ne_err {owner mint : Pubkey} {movement : MarginM Unit}
    (fine : ∀ m', movement.run m ≠ .err lockedError m') : (asOwner owner mint movement).run m ≠ .err lockedError m' := by
  intro failed
  rw [asOwner, Exec.run_bind_get] at failed
  obtain ⟨_, mid, ran, failed⟩ := Exec.err_bind_avoiding ProgramError.isLocked isLocked_lockedError failed
  obtain ⟨-, rfl⟩ := Exec.ofExcept_ok.mp ran
  exact fine _ failed

end Debits

section Handlers

variable {rt : Runtime} {inv : rt.Invocation} {s t : Ledger} {k : Pubkey} {c : ℕ} {m l : MarginAccount}

theorem atMargin_ne_err {movement : MarginM Unit} (held : s.data k = .marginAccount m)
    (fine : ∀ m', movement.run m ≠ .err lockedError m') : (atMargin rt inv k movement).run s ≠ .err lockedError t := by
  intro failed
  rcases atAccount_err failed with ⟨-, misread⟩ | ⟨x, y, found, inner, -⟩
  · rw [AccountData.loadMargin_ok.mpr held] at misread
    cases misread
  · rw [AccountData.loadMargin_ok.mpr held] at found
    cases found
    exact fine _ inner

/-- A movement of one account, then of another one. -/
theorem atMargin_then {j : Pubkey} {first second : MarginM Unit} (different : k ≠ j)
    (heldK : s.data k = .marginAccount l) (heldJ : s.data j = .marginAccount m)
    (fineK : ∀ m', first.run l ≠ .err lockedError m') (fineJ : ∀ m', second.run m ≠ .err lockedError m') {rest : LedgerM Unit}
    [Exec.Avoiding ProgramError.isLocked rest] :
    (do atMargin rt inv k first; atMargin rt inv j second; rest : LedgerM Unit).run s ≠ .err lockedError t := by
  intro failed
  rcases Exec.err_bind failed with wrong | ⟨_, u, ran, failed⟩
  · exact atMargin_ne_err heldK fineK wrong
  obtain ⟨x, y, -, -, rfl⟩ := atMargin_ok ran
  have still : (s.setData k (.marginAccount y)).data j = .marginAccount m := by
    rw [Ledger.data_setData_of_ne s _ different.symm, heldJ]
  rcases Exec.err_bind failed with wrong | ⟨_, u, ran, failed⟩
  · exact atMargin_ne_err still fineJ wrong
  · have avoided := (inferInstance : Exec.Avoiding ProgramError.isLocked rest).avoids _ _ _ failed
    cases avoided

instance (k : Pubkey) (movement : MarginM Unit) [Exec.Avoiding ProgramError.isLocked movement] :
    Exec.Avoiding ProgramError.isLocked (atMargin rt inv k movement) := by
  unfold atMargin
  infer_instance

instance (pmlc : Pubkey) (status reason : ℕ) :
    Exec.Avoiding ProgramError.isLocked (closePmlcWith rt inv pmlc status reason) := by
  unfold closePmlcWith updateAccount
  infer_instance

instance (pmlc : Pubkey) (side : ℕ) (owner : Pubkey) :
    Exec.Avoiding ProgramError.isLocked (handOver rt inv pmlc side owner) := by
  unfold handOver updateAccount
  infer_instance

/-- The locked balance of each owner of a live position covers its collateral. -/
def LockCovers (rt : Runtime) (s : Ledger) : Prop :=
  ∀ j p owner m, s.owner j = rt.programId → s.data j = .pmlc p → p.status = PMLC_STATUS_LIVE →
    p.longOwner = owner ∨ p.shortOwner = owner → s.owner (rt.address (.margin owner p.collateralMint)) = rt.programId →
    s.data (rt.address (.margin owner p.collateralMint)) = .marginAccount m → p.collateralPerSide ≤ m.lockedCollateral

theorem settleBoth_ne_err {long short : Pubkey} {equity : ℕ × ℕ} (heldL : s.data long = .marginAccount l)
    (heldS : s.data short = .marginAccount m) (enoughL : c ≤ l.lockedCollateral) (enoughS : c ≤ m.lockedCollateral) :
    (settleBoth rt inv long short c equity).run s ≠ .err lockedError t := by
  intro failed
  rcases Exec.err_bind failed with wrong | ⟨_, u, ran, failed⟩
  · exact atMargin_ne_err heldL (fun _ => settleSide_ne_err enoughL) wrong
  obtain ⟨x, y, -, -, rfl⟩ := atMargin_ok ran
  rw [Exec.err_bind_check ProgramError.isLocked isLocked_lockedError] at failed
  obtain ⟨_, different, failed⟩ := failed
  have still : (s.setData long (.marginAccount y)).data short = .marginAccount m := by
    rw [Ledger.data_setData_of_ne s _ (Ne.symm different), heldS]
  exact atMargin_ne_err still (fun _ => settleSide_ne_err enoughS) failed

theorem payWinner_ne_err {winner loser long short : Pubkey} {bounty : ℕ} (heldL : s.data long = .marginAccount l)
    (heldS : s.data short = .marginAccount m) (enoughL : c ≤ l.lockedCollateral) (enoughS : c ≤ m.lockedCollateral) :
    (payWinner rt inv winner loser long short c bounty).run s ≠ .err lockedError t := by
  intro failed
  rw [payWinner, Exec.err_bind_check ProgramError.isLocked isLocked_lockedError] at failed
  obtain ⟨_, different, failed⟩ := failed
  exact atMargin_then different heldL heldS (fun _ => debitLocked_ne_err enoughL) (fun _ => debitLocked_ne_err enoughS) failed

variable {offset : UInt8} {p : Pmlc} {inst : InstrumentConfig} {nonce : Pubkey} {n : MarketNonceAccount}

/-- The margin accounts that a settlement found after it spent its attestation. -/
theorem LockCovers.both (covers : LockCovers rt s) {pmlc long short : Pubkey}
    (owned : ∀ j ∈ [pmlc, long, short], s.owner j = rt.programId)
    (pmlc_eq : (s.setData nonce (.marketNonce n)).data pmlc = .pmlc p) (live : p.status = PMLC_STATUS_LIVE)
    (mint_of : p.collateralMint = inst.collateralMint)
    (long_address : rt.address (.margin p.longOwner inst.collateralMint) = long)
    (long_eq : (s.setData nonce (.marketNonce n)).data long = .marginAccount l)
    (short_address : rt.address (.margin p.shortOwner inst.collateralMint) = short)
    (short_eq : (s.setData nonce (.marketNonce n)).data short = .marginAccount m) :
    p.collateralPerSide ≤ l.lockedCollateral ∧ p.collateralPerSide ≤ m.lockedCollateral := by
  have before := data_of_setData pmlc_eq (by simp)
  have longBefore := data_of_setData long_eq (by simp)
  have shortBefore := data_of_setData short_eq (by simp)
  rw [← mint_of] at long_address short_address
  subst long_address short_address
  constructor
  · exact covers pmlc p _ l (owned _ (by simp)) before live (.inl rfl) (owned _ (by simp)) longBefore
  · exact covers pmlc p _ m (owned _ (by simp)) before live (.inr rfl) (owned _ (by simp)) shortBefore

theorem processResolve_ne_err (covers : LockCovers rt s) : (processResolve rt inv offset).run s ≠ .err lockedError t := by
  intro failed
  unfold processResolve at failed
  split at failed
  next caller config sysvar instrument pmlc nonce longMargin shortMargin rest _ =>
    simp only [Exec.err_bind_check ProgramError.isLocked isLocked_lockedError, exists_const] at failed
    obtain ⟨-, -, -, -, -, owned, cfg, -, inst, -, att, -, _, -, failed⟩ := failed
    obtain ⟨_, u, wrote, failed⟩ := Exec.err_bind_avoiding ProgramError.isLocked isLocked_lockedError failed
    obtain ⟨n, n', -, -, rfl, -⟩ := atAccount_ok wrote
    simp only [Exec.err_bind_check ProgramError.isLocked isLocked_lockedError, exists_const] at failed
    obtain ⟨outcome, -, finalFp, -, p, ⟨pmlc_eq, live, -, -, mint_of⟩, pnl, -, ⟨long_address, l, long_eq, -⟩,
      ⟨short_address, m, short_eq, -⟩, failed⟩ := failed
    obtain ⟨enoughL, enoughS⟩ := covers.both (fun j member => owned j (by simp at member ⊢; tauto)) pmlc_eq live mint_of
      long_address long_eq short_address short_eq
    rcases Exec.err_bind failed with wrong | ⟨_, _, -, later⟩
    · exact settleBoth_ne_err long_eq short_eq enoughL enoughS wrong
    · have avoided := (inferInstance : Exec.Avoiding ProgramError.isLocked _).avoids _ _ _ later
      cases avoided
  · cases failed

theorem processCloseMutual_ne_err (covers : LockCovers rt s) :
    (processCloseMutual rt inv offset).run s ≠ .err lockedError t := by
  intro failed
  unfold processCloseMutual at failed
  split at failed
  next longOwner shortOwner config sysvar instrument pmlc nonce longMargin shortMargin rest _ =>
    simp only [Exec.err_bind_check ProgramError.isLocked isLocked_lockedError, exists_const] at failed
    obtain ⟨-, -, -, -, -, -, owned, -, cfg, -, inst, -, att, -, window, -, -, _, -, failed⟩ := failed
    obtain ⟨_, u, wrote, failed⟩ := Exec.err_bind_avoiding ProgramError.isLocked isLocked_lockedError failed
    obtain ⟨n, n', -, -, rfl, -⟩ := atAccount_ok wrote
    simp only [Exec.err_bind_check ProgramError.isLocked isLocked_lockedError, exists_const, not_or, not_not] at failed
    obtain ⟨mark, -, p, ⟨pmlc_eq, live, -, -, mint_of⟩, ⟨rfl, rfl⟩, pnl, -, ⟨long_address, l, long_eq, -⟩,
      ⟨short_address, m, short_eq, -⟩, failed⟩ := failed
    obtain ⟨enoughL, enoughS⟩ := covers.both (fun j member => owned j (by simp at member ⊢; tauto)) pmlc_eq live mint_of
      long_address long_eq short_address short_eq
    rcases Exec.err_bind failed with wrong | ⟨_, _, -, later⟩
    · exact settleBoth_ne_err long_eq short_eq enoughL enoughS wrong
    · have avoided := (inferInstance : Exec.Avoiding ProgramError.isLocked _).avoids _ _ _ later
      cases avoided
  · cases failed

theorem processLiquidate_ne_err (covers : LockCovers rt s) :
    (processLiquidate rt inv offset).run s ≠ .err lockedError t := by
  intro failed
  unfold processLiquidate at failed
  split at failed
  next keeper config sysvar instrument pmlc nonce longMargin shortMargin keeperMargin rest _ =>
    simp only [Exec.err_bind_check ProgramError.isLocked isLocked_lockedError, exists_const] at failed
    obtain ⟨-, -, -, -, -, -, owned, -, cfg, -, inst, -, -, att, -, -, _, -, failed⟩ := failed
    obtain ⟨_, u, wrote, failed⟩ := Exec.err_bind_avoiding ProgramError.isLocked isLocked_lockedError failed
    obtain ⟨n, n', -, -, rfl, -⟩ := atAccount_ok wrote
    simp only [Exec.err_bind_check ProgramError.isLocked isLocked_lockedError, exists_const] at failed
    obtain ⟨mark, -, p, ⟨pmlc_eq, live, -, -, mint_of⟩, pnl, -, -, ⟨long_address, l, long_eq, -⟩,
      ⟨short_address, m, short_eq, -⟩, failed⟩ := failed
    obtain ⟨enoughL, enoughS⟩ := covers.both (fun j member => owned j (by simp at member ⊢; tauto)) pmlc_eq live mint_of
      long_address long_eq short_address short_eq
    -- Whoever wins, both sides are debited first.
    split at failed
    all_goals
      rcases Exec.err_bind failed with wrong | ⟨_, _, -, later⟩
      · exact payWinner_ne_err long_eq short_eq enoughL enoughS wrong
      · have avoided := (inferInstance : Exec.Avoiding ProgramError.isLocked _).avoids _ _ _ later
        cases avoided
  · cases failed

theorem processNovate_ne_err {side : UInt8} (covers : LockCovers rt s) :
    (processNovate rt inv side).run s ≠ .err lockedError t := by
  intro failed
  unfold processNovate at failed
  split at failed
  next currentOwner newOwner config instrument pmlc currentMargin newMargin rest _ =>
    simp only [Exec.err_bind_check ProgramError.isLocked isLocked_lockedError, exists_const, not_not] at failed
    obtain ⟨-, -, -, -, -, owned, cfg, -, isSide, p, pmlc_eq, live, owner_eq, inst, -, -, -, _, ⟨rfl, -⟩, _, -,
      failed⟩ := failed
    rcases Exec.err_bind failed with wrong | ⟨_, u, ran, later⟩
    · -- The side that is novated is a side of the position.
      rcases atAccount_err wrong with ⟨-, misread⟩ | ⟨x, y, found, inner, -⟩
      · have spared := (inferInstance : Exec.Sparing ProgramError.isLocked (AccountData.loadMargin _)).spares _ misread
        cases spared
      · have held := AccountData.loadMargin_ok.mp found
        refine asOwner_ne_err (fun _ => moveLockedToFree_ne_err ?_) inner
        refine covers pmlc p currentOwner x (owned _ (by simp)) pmlc_eq (Pmlc.requireLive_ok.mp live) ?_
          (owned _ (by simp)) held
        unfold Pmlc.owner at owner_eq
        split at owner_eq
        · exact .inl owner_eq
        · exact .inr owner_eq
    · have avoided := (inferInstance : Exec.Avoiding ProgramError.isLocked _).avoids _ _ _ later
      cases avoided
  · cases failed

/-- The book part of a substitution: what is found can be written back. -/
theorem substituteInBook_ne_err {b b' : IntentBook} {bucket longId shortId now : ℕ} (sound : Sound bucket b)
    (substitutor : Pubkey) (p : Pmlc) :
    (substituteInBook substitutor p bucket longId shortId now).run b ≠ .err lockedError b' := by
  intro failed
  simp only [substituteInBook, Exec.err_bind_check ProgramError.isLocked isLocked_lockedError, exists_const] at failed
  obtain ⟨pair, paired, -, longSeat, -, shortSeat, -, -, -, ⟨filled, longRelease, shortRelease⟩, consumed, failed⟩ := failed
  obtain ⟨found, -, -⟩ := (Book.findPair_ok sound.consistent).mp paired
  obtain ⟨b1, -, -, written, -⟩ := exists_filled sound found consumed
  rw [Exec.run_bind_of_ok written] at failed
  cases failed

theorem doSubstitute_ne_err {args : MatchPairArgs} {withSettle : Bool} (genuine : Genuine rt s) (books : Books rt s)
    (covers : LockCovers rt s) : (doSubstitute rt inv args withSettle).run s ≠ .err lockedError t := by
  intro failed
  unfold doSubstitute at failed
  split at failed
  next substitutor instrument book pmlc substitutorMargin counterpartyMargin rest _ =>
    simp only [Exec.err_bind_check ProgramError.isLocked isLocked_lockedError, exists_const, not_not] at failed
    obtain ⟨-, -, -, -, -, owned, inst, instrument_eq, -, book_eq, p, pmlc_eq, live, instrument_of, bucket_eq,
      failed⟩ := failed
    have owned_instrument : s.owner instrument = rt.programId := owned _ (by simp)
    have listed := listed_of_load owned_instrument instrument_eq
    obtain ⟨c', listed', mint_eq, -, -⟩ := (genuine.pmlc_ok (owned _ (by simp)) pmlc_eq).2
    rw [instrument_of] at listed'
    have mint_of : p.collateralMint = inst.collateralMint := by rw [mint_eq, ← listed.unique listed']
    rcases Exec.err_bind failed with wrong | ⟨c, u, ran, failed⟩
    · rcases atAccount_err wrong with ⟨-, misread⟩ | ⟨b, b', found, inner, -⟩
      · have spared := (inferInstance : Exec.Sparing ProgramError.isLocked (AccountData.loadBook _)).spares _ misread
        cases spared
      · have sound := (genuine.sound_of_listed books listed book_eq (owned _ (by simp))
          (AccountData.loadBook_ok.mp found)).2
        exact substituteInBook_ne_err sound substitutor p inner
    · obtain ⟨b, b', found, inner, rfl, -⟩ := atAccount_ok ran
      have sound := (genuine.sound_of_listed books listed book_eq (owned _ (by simp))
        (AccountData.loadBook_ok.mp found)).2
      obtain ⟨-, owner_eq, -⟩ := bookStep_substituteInBook sound inner
      simp only [Exec.err_bind_check ProgramError.isLocked isLocked_lockedError] at failed
      obtain ⟨delta, -, _, ⟨rfl, -⟩, _, -, failed⟩ := failed
      rcases Exec.err_bind failed with wrong | ⟨_, u, ran, later⟩
      · rcases atAccount_err wrong with ⟨-, misread⟩ | ⟨x, y, read, left, -⟩
        · have spared := (inferInstance : Exec.Sparing ProgramError.isLocked (AccountData.loadMargin _)).spares _ misread
          cases spared
        · have held := data_of_setData (AccountData.loadMargin_ok.mp read) (by simp)
          refine asOwner_ne_err (fun _ => leaveSide_ne_err ?_) left
          rw [← bucket_eq]
          rw [← mint_of] at held owned
          refine covers pmlc p substitutor x (owned _ (by simp)) pmlc_eq (Pmlc.requireLive_ok.mp live) ?_
            (owned _ (by simp)) held
          unfold Pmlc.owner at owner_eq
          split at owner_eq
          · exact .inl owner_eq
          · exact .inr owner_eq
      · have avoided := (inferInstance : Exec.Avoiding ProgramError.isLocked _).avoids _ _ _ later
        cases avoided
  · cases failed

end Handlers

/-! ### Every reachable ledger -/

namespace Instruction

/-- The instruction settles a position or hands one of its sides over. -/
def movesPosition : Instruction → Bool
  | liquidate _ | resolve _ | closeMutual _ | novate _ | matchSubstitute _ | matchSubstituteWithSettle _ => true
  | _ => false

end Instruction

section Reachable

variable {rt : Runtime} {s t : Ledger}

/-- What is locked agrees with the live positions and covers each of them. -/
theorem lockCovers_of_reachable (reached : Reachable rt (fun instr => instr.triesMatch = false) s) : LockCovers rt s := by
  intro j p owner m owned found live side ownedM heldM
  have agree := lock_gap_eq_zero reached owner p.collateralMint
  have bound := Ledger.le_holdings (μ := AccountData.held owner p.collateralMint) owned
  rw [← agree, Ledger.marginBalance, if_pos ownedM, heldM, found] at bound
  simp only [AccountData.held, if_true, Pmlc.lockedFor, live, MarginAccount.balance] at bound
  rcases side with rfl | rfl
  · rw [if_pos rfl] at bound
    omega
  · rw [if_pos rfl (c := p.shortOwner = p.shortOwner)] at bound
    omega

/-- Locked collateral agrees with the live positions; each side of a live position is covered; and nothing
that is done with a live position fails for lack of locked collateral. -/
theorem locked_agrees
    (reached : Reachable rt (fun instr => instr.triesMatch = false ∧ instr.expands = false) s) :
    (∀ owner mint, s.marginBalance rt owner mint .locked = s.holdings rt (AccountData.held owner mint)) ∧
      (∀ j p, s.owner j = rt.programId → s.data j = .pmlc p → p.status = PMLC_STATUS_LIVE →
        p.lockedFor p.longOwner ≤ s.marginBalance rt p.longOwner p.collateralMint .locked ∧
        p.lockedFor p.shortOwner ≤ s.marginBalance rt p.shortOwner p.collateralMint .locked) ∧
      ∀ inv instr t, instr.movesPosition = true → (process rt inv instr).run s ≠ .err lockedError t := by
  have still := reached.mono fun _ may => may.1
  refine ⟨lock_gap_eq_zero still, fun j p owned found live => ?_, fun inv instr t moves => ?_⟩
  · have covered : ∀ owner, p.lockedFor owner ≤ s.marginBalance rt owner p.collateralMint .locked := by
      intro owner
      have bound := Ledger.le_holdings (μ := AccountData.held owner p.collateralMint) owned
      rw [← lock_gap_eq_zero still, found] at bound
      simpa [AccountData.held] using bound
    exact ⟨covered _, covered _⟩
  · have covers := lockCovers_of_reachable still
    cases instr with
    | liquidate offset => exact processLiquidate_ne_err covers
    | resolve offset => exact processResolve_ne_err covers
    | closeMutual offset => exact processCloseMutual_ne_err covers
    | novate side => exact processNovate_ne_err covers
    | matchSubstitute args =>
      exact doSubstitute_ne_err (genuine_of_reachable reached) (books_of_reachable (fun _ may => may.2) reached) covers
    | matchSubstituteWithSettle args =>
      exact doSubstitute_ne_err (genuine_of_reachable reached) (books_of_reachable (fun _ may => may.2) reached) covers
    | _ => cases moves

theorem locked_agrees_traded :
    (∀ owner mint, Sample.traded.marginBalance Runtime.sample owner mint .locked =
      Sample.traded.holdings Runtime.sample (AccountData.held owner mint)) ∧
    ∀ inv offset t, (process Runtime.sample inv (.resolve offset)).run Sample.traded ≠ .err lockedError t := by
  have may : ∀ c ∈ Sample.trading, c.instruction.triesMatch = false ∧ c.instruction.expands = false := by decide +kernel
  have agrees := locked_agrees (Sample.reachable may)
  exact ⟨agrees.1, fun inv offset t => agrees.2.2 inv (.resolve offset) t rfl⟩

end Reachable

end Polyleverage
