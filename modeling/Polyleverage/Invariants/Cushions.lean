import Polyleverage.Invariants.Charges
import Polyleverage.Invariants.FundMoves
import Polyleverage.Invariants.Posting
import Polyleverage.Invariants.SettleMoves
import Mathlib.Tactic.Linarith

/-! # What only the owner can spend

The cushion of a margin account is its free collateral less the charges that its reserve may still cost. A fill
takes one bucket out of the reserve and its charge out of the free collateral, a settlement takes what is locked, and
all the rest gives back. So the cushion falls only when its owner posts, re-enters, takes over or withdraws.
-/

namespace Polyleverage

open Machine

variable {rt : Runtime} {inv : rt.Invocation} {s t : Ledger} {k owner : Pubkey} {u : Unit} {unit charge : ℕ}

/-! ### One margin account -/

namespace MarginAccount

/-- The free collateral in units, less a charge for each unit that is reserved. -/
def cushion (unit charge : ℕ) (m : MarginAccount) : ℤ := unit * m.freeCollateral - charge * m.reservedCollateral

/-- The account is still the same one, and its cushion did not fall. -/
structure Cushions (unit charge : ℕ) (m m' : MarginAccount) : Prop where
  same : m.SameAccount m'
  le : m.cushion unit charge ≤ m'.cushion unit charge

instance : Std.Refl (Cushions unit charge) := ⟨fun m => ⟨.refl m, le_refl _⟩⟩

instance : IsTrans MarginAccount (Cushions unit charge) where
  trans _ _ _ first next := ⟨Trans.trans first.same next.same, le_trans first.le next.le⟩

/-! Collateral that becomes free or leaves the reserve or the lock does not reduce the cushion. -/

theorem cushions_setBalance {m : MarginAccount} {bucket : Bucket} {v : ℕ}
    (free : m.freeCollateral ≤ (m.setBalance bucket v).freeCollateral)
    (reserved : (m.setBalance bucket v).reservedCollateral ≤ m.reservedCollateral) :
    m.Cushions unit charge (m.setBalance bucket v) := by
  refine ⟨sameAccount_setBalance bucket v, ?_⟩
  have gains := Nat.mul_le_mul_left unit free
  have saves := Nat.mul_le_mul_left charge reserved
  rw [cushion, cushion]
  omega

instance (amount : ℕ) : Exec.Keeping (Cushions unit charge) (creditFree amount) where
  keeps := Exec.keeps_bind_get fun m m' left => by
    rcases Exec.left_bind_check left with rfl | ⟨v, sum, left⟩
    · exact Std.Refl.refl _
    · cases left
      obtain ⟨-, rfl⟩ := checkedAdd_eq_some.mp sum
      exact cushions_setBalance (by simp only [setBalance, balance]; omega) (by simp only [setBalance, balance]; omega)

instance (amount : ℕ) : Exec.Keeping (Cushions unit charge) (creditLocked amount) where
  keeps := Exec.keeps_bind_get fun m m' left => by
    rcases Exec.left_bind_check left with rfl | ⟨v, -, left⟩
    · exact Std.Refl.refl _
    · cases left
      exact cushions_setBalance le_rfl le_rfl

instance (amount : ℕ) : Exec.Keeping (Cushions unit charge) (debit .reserved amount) where
  keeps := Exec.keeps_bind_get fun m m' left => by
    rcases Exec.left_bind_check left with rfl | ⟨v, difference, left⟩
    · exact Std.Refl.refl _
    · cases left
      obtain ⟨-, rfl⟩ := checkedSub_eq_some.mp difference
      exact cushions_setBalance (by simp only [setBalance, balance]; omega) (by simp only [setBalance, balance]; omega)

instance (amount : ℕ) : Exec.Keeping (Cushions unit charge) (debitLocked amount) where
  keeps := Exec.keeps_bind_get fun m m' left => by
    rcases Exec.left_bind_check left with rfl | ⟨v, -, left⟩
    · exact Std.Refl.refl _
    · cases left
      exact cushions_setBalance le_rfl le_rfl

instance (pnl : ℤ) :
    Exec.Keeping (Cushions unit charge) (addRealizedPnl pnl) := ⟨Exec.keeps_modify fun _ => ⟨⟨rfl, rfl, rfl⟩, le_refl _⟩⟩

instance (pnl : ℤ) :
    Exec.Keeping (Cushions unit charge) (subRealizedPnl pnl) := ⟨Exec.keeps_modify fun _ => ⟨⟨rfl, rfl, rfl⟩, le_refl _⟩⟩

instance (amount : ℕ) : Exec.Keeping (Cushions unit charge) (moveReservedToFree amount) :=
  inferInstanceAs (Exec.Keeping (Cushions unit charge) (debit .reserved amount >>= fun _ => creditFree amount))

instance (amount : ℕ) : Exec.Keeping (Cushions unit charge) (moveReservedToLocked amount) :=
  inferInstanceAs (Exec.Keeping (Cushions unit charge) (debit .reserved amount >>= fun _ => creditLocked amount))

/-- A payment out of the free collateral is made in full or not at all. -/
theorem left_when_debitFree {m m' : MarginAccount} {fee : ℕ}
    (left : m' ∈ ((Exec.when (0 < fee) (debitFree fee)).run m).state?) :
    m' = m ∨ (Exec.when (0 < fee) (debitFree fee)).run m = .ok () m' := by
  have once : Exec.Keeps (fun m m' => m' = m ∨ (debitFree fee).run m = .ok () m') (debitFree fee) :=
    Exec.keeps_bind_get fun m m' left => by
      rcases Exec.left_bind_check left with rfl | ⟨v, difference, left⟩
      · exact .inl rfl
      · cases left
        obtain ⟨enough, rfl⟩ := checkedSub_eq_some.mp difference
        exact .inr (debit_ok.mpr ⟨enough, rfl⟩)
  unfold Exec.when at left ⊢
  split at left
  next some => rw [if_pos some]; exact once m m' left
  next none => exact .inl (Option.some.inj left).symm

end MarginAccount

section Movements

open MarginAccount

variable {m m' : MarginAccount} {perSide release fee : ℕ} {total reserved locked delta : ℤ}

/-- What leaves the reserve counts twice, because it is missing from the cushion already. -/
theorem MarginStep.cushions (step : MarginStep m m' total reserved locked)
    (enough : (unit + charge) * reserved + unit * locked ≤ unit * total) : m.Cushions unit charge m' := by
  refine ⟨step.same, ?_⟩
  have totals := step.total
  have reserves := step.reserved
  have locks := step.locked
  rw [MarginAccount.total, MarginAccount.total] at totals
  have free : (m'.freeCollateral : ℤ) = m.freeCollateral + (total - reserved - locked) := by omega
  rw [MarginAccount.cushion, MarginAccount.cushion, free, reserves]
  linarith

/-- A fill frees the charge on its collateral. -/
theorem cushions_lockSide (covered : unit * fee ≤ charge * perSide) (ran : (lockSide perSide release fee).run m = .ok u m') :
    m.Cushions unit charge m' := by
  have released := Nat.zero_le ((unit + charge) * release)
  apply (marginStep_lockSide ran).cushions
  zify at covered released
  linarith

/-- Even a fill that fails half way leaves the cushion. -/
theorem cushions_of_left_lockSide (covered : unit * fee ≤ charge * perSide)
    (left : m' ∈ ((lockSide perSide release fee).run m).state?) :
    m.Cushions unit charge m' := by
  rw [lockSide] at left
  rcases Exec.left_bind left with ⟨e, failed⟩ | ⟨_, m1, first, left⟩
  · exact Exec.Keeping.keeps.err failed
  have locked : m.Cushions unit charge m1 := Exec.Keeping.keeps.ok first
  rcases Exec.left_bind left with ⟨e, failed⟩ | ⟨_, m2, second, left⟩
  · have released : m1.Cushions unit charge m' := Exec.Keeping.keeps.err failed
    exact Trans.trans locked released
  have released : m1.Cushions unit charge m2 := Exec.Keeping.keeps.ok second
  rcases left_when_debitFree left with rfl | paid
  · exact Trans.trans locked released
  · apply cushions_lockSide covered
    rw [lockSide, Exec.run_bind_of_ok first, Exec.run_bind_of_ok second, paid]

theorem cushions_enterSide (covered : unit * delta ≤ charge * perSide) (fits : delta.natAbs < 2 ^ 64)
    (ran : (enterSide perSide release delta).run m = .ok u m') : m.Cushions unit charge m' := by
  have released := Nat.zero_le ((unit + charge) * release)
  apply (marginStep_enterSide fits ran).cushions
  zify at released
  linarith

end Movements

/-! ### The margin accounts of an owner -/

/-- The owner's margin accounts are still there, and no cushion fell. -/
def Cushioned (unit charge : ℕ) (owner : Pubkey) (s t : Ledger) : Prop :=
  ∀ k o m, s.get k = ⟨o, .marginAccount m⟩ → m.owner = owner →
    ∃ m', t.get k = ⟨o, .marginAccount m'⟩ ∧ m.Cushions unit charge m'

instance : Std.Refl (Cushioned unit charge owner) := ⟨fun _ _ _ m held _ => ⟨m, held, Std.Refl.refl m⟩⟩

theorem Cushioned.trans {v : Ledger} (first : Cushioned unit charge owner s t) (next : Cushioned unit charge owner t v) :
    Cushioned unit charge owner s v := by
  intro k o m held mine
  obtain ⟨m1, held1, cushions1⟩ := first k o m held mine
  obtain ⟨m2, held2, cushions2⟩ := next k o m1 held1 (cushions1.same.1.trans mine)
  exact ⟨m2, held2, Trans.trans cushions1 cushions2⟩

instance : IsTrans Ledger (Cushioned unit charge owner) := ⟨fun _ _ _ => Cushioned.trans⟩

theorem cushioned_of_touches {old new : List AccountKind} (touches : Touches old new s t)
    (unwritten : AccountKind.marginAccount ∉ old) : Cushioned unit charge owner s t := fun _ _ m held _ =>
  ⟨m, by rwa [touches.get_eq (by rwa [Ledger.data, held])], Std.Refl.refl m⟩

theorem cushioned_setData {m m' : MarginAccount} (held : s.data k = .marginAccount m)
    (cushions : m.owner = owner → m.Cushions unit charge m') :
    Cushioned unit charge owner s (s.setData k (.marginAccount m')) := by
  intro j o x there mine
  by_cases here : j = k
  · subst here
    rw [Ledger.data, there] at held
    cases held
    exact ⟨m', by rw [Ledger.get_setData_self, Ledger.owner, there], cushions mine⟩
  · exact ⟨x, by rw [Ledger.get_setData_of_ne _ _ here, there], Std.Refl.refl x⟩

/-- What an access to a margin account leaves, whether it returns or fails. -/
theorem left_atMargin {movement : MarginM Unit} (left : t ∈ ((atMargin rt inv k movement).run s).state?) :
    t = s ∨ ∃ m m', s.data k = .marginAccount m ∧ m' ∈ (movement.run m).state? ∧ t = s.setData k (.marginAccount m') := by
  cases ran : (atMargin rt inv k movement).run s with
  | ok u t' =>
    rw [ran] at left
    cases left
    obtain ⟨x, y, found, inner, rfl⟩ := atMargin_ok ran
    exact .inr ⟨x, y, found, by rw [inner]; rfl, rfl⟩
  | err e t' =>
    rw [ran] at left
    cases left
    rcases atAccount_err ran with ⟨rfl, -⟩ | ⟨x, y, found, inner, rfl, -⟩
    · exact .inl rfl
    · exact .inr ⟨x, y, AccountData.loadMargin_ok.mp found, by rw [inner]; rfl, rfl⟩
  | abort => simp [ran] at left

theorem cushioned_of_left {movement : MarginM Unit} (left : t ∈ ((atMargin rt inv k movement).run s).state?)
    (cushions : ∀ m m', s.data k = .marginAccount m → m' ∈ (movement.run m).state? → m.owner = owner →
      m.Cushions unit charge m') :
    Cushioned unit charge owner s t := by
  rcases left_atMargin left with rfl | ⟨m, m', held, inner, rfl⟩
  · exact Std.Refl.refl _
  · exact cushioned_setData held (cushions m m' held inner)

theorem cushioned_atMargin {movement : MarginM Unit} (ran : (atMargin rt inv k movement).run s = .ok u t)
    (cushions : ∀ m m', s.data k = .marginAccount m → movement.run m = .ok () m' → m.owner = owner →
      m.Cushions unit charge m') :
    Cushioned unit charge owner s t := by
  obtain ⟨m, m', held, inner, rfl⟩ := atMargin_ok ran
  exact cushioned_setData held (cushions m m' held inner)

instance (movement : MarginM Unit) [Exec.Keeping (MarginAccount.Cushions unit charge) movement] :
    Exec.Keeping (Cushioned unit charge owner) (atMargin rt inv k movement) where
  keeps _ _ left := cushioned_of_left left fun _ _ _ inner _ => Exec.Keeping.keeps _ _ inner

theorem keeping_cushioned {α : Type} {m : LedgerM α} (old new : List AccountKind) [Within old new m]
    (unwritten : AccountKind.marginAccount ∉ old) : Exec.Keeping (Cushioned unit charge owner) m where
  keeps s t left := by
    have touches : Touches old new s t := Within.keeps s t left
    exact cushioned_of_touches touches unwritten

/-! ### Settlements -/

instance (perSide equity : ℕ) : Exec.Keeping (MarginAccount.Cushions unit charge) (settleSide perSide equity) := by
  unfold settleSide
  infer_instance

instance (pmlc : Pubkey) (status reason : ℕ) :
    Exec.Keeping (Cushioned unit charge owner) (closePmlcWith rt inv pmlc status reason) :=
  keeping_cushioned [.pmlc] [.pmlc] (by decide)

instance (long short : Pubkey) (perSide : ℕ) (equity : ℕ × ℕ) :
    Exec.Keeping (Cushioned unit charge owner) (settleBoth rt inv long short perSide equity) := by
  unfold settleBoth
  infer_instance

instance (winner loser long short : Pubkey) (perSide bounty : ℕ) :
    Exec.Keeping (Cushioned unit charge owner) (payWinner rt inv winner loser long short perSide bounty) := by
  unfold payWinner
  iterate 5 refine Exec.keeping_bind inferInstance fun _ => ?_
  infer_instance

instance (long short keeperMargin pmlc : Pubkey) (perSide bounty : ℕ) (equity : ℕ × ℕ) :
    Exec.Keeping (Cushioned unit charge owner) (payOut rt inv long short keeperMargin pmlc perSide bounty equity) := by
  unfold payOut
  infer_instance

namespace Settling

variable {index type : ℕ} (x : Settling rt inv s index type) {n : MarketNonceAccount} {m : LedgerM Unit}

/-- The use of the attestation touches no margin account. -/
theorem cushioned [Exec.Keeping (Cushioned unit charge owner) m] (ran : m.run (s.setData x.nonce (.marketNonce n)) = .ok u t) :
    Cushioned unit charge owner s t := by
  have spent : Touches [.marketNonce] [.marketNonce] s (s.setData x.nonce (.marketNonce n)) :=
    touches_setData (by simp [x.nonce_eq]) (by simp)
  have before : Cushioned unit charge owner s (s.setData x.nonce (.marketNonce n)) := cushioned_of_touches spent (by decide)
  exact before.trans (Exec.Keeping.keeps.ok ran)

end Settling

section Handlers

variable {offset : UInt8}

theorem cushioned_processResolve (ran : (processResolve rt inv offset).run s = .ok () t) :
    Cushioned unit charge owner s t := by
  obtain ⟨x, outcome, finalFp, pnl, -, -, -, -, settled⟩ := processResolve_ok ran
  exact x.cushioned settled

theorem cushioned_processCloseMutual (ran : (processCloseMutual rt inv offset).run s = .ok () t) :
    Cushioned unit charge owner s t := by
  obtain ⟨x, mark, pnl, -, -, -, -, -, -, settled⟩ := processCloseMutual_ok ran
  exact x.cushioned settled

theorem cushioned_processLiquidate (ran : (processLiquidate rt inv offset).run s = .ok () t) :
    Cushioned unit charge owner s t := by
  obtain ⟨x, keeper, keeperMargin, kept, mark, pnl, -, -, -, -, -, -, -, -, -, -, paid⟩ := processLiquidate_ok ran
  exact x.cushioned paid

end Handlers

/-! ### Refunds and deposits -/

instance (mint : Pubkey) (refund : Refund) : Exec.Keeping (MarginAccount.Cushions unit charge) (refundMargin mint refund) := by
  unfold refundMargin
  infer_instance

theorem cushioned_cancelIntent {instrument book margin : Pubkey} {intentId : ℕ}
    {authorize : Pubkey → IntentNode → Except ProgramError Unit}
    (ran : (cancelIntent rt inv instrument book margin intentId authorize).run s = .ok u t) :
    Cushioned unit charge owner s t := by
  simp only [cancelIntent, Exec.bind_check, exists_const] at ran
  obtain ⟨inst, -, -, ran⟩ := ran
  rw [Exec.bind_ok] at ran
  obtain ⟨refund, s1, cancelled, refunded⟩ := ran
  have touches : Touches [.intentBook] [.intentBook] s s1 := Within.keeps.ok cancelled
  have first : Cushioned unit charge owner s s1 := cushioned_of_touches touches (by decide)
  exact first.trans (Exec.Keeping.keeps.ok refunded)

theorem cushioned_processCancelIntent {intentId : UInt64}
    (ran : (processCancelIntent rt inv intentId).run s = .ok () t) :
    Cushioned unit charge owner s t := by
  unfold processCancelIntent at ran
  split at ran
  · simp only [Exec.bind_check, exists_const] at ran
    obtain ⟨-, -, -, -, ran⟩ := ran
    exact cushioned_cancelIntent ran
  · cases ran

theorem cushioned_processCancelIntentDelegated {intentId : UInt64}
    (ran : (processCancelIntentDelegated rt inv intentId).run s = .ok () t) :
    Cushioned unit charge owner s t := by
  unfold processCancelIntentDelegated at ran
  split at ran
  · simp only [Exec.bind_check, exists_const] at ran
    obtain ⟨-, -, -, -, -, -, holder, -, ran⟩ := ran
    exact cushioned_cancelIntent ran
  · cases ran

theorem cushioned_pruneAll {book mint : Pubkey} {work : List (ℕ × IntentNode × Pubkey × ℕ)} {margins : List Pubkey}
    (ran : (pruneAll rt inv book mint work margins).run s = .ok u t) : Cushioned unit charge owner s t := by
  induction work generalizing s margins with
  | nil =>
    obtain ⟨-, rfl⟩ := Exec.pure_ok.mp ran
    exact Std.Refl.refl _
  | cons entry work ih =>
    rw [pruneAll, Exec.bind_check] at ran
    obtain ⟨⟨margin, rest⟩, -, ran⟩ := ran
    simp only [Exec.bind_ok] at ran
    obtain ⟨_, s1, refunded, _, s2, pruned, ran⟩ := ran
    have first : Cushioned unit charge owner s s1 := Exec.Keeping.keeps.ok refunded
    have touches : Touches [.intentBook] [.intentBook] s1 s2 := Within.keeps.ok pruned
    have second : Cushioned unit charge owner s1 s2 := cushioned_of_touches touches (by decide)
    exact first.trans (second.trans (ih ran))

theorem cushioned_processPruneExpired (ran : (processPruneExpired rt inv).run s = .ok () t) :
    Cushioned unit charge owner s t := by
  unfold processPruneExpired at ran
  split at ran
  · simp only [Exec.bind_check, exists_const] at ran
    obtain ⟨-, -, -, inst, -, -, b, -, work, -, ran⟩ := ran
    exact cushioned_pruneAll ran
  · cases ran

theorem cushioned_processDeposit {amount : UInt64} (ran : (processDeposit rt inv amount).run s = .ok () t) :
    Cushioned unit charge owner s t := by
  unfold processDeposit at ran
  simp only [Exec.bind_check, exists_const] at ran
  obtain ⟨-, ran⟩ := ran
  split at ran
  · simp only [Exec.bind_check, exists_const] at ran
    obtain ⟨-, -, -, -, -, -, bump, -, m, -, -, -, ran⟩ := ran
    rw [Exec.bind_ok] at ran
    obtain ⟨_, s1, transferred, credited⟩ := ran
    have touches : Touches [.token] [.token] s s1 := Within.keeps.ok transferred
    have first : Cushioned unit charge owner s s1 := cushioned_of_touches touches (by decide)
    exact first.trans (Exec.Keeping.keeps.ok credited)
  · cases ran

/-! ### Sides that change hands -/

instance (holder mint : Pubkey) (movement : MarginM Unit) [Exec.Keeping (MarginAccount.Cushions unit charge) movement] :
    Exec.Keeping (MarginAccount.Cushions unit charge) (asOwner holder mint movement) := by
  unfold asOwner
  infer_instance

instance (amount : ℕ) : Exec.Keeping (MarginAccount.Cushions unit charge) (MarginAccount.moveLockedToFree amount) :=
  inferInstanceAs (Exec.Keeping (MarginAccount.Cushions unit charge) (MarginAccount.debitLocked amount >>= fun _ =>
    MarginAccount.creditFree amount))

/-! ### What takes the owner's signature -/

theorem ne_of_signed (unsigned : inv.isSigner owner = false) {signer : Pubkey} (signed : inv.isSigner signer = true) :
    signer ≠ owner := by
  rintro rfl
  rw [signed] at unsigned
  cases unsigned

/-- Whoever enters a side pays what it is charged, and whoever leaves one signs. -/
theorem cushioned_doSubstitute {args : MatchPairArgs} {withSettle : Bool} (genuine : Genuine rt s)
    (unsigned : inv.isSigner owner = false)
    (covered : ∀ bucket premium, Enters inv args withSettle s owner bucket premium → unit * premium ≤ charge * (bucket : ℤ))
    (ran : (doSubstitute rt inv args withSettle).run s = .ok () t) : Cushioned unit charge owner s t := by
  unfold doSubstitute at ran
  split at ran
  next substitutor instrument book pmlc substitutorMargin counterpartyMargin rest accounts =>
    simp only [Exec.bind_check, exists_const, ne_eq, not_not] at ran
    obtain ⟨signed, -, -, -, -, owned, inst, found, -, at_book, p, held, -, -, -, ran⟩ := ran
    rw [Exec.bind_ok] at ran
    obtain ⟨c, s1, substituted, ran⟩ := ran
    simp only [Exec.bind_check] at ran
    obtain ⟨delta, computed, _, -, _, -, ran⟩ := ran
    simp only [Exec.bind_ok] at ran
    obtain ⟨_, s2, left, _, s3, entered, handed⟩ := ran
    obtain ⟨b, b', held_book, inner, -⟩ := atBook_ok substituted
    have fits : delta.natAbs < 2 ^ 64 := Nat.lt_of_le_of_lt (substitutionDelta_le computed)
      (genuine.listed_ok (listed_of_load (owned _ (by simp)) found)).2.2
    have books : Touches [.intentBook] [.intentBook] s s1 := Within.keeps.ok substituted
    have first : Cushioned unit charge owner s s1 := cushioned_of_touches books (by decide)
    have second : Cushioned unit charge owner s1 s2 := cushioned_atMargin left fun _ _ _ moved mine =>
      absurd ((asOwner_ok moved).1.1.symm.trans mine) (ne_of_signed unsigned signed)
    have third : Cushioned unit charge owner s2 s3 := by
      refine cushioned_atMargin entered fun _ _ _ moved mine => ?_
      obtain ⟨identity, moved⟩ := asOwner_ok moved
      have enters : Enters inv args withSettle s owner inst.collateralBucket delta :=
        ⟨substitutor, instrument, book, pmlc, _, inst, p, b, b', c, accounts, get_eq_of_data (owned _ (by simp)) found, at_book,
          rfl, get_eq_of_data (owned _ (by simp)) held, get_eq_of_data (owned _ (by simp)) held_book, inner,
          identity.1.symm.trans mine, computed⟩
      exact cushions_enterSide (covered _ _ enters) fits moved
    have positions : Touches [.pmlc] [.pmlc] s3 t := Within.keeps.ok handed
    exact first.trans (second.trans (third.trans (cushioned_of_touches positions (by decide))))
  · cases ran

theorem cushioned_processNovate {side : UInt8} (unsigned : inv.isSigner owner = false)
    (ran : (processNovate rt inv side).run s = .ok () t) : Cushioned unit charge owner s t := by
  unfold processNovate at ran
  split at ran
  next currentOwner newOwner config instrument pmlc currentMargin newMargin rest _ =>
    simp only [Exec.bind_check, exists_const] at ran
    obtain ⟨-, signed, -, -, -, -, -, -, -, p, -, -, -, inst, -, -, -, _, -, _, -, ran⟩ := ran
    simp only [Exec.bind_ok] at ran
    obtain ⟨_, s1, left, _, s2, entered, handed⟩ := ran
    have first : Cushioned unit charge owner s s1 := Exec.Keeping.keeps.ok left
    have second : Cushioned unit charge owner s1 s2 := cushioned_atMargin entered fun _ _ _ moved mine =>
      absurd ((asOwner_ok moved).1.1.symm.trans mine) (ne_of_signed unsigned signed)
    have positions : Touches [.pmlc] [.pmlc] s2 t := Within.keeps.ok handed
    exact first.trans (second.trans (cushioned_of_touches positions (by decide)))
  · cases ran

theorem cushioned_processWithdraw {amount : UInt64} (unsigned : inv.isSigner owner = false)
    (ran : (processWithdraw rt inv amount).run s = .ok () t) : Cushioned unit charge owner s t := by
  unfold processWithdraw at ran
  simp only [Exec.bind_check, exists_const] at ran
  obtain ⟨-, ran⟩ := ran
  split at ran
  next signer margin mint userAta vault vaultAuthority tokenProgram rest _ =>
    simp only [Exec.bind_check, exists_const] at ran
    obtain ⟨signed, -, -, -, -, -, bump, -, _, -, -, ran⟩ := ran
    rw [Exec.bind_ok] at ran
    obtain ⟨_, s1, withdrawn, transferred⟩ := ran
    have first : Cushioned unit charge owner s s1 := by
      refine cushioned_atMargin withdrawn fun m m' _ moved mine => ?_
      simp only [withdrawFree, Exec.bind_check, MarginAccount.requireIdentity_ok] at moved
      obtain ⟨_, rfl, _, identity, -⟩ := moved
      exact absurd (identity.1.symm.trans mine) (ne_of_signed unsigned signed)
    have tokens : Touches [.token] [.token] s1 t := Within.keeps.ok transferred
    exact first.trans (cushioned_of_touches tokens (by decide))
  · cases ran

theorem cushioned_reenter {holder book margin pmlc : Pubkey} {inst : InstrumentConfig} {p : Pmlc}
    {args : ClaimReentryArgs}
    {contracts maxFeeBps : ℕ} {m : MarginAccount} (held : s.data margin = .marginAccount m) (other : m.owner ≠ owner)
    (ran : (reenter rt inv holder book margin pmlc inst p args contracts maxFeeBps).run s = .ok u t) :
    Cushioned unit charge owner s t := by
  simp only [reenter, Exec.bind_check] at ran
  obtain ⟨⟨reservedCollateral, feeBuffer, totalReserve⟩, -, ran⟩ := ran
  simp only [Exec.bind_ok] at ran
  obtain ⟨_, s1, reserves, id, s2, posted, cleared⟩ := ran
  have first : Cushioned unit charge owner s s1 := by
    refine cushioned_atMargin reserves fun m' _ found _ mine => ?_
    cases held.symm.trans found
    exact absurd mine other
  have books : Touches [.intentBook] [.intentBook] s1 s2 := Within.keeps.ok posted
  have second : Cushioned unit charge owner s1 s2 := cushioned_of_touches books (by decide)
  have positions : Touches [.pmlc] [.pmlc] s2 t := Within.keeps.ok cleared
  exact first.trans (second.trans (cushioned_of_touches positions (by decide)))

theorem cushioned_clearReentry {pmlc : Pubkey} {side : ℕ} (ran : (clearReentry rt inv pmlc side).run s = .ok u t) :
    Cushioned unit charge owner s t := by
  have positions : Touches [.pmlc] [.pmlc] s t := Within.keeps.ok ran
  exact cushioned_of_touches positions (by decide)

theorem cushioned_processClaimReentry {args : ClaimReentryArgs} (unsigned : inv.isSigner owner = false)
    (ran : (processClaimReentry rt inv args).run s = .ok () t) : Cushioned unit charge owner s t := by
  unfold processClaimReentry at ran
  split at ran
  next holder config pmlc instrument book margin rest _ =>
    simp only [Exec.bind_check, exists_const, MarginAccount.requireOwner_ok] at ran
    obtain ⟨signed, -, -, -, -, -, -, -, p, -, -, -, -, -, inst, -, -, -, -, -, -, _, -, m, held, identity, -, ran⟩ := ran
    split at ran
    · exact cushioned_clearReentry ran
    · simp only [Exec.bind_check] at ran
      obtain ⟨b, -, contracts, -, ran⟩ := ran
      split at ran
      · exact cushioned_clearReentry ran
      · exact cushioned_reenter held (identity.1 ▸ ne_of_signed unsigned signed) ran
  · cases ran

/-- A post moves the collateral of its owner only. -/
theorem cushioned_postIntent {ctx : PostCtx} {args : PostIntentArgs} {id : ℕ} (other : ctx.owner ≠ owner)
    (ran : (postIntent rt inv ctx args).run s = .ok id t) : Cushioned unit charge owner s t := by
  obtain ⟨posting⟩ := postIntent_ok ran
  have poster : posting.m.owner = ctx.owner := by
    have reserved := posting.reserved
    simp only [reserveForPost, Exec.bind_check, MarginAccount.requireIdentity_ok] at reserved
    obtain ⟨_, rfl, _, identity, -⟩ := reserved
    exact identity.1
  intro k o m held mine
  refine ⟨m, ?_, Std.Refl.refl m⟩
  rw [posting.others k ?_ ?_ ?_, held]
  · rintro rfl
    have found := posting.book_eq
    rw [Ledger.data, held] at found
    cases found
  · rintro rfl
    have found := posting.margin_eq
    rw [Ledger.data, held] at found
    cases found
    exact other (poster.symm.trans mine)
  · intro session
    have charged := posting.charged
    rw [session] at charged
    obtain ⟨x, x', found, -⟩ := charged
    rw [Ledger.data, held] at found
    cases found

end Polyleverage
