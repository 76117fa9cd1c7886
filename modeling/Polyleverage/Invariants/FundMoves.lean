import Polyleverage.Invariants.AdminMoves

/-! # Funds, fees and instruments move nothing

Deposits, withdrawals and sweeps move the vault and the account that it backs by the same amount. A new
instrument comes with an empty book.
-/

namespace Polyleverage

open Machine

variable {rt : Runtime} {inv : rt.Invocation} {s t : Ledger} {k : Pubkey} {u : Unit}

/-! ### Margin accounts -/

theorem moved_processCreateMarginAccount (genuine : Genuine rt s)
    (ran : (processCreateMarginAccount rt inv).run s = .ok () t) : Moved rt s t 0 := by
  unfold processCreateMarginAccount at ran
  split at ran
  · simp only [Exec.bind_check, exists_const] at ran
    obtain ⟨-, -, -, -, -, bump, ⟨here, rfl⟩, -, ran⟩ := ran
    exact moved_createAndInit genuine ran (weightless_margin _ _ _) ⟨here, rfl⟩ fun _ => trivial
  · cases ran

/-- What a margin account gains, its vault has gained. -/
theorem deposit_entry (owner mint : Pubkey) (amount : ℤ) :
    backingEntry mint amount + marginEntry owner mint amount 0 0 = 0 := by
  funext x
  cases x with
  | backing mint' =>
    simp only [Pi.add_apply, Pi.zero_apply, backingEntry, marginEntry]
    split <;> omega
  | reserve owner' mint' => simp [backingEntry, marginEntry]
  | lock owner' mint' => simp [backingEntry, marginEntry]

theorem moved_processDeposit {amount : UInt64} (genuine : Genuine rt s)
    (ran : (processDeposit rt inv amount).run s = .ok () t) : Moved rt s t 0 := by
  rw [processDeposit, Exec.bind_check] at ran
  obtain ⟨-, -, ran⟩ := ran
  split at ran
  next owner margin mint userAta vault tokenProgram rest _ =>
    simp only [Exec.bind_check, exists_const] at ran
    obtain ⟨signed, -, -, -, -, -, bump, ⟨here, -⟩, m, -, -, ⟨at_vault, a, found, held, of_mint⟩, ran⟩ := ran
    rw [Exec.bind_ok] at ran
    obtain ⟨_, mid, paid, credited⟩ := ran
    have first := moved_deposit genuine signed paid at_vault found held of_mint
    have second := moved_atMargin first.genuine here credited fun _ _ => marginStep_creditFree
    exact (first.trans second).cast (deposit_entry owner mint _)
  · cases ran

theorem moved_processWithdraw {amount : UInt64} (genuine : Genuine rt s)
    (ran : (processWithdraw rt inv amount).run s = .ok () t) : Moved rt s t 0 := by
  rw [processWithdraw, Exec.bind_check] at ran
  obtain ⟨-, -, ran⟩ := ran
  split at ran
  next owner margin mint userAta vault vaultAuthority tokenProgram rest _ =>
    simp only [Exec.bind_check, exists_const] at ran
    obtain ⟨signed, -, -, -, -, -, bump, ⟨here, -⟩, _, ⟨rfl, -⟩, -, ran⟩ := ran
    rw [Exec.bind_ok] at ran
    obtain ⟨_, mid, debited, paid⟩ := ran
    have first := moved_atMargin genuine here debited fun _ _ => marginStep_withdrawFree
    have second := moved_payment first.genuine paid
    refine (first.trans second).cast ?_
    rw [add_comm]
    exact deposit_entry owner mint _
  · cases ran

/-! ### Fees -/

theorem moved_processInitFeeSchedule {tiers : FeeTierArgs} (genuine : Genuine rt s)
    (ran : (processInitFeeSchedule rt inv tiers).run s = .ok () t) : Moved rt s t 0 := by
  unfold processInitFeeSchedule at ran
  split at ran
  · simp only [Exec.bind_check, exists_const] at ran
    obtain ⟨-, -, -, -, -, -, valid, bump, ⟨here, -⟩, -, ran⟩ := ran
    exact moved_createAndInit genuine ran (weightless_idle rfl) ⟨here, feeBps_le_of_validateTiersFrom valid⟩
      fun _ => trivial
  · cases ran

theorem moved_processSetFeeSchedule {tiers : FeeTierArgs} (genuine : Genuine rt s)
    (ran : (processSetFeeSchedule rt inv tiers).run s = .ok () t) : Moved rt s t 0 := by
  unfold processSetFeeSchedule at ran
  split at ran
  · simp only [Exec.bind_check, exists_const] at ran
    obtain ⟨-, -, -, -, valid, ran⟩ := ran
    refine moved_atIdle genuine ran (fun _ => rfl) (fun _ _ _ => rfl) ?_
    intro x y moved fits
    simp only [setTiers, Exec.bind_check, exists_const, Exec.put_ok] at moved
    obtain ⟨_, rfl, -, rfl⟩ := moved
    exact ⟨fits.1, feeBps_le_of_validateTiersFrom valid⟩
  · cases ran

/-- What a treasury gives, its vault pays. -/
theorem sweep_entry (mint : Pubkey) (amount : ℤ) : backingEntry mint amount + backingEntry mint (-amount) = 0 := by
  funext x
  cases x with
  | backing mint' =>
    simp only [Pi.add_apply, Pi.zero_apply, backingEntry]
    split <;> omega
  | reserve owner' mint' => simp [backingEntry]
  | lock owner' mint' => simp [backingEntry]

theorem moved_processSweepFees {amount : UInt64} (genuine : Genuine rt s)
    (ran : (processSweepFees rt inv amount).run s = .ok () t) : Moved rt s t 0 := by
  rw [processSweepFees, Exec.bind_check] at ran
  obtain ⟨-, -, ran⟩ := ran
  split at ran
  next admin config treasury vault dest mint vaultAuthority tokenProgram rest _ =>
    simp only [Exec.bind_check, exists_const] at ran
    obtain ⟨-, -, -, -, -, -, -, _, ⟨rfl, -⟩, _, ⟨here, -⟩, a, -, -, ran⟩ := ran
    rw [Exec.bind_ok] at ran
    obtain ⟨_, mid, swept, paid⟩ := ran
    have first : Moved rt s mid (backingEntry mint (-(-(amount.toNat : ℤ)))) := by
      apply moved_atTreasury genuine here swept
      intro x y moved
      simp only [sweepTreasury, Exec.bind_check, exists_const] at moved
      obtain ⟨_, rfl, -, moved⟩ := moved
      obtain ⟨enough, accrued, same, -⟩ := FeeTreasury.sweep_ok moved
      refine ⟨same, ?_⟩
      rw [accrued]
      omega
    have second := moved_payment first.genuine paid
    rw [neg_neg] at first
    exact (first.trans second).cast (sweep_entry mint _)
  · cases ran

theorem moved_ensureFeeTreasury {payer mint : Pubkey} (genuine : Genuine rt s)
    (ran : (ensureFeeTreasury rt inv payer k mint).run s = .ok u t) :
    Moved rt s t 0 ∧ rt.address (.treasury mint) = k := by
  simp only [ensureFeeTreasury, Exec.bind_check] at ran
  obtain ⟨bump, ⟨here, -⟩, _, rfl, ran⟩ := ran
  refine ⟨?_, here⟩
  split at ran
  · simp only [Exec.bind_check, exists_const] at ran
    obtain ⟨-, x, -, ran⟩ := ran
    obtain ⟨-, rfl⟩ := Exec.rejectIf_ok.mp ran
    exact .refl genuine
  · exact moved_createAndInit genuine ran (weightless_treasury _ _) here fun _ => trivial

theorem moved_ensureUserVolume {payer owner mint : Pubkey} (genuine : Genuine rt s)
    (ran : (ensureUserVolume rt inv payer k owner mint).run s = .ok u t) : Moved rt s t 0 := by
  simp only [ensureUserVolume, Exec.bind_check] at ran
  obtain ⟨bump, ⟨here, -⟩, _, rfl, ran⟩ := ran
  split at ran
  · simp only [Exec.bind_check, exists_const] at ran
    obtain ⟨-, x, -, ran⟩ := ran
    obtain ⟨-, rfl⟩ := Exec.rejectIf_ok.mp ran
    exact .refl genuine
  · exact moved_createAndInit genuine ran (weightless_idle rfl) here fun _ => trivial

/-- A volume stays its owner's. -/
theorem addVolume_ok {amount now : ℕ} {x y : UserVolume} (ran : (UserVolume.addVolume amount now).run x = .ok u y) :
    y.owner = x.owner ∧ y.collateralMint = x.collateralMint := by
  simp only [UserVolume.addVolume, Exec.bind_ok, Exec.get_ok, Exec.orErr_ok, Exec.put_ok] at ran
  obtain ⟨_, z, rolled, _, _, ⟨rfl, rfl⟩, _, _, ⟨-, rfl⟩, rfl⟩ := ran
  simp only [UserVolume.maybeRollEpoch, Exec.bind_ok, Exec.get_ok] at rolled
  obtain ⟨_, _, ⟨rfl, rfl⟩, rolled⟩ := rolled
  rcases Exec.when_ok.mp rolled with ⟨-, rolled⟩ | ⟨-, rfl⟩
  · simp only [Exec.bind_ok, Exec.put_ok, Exec.orErr_ok, Exec.modify_ok] at rolled
    obtain ⟨_, _, rfl, _, _, ⟨-, rfl⟩, _, _, ⟨-, rfl⟩, rfl⟩ := rolled
    exact ⟨rfl, rfl⟩
  · exact ⟨rfl, rfl⟩

theorem moved_addVolume {amount now : ℕ} (genuine : Genuine rt s)
    (ran : (atAccount rt inv AccountData.loadUserVolume .userVolume k (UserVolume.addVolume amount now)).run s = .ok u t) :
    Moved rt s t 0 := by
  refine moved_atIdle genuine ran (fun _ => rfl) (fun _ _ _ => rfl) ?_
  intro x y moved fits
  obtain ⟨same_owner, same_mint⟩ := addVolume_ok moved
  rw [Fits, same_owner, same_mint]
  exact fits

/-! ### Instruments -/

theorem moved_ensureMarketNonce {payer : Pubkey} {marketId : ℕ} (genuine : Genuine rt s)
    (ran : (ensureMarketNonce rt inv payer k marketId).run s = .ok u t) : Moved rt s t 0 := by
  simp only [ensureMarketNonce, Exec.bind_check] at ran
  obtain ⟨bump, ⟨here, -⟩, _, rfl, ran⟩ := ran
  split at ran
  · exact moved_createAndInit genuine ran (weightless_idle rfl) here fun _ => trivial
  · obtain ⟨-, rfl⟩ := assertOwned_ok.mp ran
    exact .refl genuine

/-- An empty book reserves nothing. -/
theorem reserved_init (instrument : Pubkey) (capacity bump : ℕ) (owner : Pubkey) :
    (IntentBook.initIntentBook instrument capacity bump 0).view.reserved owner = 0 := by
  apply Finset.sum_eq_zero
  intro i _
  have none : (IntentBook.initIntentBook instrument capacity bump 0).view.order i = none := by
    change IntentBook.order _ i = none
    unfold IntentBook.order IntentBook.initIntentBook
    simp only [List.getElem?_replicate]
    split <;> rfl
  rw [none]
  rfl

theorem weightless_book (instrument : Pubkey) (capacity bump : ℕ) :
    (AccountData.intentBook (IntentBook.initIntentBook instrument capacity bump 0)).Weightless where
  wealth _ := rfl
  reserved _ _ := rfl
  booked mintOf owner mint := by
    simp only [AccountData.booked, reserved_init, ite_self]
  locked _ _ := rfl
  held _ _ := rfl

theorem moved_processCreateInstrument {args : CreateInstrumentArgs} (genuine : Genuine rt s)
    (ran : (processCreateInstrument rt inv args).run s = .ok () t) : Moved rt s t 0 := by
  unfold processCreateInstrument at ran
  split at ran
  next admin config instrument book mint system nonce rest _ =>
    simp only [Exec.bind_check, exists_const] at ran
    obtain ⟨-, -, -, -, -, -, -, -, -, -, -, -, _, -, bump, ⟨here, -⟩, -, ran⟩ := ran
    rw [Exec.bind_ok] at ran
    obtain ⟨_, s1, created, ran⟩ := ran
    simp only [Exec.bind_check, exists_const] at ran
    obtain ⟨bookBump, ⟨here_book, -⟩, -, ran⟩ := ran
    rw [Exec.bind_ok] at ran
    obtain ⟨_, s2, created_book, ran⟩ := ran
    simp only [Exec.bind_check, exists_const] at ran
    obtain ⟨valid, ran⟩ := ran
    rw [Exec.bind_ok] at ran
    obtain ⟨_, s3, inited, ran⟩ := ran
    rw [Exec.bind_ok] at ran
    obtain ⟨_, s4, inited_book, ran⟩ := ran
    obtain ⟨allowed_leverage, bucket, -⟩ := InstrumentConfig.validate_ok valid
    have first := (moved_createAccount genuine created).1
    have second := (moved_createAccount first.genuine created_book).1
    obtain ⟨third, rfl⟩ := moved_initAccount second.genuine inited (weightless_idle rfl)
      ⟨here, here_book.symm, allowed_leverage, bucket, args.collateralBucket.toNat_lt⟩ fun _ => trivial
    -- The book is the one of the instrument that was written just before.
    have listed : Ledger.Listed rt (s2.setData instrument (.instrumentConfig (args.config mint book bump))) instrument
        (args.config mint book bump) := by
      have owned : s2.owner instrument = rt.programId := by
        obtain ⟨-, rfl⟩ := createAccount_ok created
        exact second.owned _ (by rw [Ledger.owner, Store.get_set_self])
      have found : Ledger.Listed rt (s2.setData instrument (.instrumentConfig (args.config mint book bump))) instrument
          { args.config mint book bump with status := STATUS_ACTIVE } := listed_of_load
        (by rw [Ledger.owner_setData, owned]) (Ledger.data_setData_self _ _)
      exact found
    obtain ⟨fourth, -⟩ := moved_initAccount third.genuine inited_book (weightless_book _ _ _) trivial fun _ =>
      ⟨here_book, _, listed, sound_init _ _ _⟩
    exact first.then (second.then (third.then (fourth.then (moved_ensureMarketNonce fourth.genuine ran))))
  · cases ran

theorem moved_processSetInstrumentStatus {pause : Bool} (genuine : Genuine rt s)
    (ran : (processSetInstrumentStatus rt inv pause).run s = .ok () t) : Moved rt s t 0 := by
  unfold processSetInstrumentStatus at ran
  split at ran
  · simp only [Exec.bind_check, exists_const] at ran
    obtain ⟨-, -, -, -, ran⟩ := ran
    refine moved_atIdle genuine ran (fun _ => rfl) ?_ ?_
    · intro x y moved
      rw [Exec.modify_ok] at moved
      exact moved ▸ rfl
    · intro x y moved fits
      rw [Exec.modify_ok] at moved
      exact moved ▸ fits
  · cases ran

end Polyleverage
