import Polyleverage.Invariants.FailedMatch

/-! # What a match takes from free collateral

A match debits the taker's fee and nothing else from free collateral. The fee is told by the schedule, by
the taker's volume and by the collateral of one contract, as they are before the match.
-/

namespace Polyleverage

open Machine

variable {rt : Runtime} {inv : rt.Invocation} {s t u : Ledger} {k : Pubkey}

/-! ### The fee -/

/-- The recent volume of the trader with this volume account, which has none before the account exists. -/
def Ledger.volume (s : Ledger) (k : Pubkey) (nowSlot : ℕ) : ℕ :=
  match s.data k with
  | .userVolume v => v.effective30dVolume nowSlot
  | _ => 0

/-- The fee for one contract of a taker with this volume account. -/
def Ledger.takerFee (s : Ledger) (feeSchedule takerVolume : Pubkey) (perSide nowSlot : ℕ) : ℕ :=
  match s.data feeSchedule with
  | .feeSchedule sched => truncate 64 (perSide * sched.feeForVolume (s.volume takerVolume nowSlot) / BPS_DENOM)
  | _ => 0

/-- The rate of a taker with this volume account. -/
def Ledger.takerBps (s : Ledger) (feeSchedule takerVolume : Pubkey) (nowSlot : ℕ) : ℕ :=
  match s.data feeSchedule with
  | .feeSchedule sched => sched.feeForVolume (s.volume takerVolume nowSlot)
  | _ => 0

/-- The fee is the rate's share of the collateral. -/
theorem takerFee_eq (s : Ledger) (feeSchedule takerVolume : Pubkey) (perSide nowSlot : ℕ) :
    s.takerFee feeSchedule takerVolume perSide nowSlot =
      truncate 64 (perSide * s.takerBps feeSchedule takerVolume nowSlot / BPS_DENOM) := by
  unfold Ledger.takerFee Ledger.takerBps
  split
  · rfl
  · rw [Nat.mul_zero, Nat.zero_div]
    rfl

/-- There is no fee when the share is less than one atom, or all of it is cut off. -/
theorem takerFee_eq_zero_iff {feeSchedule takerVolume : Pubkey} {perSide nowSlot : ℕ} :
    s.takerFee feeSchedule takerVolume perSide nowSlot = 0 ↔
      perSide * s.takerBps feeSchedule takerVolume nowSlot % (BPS_DENOM * 2 ^ 64) < BPS_DENOM := by
  rw [takerFee_eq, truncate, ← Nat.mod_mul_right_div_self]
  exact Nat.div_eq_zero_iff_lt (by decide)

theorem UserVolume.effective30dVolume_init (owner mint : Pubkey) (nowSlot bump : ℕ) :
    (UserVolume.init owner mint nowSlot bump).effective30dVolume nowSlot = 0 := by
  have still : (maybeRollEpoch nowSlot).run (UserVolume.init owner mint nowSlot bump) =
      .ok () (UserVolume.init owner mint nowSlot bump) := by
    rw [maybeRollEpoch, Exec.run_bind_get, Exec.run_when, if_neg]
    rintro ⟨-, ended⟩
    have positive : 1 ≤ nowSlot - nowSlot := le_trans (le_max_right _ _) ended
    omega
  rw [effective30dVolume, still]
  rfl

/-- A volume account that appears is empty. -/
theorem volume_of_ensureUserVolume {payer owner mint volume : Pubkey} {x : Unit}
    (ran : (ensureUserVolume rt inv payer volume owner mint).run s = .ok x t) :
    t.volume k inv.slot = s.volume k inv.slot := by
  simp only [ensureUserVolume, Exec.bind_check] at ran
  obtain ⟨bump, -, _, rfl, ran⟩ := ran
  split at ran
  · simp only [Exec.bind_check, exists_const] at ran
    obtain ⟨-, v, -, ran⟩ := ran
    obtain ⟨-, rfl⟩ := Exec.rejectIf_ok.mp ran
    rfl
  · obtain ⟨vacant, rfl⟩ := createAndInit_ok ran
    by_cases here : k = volume
    · subst here
      rw [Ledger.volume, Ledger.volume, Ledger.data, Ledger.data, Store.get_set_self, vacant]
      exact UserVolume.effective30dVolume_init _ _ _ _
    · rw [Ledger.volume, Ledger.data, Store.get_set_of_ne s _ here]
      rfl

/-- Where another kind is written, volumes stay. -/
theorem Touches.volume {old new : List AccountKind} {nowSlot : ℕ} (touches : Touches old new s t)
    (before : AccountKind.userVolume ∉ old) (after : AccountKind.userVolume ∉ new) :
    t.volume k nowSlot = s.volume k nowSlot := by
  unfold Ledger.volume
  rcases touches k with same | ⟨was, is⟩
  · rw [Ledger.data, Ledger.data, same]
  · split
    next v held =>
      rw [held] at is
      exact absurd is after
    · split
      next v held =>
        rw [held] at was
        exact absurd was before
      · rfl

theorem takerFee_congr {feeSchedule takerVolume : Pubkey} {perSide nowSlot : ℕ}
    (schedule : t.data feeSchedule = s.data feeSchedule) (volume : t.volume takerVolume nowSlot = s.volume takerVolume nowSlot) :
    t.takerFee feeSchedule takerVolume perSide nowSlot = s.takerFee feeSchedule takerVolume perSide nowSlot := by
  rw [Ledger.takerFee, Ledger.takerFee, schedule, volume]

theorem Touches.takerBps {old new : List AccountKind} {feeSchedule takerVolume : Pubkey} {nowSlot : ℕ}
    (touches : Touches old new s t) (volumes : AccountKind.userVolume ∉ old ∧ AccountKind.userVolume ∉ new)
    (schedules : AccountKind.feeSchedule ∉ old ∧ AccountKind.feeSchedule ∉ new) :
    t.takerBps feeSchedule takerVolume nowSlot = s.takerBps feeSchedule takerVolume nowSlot := by
  unfold Ledger.takerBps
  rw [touches.volume volumes.1 volumes.2]
  rcases touches feeSchedule with same | ⟨was, is⟩
  · rw [Ledger.data, Ledger.data, same]
  · split
    next sched held =>
      rw [held] at is
      exact absurd is schedules.2
    · split
      next sched held =>
        rw [held] at was
        exact absurd was schedules.1
      · rfl

theorem Touches.takerFee {old new : List AccountKind} {feeSchedule takerVolume : Pubkey} {perSide nowSlot : ℕ}
    (touches : Touches old new s t) (volumes : AccountKind.userVolume ∉ old ∧ AccountKind.userVolume ∉ new)
    (schedules : AccountKind.feeSchedule ∉ old ∧ AccountKind.feeSchedule ∉ new) :
    t.takerFee feeSchedule takerVolume perSide nowSlot = s.takerFee feeSchedule takerVolume perSide nowSlot := by
  rw [takerFee_eq, takerFee_eq, touches.takerBps volumes schedules]

/-- A taker is charged its fee. -/
theorem chargeTaker_fee {ctx : MatchCtx} {r : MatchResult} {mint : Pubkey} {perSide fee : ℕ}
    (ran : (chargeTaker rt inv ctx r mint perSide).run s = .ok fee t) :
    fee = s.takerFee ctx.feeSchedule ctx.takerVolume perSide inv.slot := by
  simp only [chargeTaker, Exec.bind_ok] at ran
  obtain ⟨_, s1, treasury, _, s2, taker, _, s3, maker, sched, _, loaded, vol, _, measured, ran⟩ := ran
  obtain ⟨found, rfl⟩ := Exec.gets_ok.mp loaded
  obtain ⟨counted, rfl⟩ := Exec.gets_ok.mp measured
  obtain ⟨_, s4, -, _, s5, -, _, s6, -, ran⟩ := ran
  obtain ⟨rfl, -⟩ := Exec.pure_ok.mp ran
  rw [AccountData.loadFeeSchedule_ok] at found
  rw [AccountData.loadUserVolume_ok] at counted
  have first : Touches [.raw] [.raw, .feeTreasury, .userVolume] s s1 := Within.keeps.ok treasury
  have next : Touches [.raw] [.raw, .feeTreasury, .userVolume] s1 s2 := Within.keeps.ok taker
  have last : Touches [.raw] [.raw, .feeTreasury, .userVolume] s2 s3 := Within.keeps.ok maker
  have schedule : s3.data ctx.feeSchedule = s.data ctx.feeSchedule := by
    have all := Trans.trans first (Trans.trans next last)
    exact congrArg Account.data (all.get_eq' (by simp [found]))
  have only : Touches [.raw] [.raw, .feeTreasury] s s1 := Within.keeps.ok treasury
  have volume : s3.volume ctx.takerVolume inv.slot = s.volume ctx.takerVolume inv.slot := by
    rw [volume_of_ensureUserVolume maker, volume_of_ensureUserVolume taker, only.volume (by simp) (by simp)]
  rw [← takerFee_congr schedule volume, Ledger.takerFee, found, Ledger.volume, counted]

/-! ### Free collateral -/

/-- The free collateral did not fall. -/
def MarginAccount.FreeGrows (m m' : MarginAccount) : Prop := m.freeCollateral ≤ m'.freeCollateral

namespace MarginAccount

instance : Std.Refl FreeGrows := ⟨fun m => le_refl m.freeCollateral⟩

instance : IsTrans MarginAccount FreeGrows where
  trans _ _ _ first next := le_trans (α := ℕ) first next

instance (bucket : Bucket) (amount : ℕ) : Exec.Keeping FreeGrows (credit bucket amount) where
  keeps := Exec.keeps_bind_get fun m m' left => by
    rcases Exec.left_bind_check left with rfl | ⟨v, sum, left⟩
    · exact Std.Refl.refl _
    · cases left
      obtain ⟨-, rfl⟩ := checkedAdd_eq_some.mp sum
      cases bucket with
      | free => exact Nat.le_add_right _ _
      | _ => exact Nat.le_refl _

instance (amount : ℕ) : Exec.Keeping FreeGrows (debit .reserved amount) where
  keeps := Exec.keeps_bind_get fun m m' left => by
    rcases Exec.left_bind_check left with rfl | ⟨v, -, left⟩
    · exact Std.Refl.refl _
    · cases left
      exact Nat.le_refl _

instance (perSide release : ℕ) : Exec.Keeping FreeGrows (lockSide perSide release 0) := by
  have locked : Exec.Keeping FreeGrows (moveReservedToLocked perSide) :=
    inferInstanceAs (Exec.Keeping FreeGrows (debit .reserved perSide >>= fun _ => credit .locked perSide))
  have released : Exec.Keeping FreeGrows (moveReservedToFree release) :=
    inferInstanceAs (Exec.Keeping FreeGrows (debit .reserved release >>= fun _ => credit .free release))
  have unpaid : Exec.when (0 < 0) (debitFree 0) = (pure () : MarginM Unit) := rfl
  rw [lockSide, unpaid]
  infer_instance

end MarginAccount

/-- The free collateral did not fall in any margin account. -/
def FreeGrows (s t : Ledger) : Prop :=
  ∀ k o m, s.get k = ⟨o, .marginAccount m⟩ → ∃ m', t.get k = ⟨o, .marginAccount m'⟩ ∧ m.FreeGrows m'

instance : Std.Refl FreeGrows := ⟨fun _ _ _ m held => ⟨m, held, Std.Refl.refl m⟩⟩

instance : IsTrans Ledger FreeGrows where
  trans s t u first next k o m held := by
    obtain ⟨m1, held1, grows1⟩ := first k o m held
    obtain ⟨m2, held2, grows2⟩ := next k o m1 held1
    exact ⟨m2, held2, Trans.trans grows1 grows2⟩

/-- What leaves margin accounts alone leaves their free collateral. -/
theorem freeGrows_of_touches {old new : List AccountKind} (touches : Touches old new s t)
    (unwritten : AccountKind.marginAccount ∉ old) : FreeGrows s t := fun _ _ m held =>
  ⟨m, by rwa [touches.get_eq (by rwa [Ledger.data, held])], Std.Refl.refl m⟩

instance {m : MarginM Unit} [Exec.Keeping MarginAccount.FreeGrows m] : Exec.Keeping FreeGrows (atMargin rt inv k m) where
  keeps s t left := by
    have written : t = s ∨ ∃ x y, s.data k = .marginAccount x ∧ x.FreeGrows y ∧ t = s.setData k (.marginAccount y) := by
      cases ran : (atMargin rt inv k m).run s with
      | ok u t' =>
        rw [ran] at left
        cases left
        obtain ⟨x, y, found, inner, rfl⟩ := atMargin_ok ran
        exact .inr ⟨x, y, found, Exec.Keeping.keeps.ok inner, rfl⟩
      | err e t' =>
        rw [ran] at left
        cases left
        rcases atAccount_err ran with ⟨rfl, -⟩ | ⟨x, y, found, inner, rfl, -⟩
        · exact .inl rfl
        · exact .inr ⟨x, y, AccountData.loadMargin_ok.mp found, Exec.Keeping.keeps.err inner, rfl⟩
      | abort => simp [ran] at left
    rcases written with rfl | ⟨x, y, found, grows, rfl⟩
    · exact Std.Refl.refl _
    · intro j o z held
      by_cases here : j = k
      · subst here
        rw [Ledger.data, held] at found
        cases found
        exact ⟨y, by rw [Ledger.get_setData_self, Ledger.owner, held], grows⟩
      · exact ⟨z, by rw [Ledger.get_setData_of_ne _ _ here, held], Std.Refl.refl z⟩

/-- However a match ends, free collateral does not fall when the match that the book allows is free. -/
theorem freeGrows_matchPairCore {ctx : MatchCtx} {longId shortId : ℕ}
    (free : ∀ inst b b' r, s.data ctx.instrument = .instrumentConfig inst → inst.requireActive = .ok () →
      inst.intentBook = ctx.book → s.data ctx.book = .intentBook b →
      (matchInBook rt ctx.instrument ctx.pmlc inst.collateralBucket longId shortId inv.slot).run b = .ok r b' →
      s.takerFee ctx.feeSchedule ctx.takerVolume inst.collateralBucket inv.slot = 0)
    (left : t ∈ ((matchPairCore rt inv ctx longId shortId).run s).state?) : FreeGrows s t := by
  rw [matchPairCore] at left
  rcases Exec.left_bind_check left with rfl | ⟨inst, found, left⟩
  · exact Std.Refl.refl _
  rcases Exec.left_bind_check left with rfl | ⟨_, active, left⟩
  · exact Std.Refl.refl _
  rcases Exec.left_bind_check left with rfl | ⟨_, at_book, left⟩
  · exact Std.Refl.refl _
  rcases Exec.left_bind left with ⟨e, failed⟩ | ⟨r, s1, matched, left⟩
  · have touches : Touches [.intentBook] [.intentBook] s t := Within.keeps.err failed
    exact freeGrows_of_touches touches (by simp)
  have first : Touches [.intentBook] [.intentBook] s s1 := Within.keeps.ok matched
  have grows := freeGrows_of_touches first (by simp)
  obtain ⟨b, b', held, inner, -⟩ := atBook_ok matched
  have none := free inst b b' r found active (not_not.mp at_book) held inner
  rw [← first.takerFee (by simp) (by simp)] at none
  rcases Exec.left_bind_check left with rfl | ⟨_, -, left⟩
  · exact grows
  rcases Exec.left_bind_check left with rfl | ⟨_, -, left⟩
  · exact grows
  suffices rest : FreeGrows s1 t from Trans.trans grows rest
  rcases Exec.left_bind left with ⟨e, failed⟩ | ⟨fee, s2, charged, left⟩
  · have touches : Touches [.userVolume, .feeTreasury, .raw] [.userVolume, .feeTreasury, .raw] s1 t := Within.keeps.err failed
    exact freeGrows_of_touches touches (by simp)
  have second : Touches [.userVolume, .feeTreasury, .raw] [.userVolume, .feeTreasury, .raw] s1 s2 := Within.keeps.ok charged
  obtain rfl : fee = 0 := (chargeTaker_fee charged).trans none
  have rest : FreeGrows s2 t := by
    rcases Exec.left_bind left with ⟨e, failed⟩ | ⟨_, s3, long, left⟩
    · rw [ite_self] at failed
      exact Exec.Keeping.keeps.err failed
    rw [ite_self] at long
    have grown : FreeGrows s2 s3 := Exec.Keeping.keeps.ok long
    suffices last : FreeGrows s3 t from Trans.trans grown last
    rcases Exec.left_bind left with ⟨e, failed⟩ | ⟨_, s4, short, left⟩
    · rw [ite_self] at failed
      exact Exec.Keeping.keeps.err failed
    rw [ite_self] at short
    have grown : FreeGrows s3 s4 := Exec.Keeping.keeps.ok short
    have touches : Touches [.raw] [.raw, .pmlc] s4 t := Within.keeps _ t left
    exact Trans.trans grown (freeGrows_of_touches touches (by simp))
  exact Trans.trans (freeGrows_of_touches second (by simp)) rest

end Polyleverage
