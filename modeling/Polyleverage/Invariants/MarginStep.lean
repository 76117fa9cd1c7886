import Polyleverage.Processor.Position
import Polyleverage.Invariants.Settling

/-! # Movements of margin accounts

What each movement of a margin account does to its total, its reserved and its locked balance. Free
collateral is what is left of the total.
-/

namespace Polyleverage

open Machine

/-- The account stays the same one, and its balances change by these amounts. -/
structure MarginStep (m m' : MarginAccount) (total reserved locked : ℤ) : Prop where
  same : m.SameAccount m'
  total : (m'.total : ℤ) = m.total + total
  reserved : (m'.reservedCollateral : ℤ) = m.reservedCollateral + reserved
  locked : (m'.lockedCollateral : ℤ) = m.lockedCollateral + locked

/-- What a change of one balance is to another one. -/
def Bucket.part (bucket other : Bucket) (amount : ℤ) : ℤ := if bucket = other then amount else 0

section Steps

variable {m m' m'' : MarginAccount} {amount c : ℕ} {total total' reserved reserved' locked locked' : ℤ} {u : Unit}

theorem MarginAccount.SameAccount.refl (m : MarginAccount) : m.SameAccount m := ⟨rfl, rfl, rfl⟩

theorem MarginStep.refl (m : MarginAccount) : MarginStep m m 0 0 0 :=
  ⟨.refl m, (add_zero _).symm, (add_zero _).symm, (add_zero _).symm⟩

theorem MarginStep.trans (first : MarginStep m m' total reserved locked)
    (next : MarginStep m' m'' total' reserved' locked') :
    MarginStep m m'' (total + total') (reserved + reserved') (locked + locked') where
  same := ⟨next.same.1.trans first.same.1, next.same.2.1.trans first.same.2.1, next.same.2.2.trans first.same.2.2⟩
  total := by rw [next.total, first.total, add_assoc]
  reserved := by rw [next.reserved, first.reserved, add_assoc]
  locked := by rw [next.locked, first.locked, add_assoc]

theorem MarginStep.cast (step : MarginStep m m' total reserved locked) (totals : total = total')
    (reserves : reserved = reserved') (locks : locked = locked') : MarginStep m m' total' reserved' locked' := by
  subst totals reserves locks
  exact step

theorem marginStep_setBalance (bucket : Bucket) (v : ℕ) :
    MarginStep m (m.setBalance bucket v) ((v : ℤ) - m.balance bucket) (bucket.part .reserved ((v : ℤ) - m.balance bucket))
      (bucket.part .locked ((v : ℤ) - m.balance bucket)) := by
  constructor
  · exact MarginAccount.sameAccount_setBalance bucket v
  all_goals
    cases bucket <;>
      simp [MarginAccount.setBalance, MarginAccount.balance, MarginAccount.total, Bucket.part] <;> omega

theorem marginStep_credit {bucket : Bucket} (ran : (MarginAccount.credit bucket amount).run m = .ok u m') :
    MarginStep m m' amount (bucket.part .reserved amount) (bucket.part .locked amount) := by
  obtain ⟨-, rfl⟩ := MarginAccount.credit_ok.mp ran
  have difference : ((m.balance bucket + amount : ℕ) : ℤ) - m.balance bucket = amount := by omega
  have step := marginStep_setBalance (m := m) bucket (m.balance bucket + amount)
  rw [difference] at step
  exact step

theorem marginStep_debit {bucket : Bucket} (ran : (MarginAccount.debit bucket amount).run m = .ok u m') :
    MarginStep m m' (-amount) (bucket.part .reserved (-amount)) (bucket.part .locked (-amount)) := by
  obtain ⟨enough, rfl⟩ := MarginAccount.debit_ok.mp ran
  have difference : ((m.balance bucket - amount : ℕ) : ℤ) - m.balance bucket = -amount := by omega
  have step := marginStep_setBalance (m := m) bucket (m.balance bucket - amount)
  rw [difference] at step
  exact step

theorem marginStep_creditFree (ran : (MarginAccount.creditFree amount).run m = .ok u m') :
    MarginStep m m' amount 0 0 := by
  simpa [Bucket.part] using marginStep_credit ran

theorem marginStep_debitFree (ran : (MarginAccount.debitFree amount).run m = .ok u m') :
    MarginStep m m' (-amount) 0 0 := by
  simpa [Bucket.part] using marginStep_debit ran

theorem marginStep_creditLocked (ran : (MarginAccount.creditLocked amount).run m = .ok u m') :
    MarginStep m m' amount 0 amount := by
  simpa [Bucket.part] using marginStep_credit ran

theorem marginStep_debitLocked (ran : (MarginAccount.debitLocked amount).run m = .ok u m') :
    MarginStep m m' (-amount) 0 (-amount) := by
  simpa [Bucket.part] using marginStep_debit ran

theorem marginStep_move {source destination : Bucket}
    (ran : (MarginAccount.move source destination amount).run m = .ok u m') :
    MarginStep m m' 0 (source.part .reserved (-amount) + destination.part .reserved amount)
      (source.part .locked (-amount) + destination.part .locked amount) := by
  rw [MarginAccount.move, Exec.bind_ok] at ran
  obtain ⟨_, m1, debited, credited⟩ := ran
  exact ((marginStep_debit debited).trans (marginStep_credit credited)).cast (by omega) rfl rfl

theorem marginStep_moveFreeToReserved (ran : (MarginAccount.moveFreeToReserved amount).run m = .ok u m') :
    MarginStep m m' 0 amount 0 := by
  simpa [Bucket.part] using marginStep_move ran

theorem marginStep_moveReservedToFree (ran : (MarginAccount.moveReservedToFree amount).run m = .ok u m') :
    MarginStep m m' 0 (-amount) 0 := by
  simpa [Bucket.part] using marginStep_move ran

theorem marginStep_moveReservedToLocked (ran : (MarginAccount.moveReservedToLocked amount).run m = .ok u m') :
    MarginStep m m' 0 (-amount) amount := by
  simpa [Bucket.part] using marginStep_move ran

theorem marginStep_moveLockedToFree (ran : (MarginAccount.moveLockedToFree amount).run m = .ok u m') :
    MarginStep m m' 0 0 (-amount) := by
  simpa [Bucket.part] using marginStep_move ran

/-- The realized PnL is for display. -/
theorem marginStep_realizedPnl (pnl : ℤ) : MarginStep m { m with realizedPnl := pnl } 0 0 0 where
  same := .refl m
  total := (add_zero _).symm
  reserved := (add_zero _).symm
  locked := (add_zero _).symm

theorem marginStep_addRealizedPnl {pnl : ℤ} (ran : (MarginAccount.addRealizedPnl pnl).run m = .ok u m') :
    MarginStep m m' 0 0 0 := by
  rw [MarginAccount.addRealizedPnl, Exec.modify_ok] at ran
  exact ran ▸ marginStep_realizedPnl _

theorem marginStep_subRealizedPnl {pnl : ℤ} (ran : (MarginAccount.subRealizedPnl pnl).run m = .ok u m') :
    MarginStep m m' 0 0 0 := by
  rw [MarginAccount.subRealizedPnl, Exec.modify_ok] at ran
  exact ran ▸ marginStep_realizedPnl _

/-- A movement that is skipped when there is nothing to move. -/
theorem marginStep_when (total reserved locked : ℤ) {movement : MarginM Unit} (ran : (Exec.when (0 < amount) movement).run m = .ok u m')
    (step : movement.run m = .ok () m' → MarginStep m m' (amount * total) (amount * reserved) (amount * locked)) :
    MarginStep m m' (amount * total) (amount * reserved) (amount * locked) := by
  rcases Exec.when_ok.mp ran with ⟨-, moved⟩ | ⟨none, rfl⟩
  · exact step moved
  · have zero : amount = 0 := Nat.eq_zero_of_not_pos none
    subst zero
    simpa using MarginStep.refl m

/-! ### The movements of the handlers -/

theorem marginStep_lockSide {perSide release fee : ℕ} (ran : (lockSide perSide release fee).run m = .ok u m') :
    MarginStep m m' (-fee) (-(perSide + release)) perSide := by
  simp only [lockSide, Exec.bind_ok] at ran
  obtain ⟨_, m1, locked, _, m2, released, charged⟩ := ran
  have step1 := marginStep_moveReservedToLocked locked
  have step2 := marginStep_when 0 (-1) 0 released fun moved =>
    (marginStep_moveReservedToFree moved).cast (by omega) (by omega) (by omega)
  have step3 := marginStep_when (-1) 0 0 charged fun moved =>
    (marginStep_debitFree moved).cast (by omega) (by omega) (by omega)
  exact ((step1.trans step2).trans step3).cast (by omega) (by omega) (by omega)

theorem marginStep_settleSide {equity : ℕ} (ran : (settleSide c equity).run m = .ok u m') :
    MarginStep m m' (equity - c) 0 (-c) := by
  obtain ⟨⟨enough, -, -⟩, rfl⟩ := settleSide_ok.mp ran
  constructor
  · exact ⟨rfl, rfl, rfl⟩
  · simp [MarginAccount.settled, MarginAccount.total]
    omega
  · simp [MarginAccount.settled]
  · simp [MarginAccount.settled]
    omega

theorem marginStep_reserveForPost {owner mint : Pubkey} {bump refund reserve : ℕ}
    (ran : (reserveForPost owner mint bump refund reserve).run m = .ok u m') :
    MarginStep m m' 0 (reserve - refund) 0 := by
  simp only [reserveForPost, Exec.bind_check, Exec.bind_ok] at ran
  obtain ⟨_, -, -, -, _, m1, refunded, reserved⟩ := ran
  have step1 := marginStep_when 0 (-1) 0 refunded fun moved =>
    (marginStep_moveReservedToFree moved).cast (by omega) (by omega) (by omega)
  exact (step1.trans (marginStep_moveFreeToReserved reserved)).cast (by omega) (by omega) (by omega)

theorem marginStep_refundMargin {mint : Pubkey} {refund : Refund} (ran : (refundMargin mint refund).run m = .ok u m') :
    MarginStep m m' 0 (-refund.total) 0 := by
  simp only [refundMargin, Exec.bind_check] at ran
  obtain ⟨_, -, -, -, moved⟩ := ran
  exact marginStep_moveReservedToFree moved

theorem marginStep_withdrawFree {owner mint : Pubkey} {bump : ℕ}
    (ran : (withdrawFree owner mint bump amount).run m = .ok u m') : MarginStep m m' (-amount) 0 0 := by
  simp only [withdrawFree, Exec.bind_check] at ran
  obtain ⟨_, -, -, -, moved⟩ := ran
  exact marginStep_debitFree moved

/-- A movement of a position's margin account. -/
theorem asOwner_ok {owner mint : Pubkey} {movement : MarginM Unit}
    (ran : (asOwner owner mint movement).run m = .ok u m') :
    (m.owner = owner ∧ m.collateralMint = mint) ∧ movement.run m = .ok u m' := by
  simp only [asOwner, Exec.bind_check, exists_const, MarginAccount.requireOwner_ok] at ran
  obtain ⟨_, rfl, identity, moved⟩ := ran
  exact ⟨identity, moved⟩

theorem marginStep_takeOver (ran : (takeOver c).run m = .ok u m') : MarginStep m m' 0 0 c := by
  simp only [takeOver, Exec.bind_ok] at ran
  obtain ⟨_, m1, paid, locked⟩ := ran
  exact ((marginStep_debitFree paid).trans (marginStep_creditLocked locked)).cast (by omega) (by omega) (by omega)

/-- A difference that fits is paid whole. -/
theorem marginStep_leaveSide {bucket release : ℕ} {delta : ℤ} (fits : delta.natAbs < 2 ^ 64)
    (ran : (leaveSide bucket release delta).run m = .ok u m') :
    MarginStep m m' delta (-(bucket + release)) (-bucket) := by
  have whole := truncate_of_lt fits
  simp only [leaveSide, Exec.bind_ok, whole] at ran
  obtain ⟨_, m1, gaveUp, _, m2, released, _, m3, unlocked, settled⟩ := ran
  have step1 := marginStep_moveReservedToFree gaveUp
  have step2 := marginStep_when 0 (-1) 0 released fun moved =>
    (marginStep_moveReservedToFree moved).cast (by omega) (by omega) (by omega)
  have step3 := marginStep_moveLockedToFree unlocked
  have step4 : MarginStep m3 m' delta 0 0 := by
    split at settled
    · rw [Exec.bind_ok] at settled
      obtain ⟨_, m4, paid, shown⟩ := settled
      exact ((marginStep_creditFree paid).trans (marginStep_addRealizedPnl shown)).cast (by omega) rfl rfl
    · split at settled
      · rw [Exec.bind_ok] at settled
        obtain ⟨_, m4, paid, shown⟩ := settled
        exact ((marginStep_debitFree paid).trans (marginStep_subRealizedPnl shown)).cast (by omega) rfl rfl
      · obtain ⟨-, rfl⟩ := Exec.pure_ok.mp settled
        exact (MarginStep.refl m3).cast (by omega) rfl rfl
  exact (((step1.trans step2).trans step3).trans step4).cast (by omega) (by omega) (by omega)

theorem marginStep_enterSide {bucket release : ℕ} {delta : ℤ} (fits : delta.natAbs < 2 ^ 64)
    (ran : (enterSide bucket release delta).run m = .ok u m') :
    MarginStep m m' (-delta) (-(bucket + release)) bucket := by
  have whole := truncate_of_lt fits
  simp only [enterSide, Exec.bind_ok, whole] at ran
  obtain ⟨_, m1, locked, _, m2, released, settled⟩ := ran
  have step1 := marginStep_moveReservedToLocked locked
  have step2 := marginStep_when 0 (-1) 0 released fun moved =>
    (marginStep_moveReservedToFree moved).cast (by omega) (by omega) (by omega)
  have step3 : MarginStep m2 m' (-delta) 0 0 := by
    split at settled
    · exact (marginStep_debitFree settled).cast (by omega) rfl rfl
    · split at settled
      · exact (marginStep_creditFree settled).cast (by omega) rfl rfl
      · obtain ⟨-, rfl⟩ := Exec.pure_ok.mp settled
        exact (MarginStep.refl m2).cast (by omega) rfl rfl
  exact ((step1.trans step2).trans step3).cast (by omega) (by omega) (by omega)

end Steps

end Polyleverage
