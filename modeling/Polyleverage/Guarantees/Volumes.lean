import Mathlib.Algebra.BigOperators.Group.List.Basic
import Mathlib.Algebra.Order.BigOperators.Group.List
import Mathlib.Algebra.Order.Ring.Nat
import Mathlib.Tactic.Ring
import Polyleverage.State.Fees

/-! # Volumes

A trader's volume is kept in two counters, which roll over from one epoch to the next when somebody
looks. They always agree with what the whole history adds up to, epoch by epoch.
-/

namespace Polyleverage

open Machine

namespace UserVolume

/-! ### A history of trades -/

/-- What was traded, and the slot. -/
structure Trade where
  amount : ℕ
  slot : ℕ
  deriving DecidableEq, Repr

/-- Record all trades, one after the other. -/
def addAll : List Trade → Exec ProgramError UserVolume Unit
  | [] => pure ()
  | trade :: rest => do
    addVolume trade.amount trade.slot
    addAll rest

/-- The epoch of a slot, counted from `start` on. -/
def epochOf (start length slot : ℕ) : ℕ := (slot - start) / length

section Windows

variable (start length : ℕ)

/-- What was traded in an epoch. -/
def volumeIn (epoch : ℕ) (trades : List Trade) : ℕ :=
  ((trades.filter fun trade => epochOf start length trade.slot = epoch).map Trade.amount).sum

/-- What was traded in the epoch before. -/
def volumeBefore : ℕ → List Trade → ℕ
  | 0, _ => 0
  | epoch + 1, trades => volumeIn start length epoch trades

/-- The counters after these trades, in this epoch. -/
structure Counts (epoch : ℕ) (trades : List Trade) (v : UserVolume) : Prop where
  length_eq : max v.epochLengthSlots 1 = length
  start_eq : v.epochStartSlot = start + epoch * length
  current_eq : v.volumeCurrentAtoms = volumeIn start length epoch trades
  prev_eq : v.volumePrevAtoms = volumeBefore start length epoch trades
  past : ∀ trade ∈ trades, epochOf start length trade.slot ≤ epoch

end Windows

variable {start length epoch now : ℕ} {trades : List Trade} {v v' : UserVolume} {u : Unit}

theorem volumeIn_append (more : List Trade) :
    volumeIn start length epoch (trades ++ more) = volumeIn start length epoch trades + volumeIn start length epoch more := by
  simp only [volumeIn, List.filter_append, List.map_append, List.sum_append]

theorem volumeIn_eq_zero (others : ∀ trade ∈ trades, epochOf start length trade.slot ≠ epoch) :
    volumeIn start length epoch trades = 0 := by
  have none : (trades.filter fun trade => epochOf start length trade.slot = epoch) = [] := by
    rw [List.filter_eq_nil_iff]
    intro trade member
    simpa using others trade member
  rw [volumeIn, none]
  rfl

theorem volumeIn_le_sum (epoch : ℕ) (trades : List Trade) :
    volumeIn start length epoch trades ≤ (trades.map Trade.amount).sum := by
  induction trades with
  | nil => exact Nat.le_refl 0
  | cons trade rest ih =>
    rw [List.map_cons, List.sum_cons]
    unfold volumeIn at ih ⊢
    rw [List.filter_cons]
    split
    · rw [List.map_cons, List.sum_cons]
      omega
    · omega

/-- Epochs end after `length` slots. -/
theorem epochOf_eq (positive : 0 < length) (later : start + epoch * length ≤ now) :
    epochOf start length now = epoch + (now - (start + epoch * length)) / length := by
  have split : now - start = (now - (start + epoch * length)) + length * epoch := by
    rw [Nat.mul_comm length]
    omega
  rw [epochOf, split, Nat.add_mul_div_left _ _ positive, Nat.add_comm]

/-! ### Rolling over -/

/-- When all trades lie in or before an epoch, a later one counts the epoch just before it. -/
theorem Counts.volumeBefore_eq (counts : Counts start length epoch trades v) {elapsed : ℕ} (some_elapsed : elapsed ≠ 0) :
    volumeBefore start length (epoch + elapsed) trades = if elapsed = 1 then v.volumeCurrentAtoms else 0 := by
  obtain ⟨n, rfl⟩ := Nat.exists_eq_succ_of_ne_zero some_elapsed
  change volumeIn start length (epoch + n) trades = _
  split
  next one =>
    obtain rfl : n = 0 := by omega
    exact counts.current_eq.symm
  next more =>
    apply volumeIn_eq_zero
    intro trade member same
    have := counts.past trade member
    omega

/-- The counters roll over to the epoch of the slot, and count the same trades. -/
theorem Counts.roll (counts : Counts start length epoch trades v) (later : v.epochStartSlot ≤ now) (small : now < 2 ^ 64) :
    ∃ v', (maybeRollEpoch now).run v = .ok () v' ∧ Counts start length (epochOf start length now) trades v' := by
  obtain ⟨length_eq, start_eq, current_eq, prev_eq, past⟩ := counts
  have positive : 0 < length := by omega
  have epochs : epochOf start length now = epoch + (now - v.epochStartSlot) / length := by
    rw [start_eq] at later ⊢
    exact epochOf_eq positive later
  rw [maybeRollEpoch, Exec.run_bind_get, length_eq, Exec.run_when]
  by_cases ended : length ≤ now - v.epochStartSlot
  · rw [if_pos ⟨later, ended⟩]
    generalize elapsed_eq : (now - v.epochStartSlot) / length = elapsed at epochs ⊢
    have some_elapsed : elapsed ≠ 0 := by
      rw [← elapsed_eq]
      exact (Nat.div_pos ended positive).ne'
    have within : elapsed * length ≤ now - v.epochStartSlot := by
      rw [← elapsed_eq]
      exact Nat.div_mul_le_self _ _
    have product : checkedMul 64 elapsed length = some (elapsed * length) := checkedMul_eq_some.mpr ⟨by omega, rfl⟩
    have sum : checkedAdd 64 v.epochStartSlot (elapsed * length) = some (v.epochStartSlot + elapsed * length) :=
      checkedAdd_eq_some.mpr ⟨by omega, rfl⟩
    simp only [Exec.run_bind, Exec.run_put, Outcome.bind_ok, product, Exec.orErr, Exec.run_pure, sum, Exec.run_modify]
    refine ⟨_, rfl, ⟨length_eq, ?_, ?_, ?_, ?_⟩⟩
    · rw [epochs, Nat.add_mul, ← Nat.add_assoc, ← start_eq]
    · rw [epochs]
      apply Eq.symm
      apply volumeIn_eq_zero
      intro trade member same
      have := past trade member
      omega
    · rw [epochs, Counts.volumeBefore_eq ⟨length_eq, start_eq, current_eq, prev_eq, past⟩ some_elapsed]
    · intro trade member
      have := past trade member
      omega
  · rw [if_neg fun both => ended both.2]
    rw [Nat.div_eq_of_lt (Nat.lt_of_not_le ended), Nat.add_zero] at epochs
    rw [epochs]
    exact ⟨v, rfl, length_eq, start_eq, current_eq, prev_eq, past⟩

/-- A trade is added to its epoch. -/
theorem Counts.add (counts : Counts start length epoch trades v) (later : v.epochStartSlot ≤ now) (small : now < 2 ^ 64)
    {amount : ℕ} (fits : (trades.map Trade.amount).sum + amount < 2 ^ 64) :
    ∃ v', (addVolume amount now).run v = .ok () v' ∧
      Counts start length (epochOf start length now) (trades ++ [⟨amount, now⟩]) v' := by
  obtain ⟨v1, rolled, length_eq, start_eq, current_eq, prev_eq, past⟩ := counts.roll later small
  have here : volumeIn start length (epochOf start length now) [⟨amount, now⟩] = amount := by simp [volumeIn]
  have before : volumeBefore start length (epochOf start length now) (trades ++ [⟨amount, now⟩]) =
      volumeBefore start length (epochOf start length now) trades := by
    cases known : epochOf start length now with
    | zero => rfl
    | succ epoch =>
      change volumeIn start length epoch (trades ++ _) = volumeIn start length epoch trades
      have later_trade : volumeIn start length epoch [⟨amount, now⟩] = 0 := volumeIn_eq_zero (by simp [known])
      rw [volumeIn_append, later_trade, Nat.add_zero]
  have bounded : volumeIn start length (epochOf start length now) trades ≤ _ := volumeIn_le_sum _ trades
  have sum : checkedAdd 64 v1.volumeCurrentAtoms amount = some (v1.volumeCurrentAtoms + amount) :=
    checkedAdd_eq_some.mpr ⟨by omega, rfl⟩
  rw [addVolume, Exec.run_bind_of_ok rolled, Exec.run_bind_get, sum]
  refine ⟨_, rfl, ⟨length_eq, start_eq, ?_, ?_, ?_⟩⟩
  · rw [volumeIn_append, here, ← current_eq]
  · rw [before, ← prev_eq]
  · intro trade member
    rcases List.mem_append.mp member with old | new
    · exact past trade old
    · rw [List.mem_singleton] at new
      subst new
      exact Nat.le_refl _

/-- A fresh tracker counts no trades. -/
theorem counts_init (owner mint : Pubkey) (start bump slots : ℕ) :
    Counts start (max slots 1) 0 [] { init owner mint start bump with epochLengthSlots := slots } where
  length_eq := rfl
  start_eq := by simp [init]
  current_eq := rfl
  prev_eq := rfl
  past := by simp

/-- All trades are added, as long as time goes on and the total fits. -/
theorem Counts.addAll (counts : Counts start length epoch trades v) {more : List Trade} {last : ℕ}
    (started : v.epochStartSlot ≤ last) (ordered : (last :: more.map Trade.slot).Pairwise (· ≤ ·))
    (small : ∀ trade ∈ more, trade.slot < 2 ^ 64) (fits : ((trades ++ more).map Trade.amount).sum < 2 ^ 64) :
    ∃ epoch' v', (UserVolume.addAll more).run v = .ok () v' ∧ Counts start length epoch' (trades ++ more) v' ∧
      ∀ now, (∀ slot ∈ last :: more.map Trade.slot, slot ≤ now) → v'.epochStartSlot ≤ now := by
  induction more generalizing epoch trades v last with
  | nil =>
    refine ⟨epoch, v, rfl, by rwa [List.append_nil], fun now later => ?_⟩
    exact started.trans (later last List.mem_cons_self)
  | cons trade rest ih =>
    have next : last ≤ trade.slot := List.rel_of_pairwise_cons ordered List.mem_cons_self
    have small_now := small trade List.mem_cons_self
    have split : trades ++ trade :: rest = (trades ++ [trade]) ++ rest := by simp
    rw [split] at fits ⊢
    have fits_now : (trades.map Trade.amount).sum + trade.amount < 2 ^ 64 := by
      simp only [List.map_append, List.sum_append, List.map_cons, List.map_nil, List.sum_cons, List.sum_nil] at fits
      omega
    obtain ⟨v1, added, counts1⟩ := counts.add (started.trans next) small_now fits_now
    have positive : 0 < length := by
      have := counts.length_eq
      omega
    have started1 : v1.epochStartSlot ≤ trade.slot := by
      have from_start : start ≤ trade.slot := by
        have := counts.start_eq
        have := Nat.le_add_right start (epoch * length)
        omega
      have whole := Nat.div_mul_le_self (trade.slot - start) length
      rw [counts1.start_eq, epochOf]
      omega
    obtain ⟨epoch', v', ran, counts', later⟩ := ih counts1 started1 (List.Pairwise.of_cons ordered)
      (fun other member => small other (List.mem_cons_of_mem _ member)) fits
    refine ⟨epoch', v', ?_, counts', fun now all => ?_⟩
    · rw [UserVolume.addAll, Exec.run_bind_of_ok added, ran]
    · exact later now fun slot member => all slot (List.mem_cons_of_mem _ member)

/-! ### What the tracker says -/

/-- The effective volume is the larger of this epoch's and the last one's. -/
theorem Counts.effective (counts : Counts start length epoch trades v) (later : v.epochStartSlot ≤ now) (small : now < 2 ^ 64) :
    v.effective30dVolume now = max (volumeIn start length (epochOf start length now) trades)
      (volumeBefore start length (epochOf start length now) trades) := by
  obtain ⟨v', rolled, counts'⟩ := counts.roll later small
  rw [effective30dVolume, rolled, Outcome.state?_ok, Option.getD_some, counts'.current_eq, counts'.prev_eq]

theorem volumeBefore_le_sum (epoch : ℕ) (trades : List Trade) :
    volumeBefore start length epoch trades ≤ (trades.map Trade.amount).sum := by
  cases epoch with
  | zero => exact Nat.zero_le _
  | succ epoch => exact volumeIn_le_sum epoch trades

/-- Whatever was traded, and however many epochs were skipped, the tracker says the larger of what was traded
in the epoch of the slot and in the one before. It says no more than all trades together, nothing once two
whole epochs went by without a trade, and asking leaves it as it is. -/
theorem volume_tracks_epochs (owner mint : Pubkey) (start bump slots : ℕ) {trades : List Trade} {now : ℕ}
    (ordered : (start :: trades.map Trade.slot).Pairwise (· ≤ ·)) (later : ∀ trade ∈ trades, trade.slot ≤ now)
    (begun : start ≤ now) (small : now < 2 ^ 64) (fits : (trades.map Trade.amount).sum < 2 ^ 64) :
    ∃ v, (addAll trades).run { init owner mint start bump with epochLengthSlots := slots } = .ok () v ∧
      (do let v ← Exec.get; pure (v.effective30dVolume now) : Exec ProgramError UserVolume ℕ).run v =
        .ok (max (volumeIn start (max slots 1) (epochOf start (max slots 1) now) trades)
          (volumeBefore start (max slots 1) (epochOf start (max slots 1) now) trades)) v ∧
      v.effective30dVolume now ≤ (trades.map Trade.amount).sum ∧
      ((∀ trade ∈ trades, epochOf start (max slots 1) trade.slot + 2 ≤ epochOf start (max slots 1) now) →
        v.effective30dVolume now = 0) := by
  have small_all : ∀ trade ∈ trades, trade.slot < 2 ^ 64 := fun trade member => (later trade member).trans_lt small
  obtain ⟨epoch, v, ran, counts, started⟩ :=
    (counts_init owner mint start bump slots).addAll (Nat.le_refl start) ordered small_all (by simpa using fits)
  have from_now : v.epochStartSlot ≤ now := by
    apply started
    intro slot member
    rcases List.mem_cons.mp member with rfl | member
    · exact begun
    · obtain ⟨trade, inside, rfl⟩ := List.mem_map.mp member
      exact later trade inside
  rw [List.nil_append] at counts
  have effective := counts.effective from_now small
  refine ⟨v, ran, ?_, ?_, fun idle => ?_⟩
  · rw [Exec.run_bind_get, Exec.run_pure, effective]
  · rw [effective]
    exact max_le (volumeIn_le_sum _ _) (volumeBefore_le_sum _ _)
  · rw [effective]
    generalize epochOf start (max slots 1) now = last at idle ⊢
    have current : volumeIn start (max slots 1) last trades = 0 := by
      apply volumeIn_eq_zero
      intro trade member same
      have := idle trade member
      omega
    have before : volumeBefore start (max slots 1) last trades = 0 := by
      cases last with
      | zero => rfl
      | succ last =>
        apply volumeIn_eq_zero
        intro trade member same
        have := idle trade member
        omega
    rw [current, before]
    rfl

/-- A trade in each of two epochs of ten slots, and a look at the third: the second trade counts. -/
theorem volume_tracks_epochs_skipped : ∃ v,
    (addAll [⟨500, 3⟩, ⟨200, 14⟩]).run { init ⟨14⟩ ⟨10⟩ 0 255 with epochLengthSlots := 10 } = .ok () v ∧
      v.effective30dVolume 25 ≤ 700 := by
  have ordered : (0 :: ([⟨500, 3⟩, ⟨200, 14⟩] : List Trade).map Trade.slot).Pairwise (· ≤ ·) := by decide
  have later : ∀ trade ∈ ([⟨500, 3⟩, ⟨200, 14⟩] : List Trade), trade.slot ≤ 25 := by decide
  obtain ⟨v, ran, -, bounded, -⟩ :=
    volume_tracks_epochs ⟨14⟩ ⟨10⟩ 0 255 10 ordered later (by decide) (by decide) (by decide)
  exact ⟨v, ran, bounded⟩

end UserVolume

end Polyleverage
