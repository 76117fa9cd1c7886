import Polyleverage.Invariants.BookMatch
import Polyleverage.Processor.Intent

/-! # How a fee buffer is used up

Every fill of one contract hands back an equal share of what is left of the fee buffer, rounded down, and the
last one all of it. So nothing is lost, and no fill gets less than the fee that was set aside for it.
-/

namespace Polyleverage

open Machine

namespace Book

/-! ### Shares of what is left -/

/-- An equal share of an amount that has `q` for each is at least `q`. -/
theorem le_share {amount count q : ℕ} (positive : 0 < count) (enough : count * q ≤ amount) : q ≤ amount / count := by
  rw [Nat.le_div_iff_mul_le positive, Nat.mul_comm]
  exact enough

/-- And what it leaves has `q` for each of the others. -/
theorem le_sub_share {amount count q : ℕ} (enough : (count + 1) * q ≤ amount) :
    count * q ≤ amount - amount / (count + 1) := by
  have shares : (count + 1) * (amount / (count + 1)) ≤ amount := Nat.mul_div_le amount (count + 1)
  have others : count * q ≤ count * (amount / (count + 1)) :=
    Nat.mul_le_mul_left count (le_share (Nat.succ_pos count) enough)
  rw [Nat.succ_mul] at shares
  omega

/-! ### One side of a fill -/

/-- One contract of an order is filled. The result is the order that is left, and its release. -/
def fillOne (bucket : ℕ) (node : IntentNode) : Except ProgramError (IntentNode × ℕ) := do
  let reserved ← consume.insufficientReserved (checkedSub node.reservedCollateral bucket)
  let release ← fillRelease node
  let buffer ← consume.underflow (checkedSub node.feeBuffer release)
  .ok ({ node with
    contractsRemaining := node.contractsRemaining - 1
    reservedCollateral := reserved
    feeBuffer := buffer }, release)

/-- So many contracts of an order are filled, one after the other. The result is the order that is left, and the
releases. -/
def fillMany (bucket : ℕ) : ℕ → IntentNode → Except ProgramError (IntentNode × List ℕ)
  | 0, node => .ok (node, [])
  | count + 1, node => do
    let (next, release) ← fillOne bucket node
    let (last, releases) ← fillMany bucket count next
    .ok (last, release :: releases)

variable {bucket : ℕ} {node : IntentNode}

/-- A fill releases the share of one contract. -/
theorem fillRelease_eq : fillRelease node = releaseFeeBufferForFill node.feeBuffer node.contractsRemaining 1 := by
  unfold fillRelease
  split
  next last =>
    rw [last]
    rfl
  next => rfl

/-- A fee buffer of 64 bits is shared out without overflow. -/
theorem releaseFeeBufferForFill_eq {buffer count : ℕ} (small : buffer < 2 ^ 64) :
    releaseFeeBufferForFill buffer (count + 1) 1 = .ok (if count = 0 then buffer else buffer / (count + 1)) := by
  unfold releaseFeeBufferForFill
  rw [if_neg (by omega)]
  by_cases last : count = 0
  · rw [if_pos (by omega), if_pos last]
  · have share : buffer * 1 / (count + 1) < 2 ^ 64 := by
      rw [Nat.mul_one]
      exact lt_of_le_of_lt (Nat.div_le_self _ _) small
    rw [if_neg (by omega), if_neg last, orOverflow_ok]
    dsimp only
    rw [if_pos share, Nat.mul_one]

theorem fillOne_ok {next : IntentNode} {release : ℕ} : fillOne bucket node = .ok (next, release) ↔
    bucket ≤ node.reservedCollateral ∧ fillRelease node = .ok release ∧ node.fill bucket release = next := by
  unfold fillOne consume.insufficientReserved checkedSub
  split
  next reserved found =>
    split at found
    next enough =>
      cases found
      cases released : fillRelease node with
      | error e => simp [bind, Except.bind]
      | ok release' =>
        have le := (fillRelease_ok released).1
        simp only [bind, Except.bind, consume.underflow, if_pos le, enough, Except.ok.injEq, Prod.mk.injEq, true_and]
        constructor
        · rintro ⟨rfl, rfl⟩
          exact ⟨rfl, rfl⟩
        · rintro ⟨rfl, rfl⟩
          exact ⟨rfl, rfl⟩
    · cases found
  next missing =>
    split at missing
    · cases missing
    next short =>
      simp [bind, Except.bind, short]

/-- Consuming a pair fills one contract on each side. -/
theorem consume_iff {p q : Pair} {longRelease shortRelease : ℕ} :
    consume bucket p = .ok (q, longRelease, shortRelease) ↔
      fillOne bucket p.long = .ok (q.long, longRelease) ∧ fillOne bucket p.short = .ok (q.short, shortRelease) ∧
        q.longIdx = p.longIdx ∧ q.shortIdx = p.shortIdx := by
  simp only [fillOne_ok]
  constructor
  · intro consumed
    obtain ⟨rfl, long, short, longReleased, shortReleased⟩ := consume_ok consumed
    exact ⟨⟨long, longReleased, rfl⟩, ⟨short, shortReleased, rfl⟩, rfl, rfl⟩
  · rintro ⟨⟨long, longReleased, longFilled⟩, ⟨short, shortReleased, shortFilled⟩, longIdx, shortIdx⟩
    have longLe := (fillRelease_ok longReleased).1
    have shortLe := (fillRelease_ok shortReleased).1
    obtain ⟨_, _, _, _⟩ := q
    dsimp only at longFilled shortFilled longIdx shortIdx
    subst longFilled shortFilled longIdx shortIdx
    simp only [consume, checkedSub, if_pos long, if_pos short, longReleased, shortReleased, if_pos longLe, if_pos shortLe,
      consume.insufficientReserved, consume.underflow, bind, Except.bind]
    rfl

/-! ### All of it -/

/-- An order with `q` in its fee buffer for each contract that is left, and nothing in it when none is. -/
structure Funded (bucket q : ℕ) (node : IntentNode) : Prop where
  small : node.feeBuffer < 2 ^ 64
  enough : node.contractsRemaining * q ≤ node.feeBuffer
  reserved : node.reservedCollateral = node.contractsRemaining * bucket
  used_up : node.contractsRemaining = 0 → node.feeBuffer = 0

variable {q count : ℕ}

/-- A fill releases at least `q` and leaves an order that is still funded. -/
theorem Funded.fillOne (funded : Funded bucket q node) (left : node.contractsRemaining = count + 1) :
    ∃ next release, fillOne bucket node = .ok (next, release) ∧ Funded bucket q next ∧ q ≤ release ∧
      release + next.feeBuffer = node.feeBuffer ∧ next.contractsRemaining = count := by
  have enough := funded.enough
  have reserved := funded.reserved
  rw [left] at enough reserved
  have released := @releaseFeeBufferForFill_eq node.feeBuffer count funded.small
  rw [← left, ← fillRelease_eq] at released
  have bucket_le : bucket ≤ node.reservedCollateral := by
    rw [reserved, Nat.succ_mul]
    exact Nat.le_add_left _ _
  have reserved' : node.reservedCollateral - bucket = count * bucket := by
    rw [reserved, Nat.succ_mul, Nat.add_sub_cancel]
  have small := funded.small
  refine ⟨_, _, fillOne_ok.mpr ⟨bucket_le, released, rfl⟩, ?_, ?_, ?_, ?_⟩
  · refine ⟨?_, ?_, ?_, ?_⟩
    · exact lt_of_le_of_lt (Nat.sub_le _ _) small
    · change (node.contractsRemaining - 1) * q ≤ node.feeBuffer - _
      rw [left, Nat.add_sub_cancel]
      split
      next last =>
        rw [last, Nat.zero_mul]
        exact Nat.zero_le _
      next => exact le_sub_share enough
    · change node.reservedCollateral - bucket = (node.contractsRemaining - 1) * bucket
      rw [left, Nat.add_sub_cancel, reserved']
    · intro none
      change node.contractsRemaining - 1 = 0 at none
      change node.feeBuffer - _ = 0
      rw [if_pos (by omega), Nat.sub_self]
  · split
    next last =>
      rw [last, Nat.zero_add, Nat.one_mul] at enough
      exact enough
    next =>
      rw [left]
      exact le_share (Nat.succ_pos count) enough
  · exact Nat.add_sub_cancel' (fillRelease_ok released).1
  · change node.contractsRemaining - 1 = count
    rw [left, Nat.add_sub_cancel]

/-- A pair of orders that are backed can be filled. -/
theorem exists_consume {p : Pair} (left : p.long.contractsRemaining ≠ 0 ∧ p.short.contractsRemaining ≠ 0)
    (reserved : p.long.reservedCollateral = p.long.contractsRemaining * bucket ∧
      p.short.reservedCollateral = p.short.contractsRemaining * bucket)
    (longSmall : p.long.feeBuffer < 2 ^ 64) (shortSmall : p.short.feeBuffer < 2 ^ 64) :
    ∃ longRelease shortRelease, consume bucket p =
      .ok ({ p with long := p.long.fill bucket longRelease, short := p.short.fill bucket shortRelease }, longRelease, shortRelease) := by
  have gives : ∀ node : IntentNode, node.contractsRemaining ≠ 0 → node.reservedCollateral = node.contractsRemaining * bucket →
      node.feeBuffer < 2 ^ 64 → ∃ release, fillOne bucket node = .ok (node.fill bucket release, release) := by
    intro node some_left backed small
    have funded : Funded bucket 0 node := ⟨small, by omega, backed, fun used_up => absurd used_up some_left⟩
    obtain ⟨count, several⟩ := Nat.exists_eq_succ_of_ne_zero some_left
    obtain ⟨next, release, filled, -⟩ := funded.fillOne several
    obtain ⟨-, -, rfl⟩ := fillOne_ok.mp filled
    exact ⟨release, filled⟩
  obtain ⟨longRelease, long⟩ := gives p.long left.1 reserved.1 longSmall
  obtain ⟨shortRelease, short⟩ := gives p.short left.2 reserved.2 shortSmall
  exact ⟨longRelease, shortRelease, consume_iff.mpr ⟨long, short, rfl, rfl⟩⟩

/-- So does every run of fills that there are contracts for. -/
theorem Funded.fillMany (funded : Funded bucket q node) (le : count ≤ node.contractsRemaining) :
    ∃ last releases, fillMany bucket count node = .ok (last, releases) ∧ Funded bucket q last ∧
      releases.length = count ∧ (∀ release ∈ releases, q ≤ release) ∧
      releases.sum + last.feeBuffer = node.feeBuffer ∧ last.contractsRemaining = node.contractsRemaining - count := by
  induction count generalizing node with
  | zero => exact ⟨node, [], rfl, funded, rfl, by simp, by simp, rfl⟩
  | succ count ih =>
    obtain ⟨rest, left⟩ := Nat.exists_eq_add_of_lt le
    obtain ⟨next, release, filled, funded', at_least, sum, remaining⟩ := funded.fillOne left
    obtain ⟨last, releases, filled', funded'', length, all, sum', remaining'⟩ := ih funded' (by omega)
    refine ⟨last, release :: releases, ?_, funded'', congrArg (· + 1) length, ?_, ?_, by omega⟩
    · simp only [Book.fillMany, filled, filled', bind, Except.bind]
    · intro r member
      rcases List.mem_cons.mp member with rfl | member
      · exact at_least
      · exact all r member
    · rw [List.sum_cons]
      omega

/-- A fresh order with the fee buffer of its contracts is funded with the fee of one contract. -/
theorem funded_of_feeBufferFor {contracts rate buffer : ℕ} (positive : contracts ≠ 0)
    (buffered : feeBufferFor contracts bucket rate = .ok buffer) (remaining : node.contractsRemaining = contracts)
    (reserved : node.reservedCollateral = contracts * bucket) (held : node.feeBuffer = buffer) :
    Funded bucket (bucket * rate / BPS_DENOM) node := by
  rw [feeBufferFor, orOverflow_ok] at buffered
  simp only [Option.bind_eq_bind, Option.bind_eq_some_iff, checkedMul_eq_some] at buffered
  obtain ⟨_, ⟨-, rfl⟩, _, ⟨-, rfl⟩, small⟩ := buffered
  split at small
  next fits =>
    cases small
    refine ⟨held ▸ fits, ?_, remaining ▸ reserved, fun none => absurd (remaining ▸ none) positive⟩
    rw [remaining, held, Nat.le_div_iff_mul_le (by decide), Nat.mul_assoc, Nat.mul_assoc]
    exact Nat.mul_le_mul_left contracts (Nat.div_mul_le_self _ _)
  · cases small

end Book

/-- The fee buffer of an order is handed back exactly. Each fill releases at least the fee of one contract at the rate
that was buffered for, and so at any lower one; all fills together release all of it; and after some of them a cancel
refunds the rest. -/
theorem fee_buffer_amortised {contracts bucket rate buffer count : ℕ} {node : IntentNode} (positive : contracts ≠ 0)
    (buffered : feeBufferFor contracts bucket rate = .ok buffer) (remaining : node.contractsRemaining = contracts)
    (reserved : node.reservedCollateral = contracts * bucket) (held : node.feeBuffer = buffer) (le : count ≤ contracts) :
    ∃ last releases, Book.fillMany bucket count node = .ok (last, releases) ∧ releases.length = count ∧
      (∀ release ∈ releases, bucket * rate / BPS_DENOM ≤ release ∧
        ∀ tier ≤ rate, bucket * tier / BPS_DENOM ≤ release) ∧
      releases.sum + last.feeBuffer = buffer ∧ (count = contracts → releases.sum = buffer) ∧
      (contracts * bucket + buffer < 2 ^ 64 →
        Book.reservation last = .ok ((contracts - count) * bucket + (buffer - releases.sum))) := by
  have funded := Book.funded_of_feeBufferFor positive buffered remaining reserved held
  obtain ⟨last, releases, filled, funded', length, all, sum, remaining'⟩ := funded.fillMany (remaining ▸ le)
  rw [held] at sum
  rw [remaining] at remaining'
  have rest : last.feeBuffer = buffer - releases.sum := by omega
  refine ⟨last, releases, filled, length, fun release member => ⟨all release member, fun tier below => ?_⟩, sum, ?_, ?_⟩
  · exact le_trans (Nat.div_le_div_right (Nat.mul_le_mul_left bucket below)) (all release member)
  · rintro rfl
    have none := funded'.used_up (by omega)
    omega
  · intro fits
    have part : (contracts - count) * bucket ≤ contracts * bucket := Nat.mul_le_mul_right bucket (Nat.sub_le _ _)
    rw [Book.reservation, orOverflow_ok, checkedAdd_eq_some, funded'.reserved, remaining', rest]
    exact ⟨by omega, rfl⟩

/-- Three contracts of a thousand atoms at a rate of 337 have a buffer of 101. Two fills release 33 and 34, and a
cancel refunds 34 and the collateral of one contract. -/
theorem fee_buffer_amortised_cancelled : ∃ last releases,
    Book.fillMany 1000 2 (Book.Draft.node ⟨SIDE_LONG, 0, 1, 3, 100, 3000, 101⟩ 1 1 0) = .ok (last, releases) ∧
      releases.sum + last.feeBuffer = 101 ∧ Book.reservation last = .ok (1 * 1000 + (101 - releases.sum)) := by
  obtain ⟨last, releases, filled, -, -, sum, -, refund⟩ :=
    @fee_buffer_amortised 3 1000 337 101 2 (Book.Draft.node ⟨SIDE_LONG, 0, 1, 3, 100, 3000, 101⟩ 1 1 0)
      (by decide) (by decide) rfl rfl rfl (by decide)
  exact ⟨last, releases, filled, sum, refund (by decide)⟩

end Polyleverage
