import Mathlib.Order.Bounds.Basic
import Polyleverage.Guarantees.Reentries
import Polyleverage.Invariants.Posting

/-! # The size of a re-entry

A re-entry posts as many contracts as the free collateral pays for, fee buffer included. The count is guessed
without the fee and then brought down until it fits; because the cost grows with the count, the first one that
fits is the greatest.
-/

namespace Polyleverage

open Machine

variable {rt : Runtime} {inv : rt.Invocation} {s t : Ledger}

/-! ### What contracts cost -/

/-- The counts that the free collateral pays for. -/
def Affordable (free bucket maxFeeBps : ℕ) : Set ℕ :=
  {n | n ≤ 65535 ∧ ∃ feeBuffer, feeBufferFor n bucket maxFeeBps = .ok feeBuffer ∧ n * bucket + feeBuffer ≤ free}

/-- Collateral and fee buffer, without any bound. -/
def contractsCost (n bucket maxFeeBps : ℕ) : ℕ := n * bucket + n * bucket * maxFeeBps / BPS_DENOM

variable {free bucket maxFeeBps n k : ℕ}

theorem contractsCost_mono (le : n ≤ k) : contractsCost n bucket maxFeeBps ≤ contractsCost k bucket maxFeeBps := by
  have collateral : n * bucket ≤ k * bucket := Nat.mul_le_mul_right bucket le
  exact Nat.add_le_add collateral (Nat.div_le_div_right (Nat.mul_le_mul_right maxFeeBps collateral))

/-- A fee of at most a tenth adds at most a tenth. -/
theorem contractsCost_le (bounded : maxFeeBps ≤ 1000) (paid : n * bucket ≤ free) :
    contractsCost n bucket maxFeeBps ≤ free + free / 10 := by
  have fee : n * bucket * maxFeeBps / BPS_DENOM ≤ free / 10 := by
    calc n * bucket * maxFeeBps / BPS_DENOM ≤ free * 1000 / BPS_DENOM :=
          Nat.div_le_div_right (Nat.mul_le_mul paid bounded)
      _ = free / 10 := by
          rw [show BPS_DENOM = 10 * 1000 from rfl]
          exact Nat.mul_div_mul_right free 10 (by decide)
  exact Nat.add_le_add paid fee

theorem feeBufferFor_eq (bounded : maxFeeBps ≤ 1000) (small : contractsCost n bucket maxFeeBps < 2 ^ 64) :
    feeBufferFor n bucket maxFeeBps = .ok (n * bucket * maxFeeBps / BPS_DENOM) := by
  have collateral : n * bucket < 2 ^ 64 := Nat.lt_of_le_of_lt (Nat.le_add_right _ _) small
  have fee : n * bucket * maxFeeBps / BPS_DENOM < 2 ^ 64 := Nat.lt_of_le_of_lt (Nat.le_add_left _ _) small
  have atoms : checkedMul 128 n bucket = some (n * bucket) := checkedMul_eq_some.mpr ⟨by omega, rfl⟩
  have scaled : checkedMul 128 (n * bucket) maxFeeBps = some (n * bucket * maxFeeBps) := by
    refine checkedMul_eq_some.mpr ⟨?_, rfl⟩
    calc n * bucket * maxFeeBps ≤ 2 ^ 64 * 1000 := Nat.mul_le_mul collateral.le bounded
      _ < 2 ^ 128 := by decide
  rw [feeBufferFor, orOverflow_ok]
  simp only [atoms, scaled, fee, if_true, bind, Option.bind]

/-- What is affordable costs no more than there is. -/
theorem mem_affordable (bounded : maxFeeBps ≤ 1000) (small : free < 2 ^ 64) :
    n ∈ Affordable free bucket maxFeeBps ↔ n ≤ 65535 ∧ contractsCost n bucket maxFeeBps ≤ free := by
  constructor
  · rintro ⟨few, feeBuffer, buffered, paid⟩
    rw [feeBufferFor_ok buffered] at paid
    exact ⟨few, paid⟩
  · rintro ⟨few, paid⟩
    exact ⟨few, _, feeBufferFor_eq bounded (Nat.lt_of_le_of_lt paid small), paid⟩

theorem reserveFor_eq (bounded : maxFeeBps ≤ 1000) (small : contractsCost n bucket maxFeeBps < 2 ^ 64) :
    reserveFor n bucket maxFeeBps =
      .ok (n * bucket, n * bucket * maxFeeBps / BPS_DENOM, contractsCost n bucket maxFeeBps) := by
  have collateral : checkedMul 64 n bucket = some (n * bucket) :=
    checkedMul_eq_some.mpr ⟨Nat.lt_of_le_of_lt (Nat.le_add_right _ _) small, rfl⟩
  have total : checkedAdd 64 (n * bucket) (n * bucket * maxFeeBps / BPS_DENOM) = some (contractsCost n bucket maxFeeBps) :=
    checkedAdd_eq_some.mpr ⟨small, rfl⟩
  simp only [reserveFor, collateral, feeBufferFor_eq bounded small, total, orOverflow, bind, Except.bind]

/-! ### Bringing the count down -/

/-- One count after the other is tried, from the top, and the first one that fits is taken. -/
theorem run_trimContracts (bounded : maxFeeBps ≤ 1000) (small : contractsCost k bucket maxFeeBps < 2 ^ 64) (s : Ledger) :
    ∃ n, (trimContracts free bucket maxFeeBps k).run s = .ok n s ∧ n ≤ k ∧
      (n = 0 ∨ contractsCost n bucket maxFeeBps ≤ free) ∧
        ∀ j, n < j → j ≤ k → free < contractsCost j bucket maxFeeBps := by
  induction k with
  | zero =>
    refine ⟨0, rfl, Nat.le_refl 0, .inl rfl, ?_⟩
    intro j above below
    omega
  | succ k ih =>
    have collateral : ¬ 2 ^ 64 ≤ (k + 1) * bucket :=
      Nat.not_le.mpr (Nat.lt_of_le_of_lt (Nat.le_add_right _ _) small)
    have total : ¬ 2 ^ 64 ≤ (k + 1) * bucket + (k + 1) * bucket * maxFeeBps / BPS_DENOM := Nat.not_le.mpr small
    have run : (trimContracts free bucket maxFeeBps (k + 1)).run s =
        (if contractsCost (k + 1) bucket maxFeeBps ≤ free then pure (k + 1)
          else trimContracts free bucket maxFeeBps k : LedgerM ℕ).run s := by
      rw [trimContracts, Exec.run_bind, Exec.run_abortIf, if_neg collateral, Outcome.bind_ok,
        feeBufferFor_eq bounded small]
      show (Exec.abortIf _ >>= _ : LedgerM ℕ).run s = _
      rw [Exec.run_bind, Exec.run_abortIf, if_neg total, Outcome.bind_ok]
      rfl
    rw [run]
    split
    next fits =>
      refine ⟨k + 1, rfl, Nat.le_refl _, .inr fits, ?_⟩
      intro j above below
      omega
    next dear =>
      have lower : contractsCost k bucket maxFeeBps < 2 ^ 64 := Nat.lt_of_le_of_lt (contractsCost_mono (Nat.le_succ k)) small
      obtain ⟨n, ran, le, fits, greatest⟩ := ih lower
      refine ⟨n, ran, Nat.le_succ_of_le le, fits, ?_⟩
      intro j above below
      obtain top | lower := Nat.lt_or_ge k j
      · obtain rfl : j = k + 1 := by omega
        exact Nat.not_le.mp dear
      · exact greatest j above lower

/-- The count that is posted is the greatest affordable one, and no step on the way to it overflows. -/
theorem run_affordableContracts (priced : 0 < bucket) (bounded : maxFeeBps ≤ 1000) (room : free + free / 10 < 2 ^ 64)
    (s : Ledger) :
    ∃ n, (affordableContracts free bucket maxFeeBps).run s = .ok n s ∧ IsGreatest (Affordable free bucket maxFeeBps) n := by
  have small : free < 2 ^ 64 := by omega
  -- Without the fee, nothing above the first guess is affordable.
  have guess : min (free / bucket) (maxValue 16) * bucket ≤ free :=
    (Nat.mul_le_mul_right bucket (Nat.min_le_left _ _)).trans (Nat.div_mul_le_self free bucket)
  have cost := Nat.lt_of_le_of_lt (contractsCost_le bounded guess) room
  have above : ∀ j ∈ Affordable free bucket maxFeeBps, j ≤ min (free / bucket) (maxValue 16) := by
    intro j affordable
    obtain ⟨few, paid⟩ := (mem_affordable bounded small).mp affordable
    refine Nat.le_min.mpr ⟨?_, few⟩
    rw [Nat.le_div_iff_mul_le priced]
    exact (Nat.le_add_right _ _).trans paid
  have few : min (free / bucket) (maxValue 16) ≤ 65535 := Nat.min_le_right _ _
  generalize guessed : min (free / bucket) (maxValue 16) = top at guess cost above few
  have run : (affordableContracts free bucket maxFeeBps).run s =
      (if free < contractsCost top bucket maxFeeBps then trimContracts free bucket maxFeeBps top else pure top : LedgerM ℕ).run s := by
    rw [affordableContracts, guessed, reserveFor_eq bounded cost]
    rfl
  rw [run]
  split
  next dear =>
    obtain ⟨n, ran, le, fits, greatest⟩ : ∃ n, (trimContracts free bucket maxFeeBps top).run s = .ok n s ∧ _ :=
      run_trimContracts bounded cost s
    refine ⟨n, ran, ?_, ?_⟩
    · rw [mem_affordable bounded small]
      refine ⟨le.trans few, ?_⟩
      obtain rfl | fits := fits
      · simp [contractsCost]
      · exact fits
    · intro j affordable
      by_contra higher
      obtain ⟨-, paid⟩ := (mem_affordable bounded small).mp affordable
      exact absurd paid (Nat.not_le.mpr (greatest j (Nat.not_le.mp higher) (above j affordable)))
  next fits =>
    exact ⟨top, rfl, (mem_affordable bounded small).mpr ⟨few, Nat.not_lt.mp fits⟩, above⟩

/-! ### The claim -/

/-- What a claim checks before it looks at the balances. The result is the position, the instrument and the margin
account. -/
def claimReentryChecks (rt : Runtime) (inv : rt.Invocation) (owner config pmlc instrument book margin : Pubkey)
    (args : ClaimReentryArgs) : LedgerM (Pmlc × InstrumentConfig × MarginAccount) := do
  assertSigner rt inv owner
  assertWritable rt inv pmlc
  assertWritable rt inv book
  assertWritable rt inv margin
  assertOwned rt [config, pmlc, instrument, book, margin]
  let _ ← loadUnpaused config
  Exec.rejectIf (args.side.toNat ≠ SIDE_LONG ∧ args.side.toNat ≠ SIDE_SHORT) PolyleverageError.invalidInstructionData
  let p ← load AccountData.loadPmlc pmlc
  Exec.rejectIf (p.status = PMLC_STATUS_LIVE) PolyleverageError.pmlcNotLive
  Exec.rejectIf (p.flags &&& reentryFlag args.side.toNat = 0) PolyleverageError.invalidPmlcSide
  Exec.rejectIf (p.owner args.side.toNat ≠ owner) PolyleverageError.missingSigner
  Exec.rejectIf (instrument ≠ p.instrument) PolyleverageError.invalidPda
  let inst ← load AccountData.loadInstrument instrument
  Exec.ofExcept inst.requireActive
  Exec.rejectIf (inst.collateralMint ≠ p.collateralMint) PolyleverageError.invalidPda
  Exec.rejectIf (inst.intentBook ≠ book) PolyleverageError.invalidPda
  Exec.ofExcept (validatePriceTicked (p.reentryPriceFp args.side.toNat) inst.tickFp)
  Exec.rejectIf (args.expirationSlot.toNat ≤ inv.slot) PolyleverageError.intentExpired
  let _ ← assertPda rt (.margin owner p.collateralMint) margin
  let m ← load AccountData.loadMargin margin
  Exec.ofExcept (m.requireOwner owner p.collateralMint)
  pure (p, inst, m)

/-- What a claim does after its checks. -/
def claimAfterChecks (rt : Runtime) (inv : rt.Invocation) (owner pmlc book margin : Pubkey) (args : ClaimReentryArgs) (p : Pmlc)
    (inst : InstrumentConfig) (m : MarginAccount) : LedgerM Unit := do
  Exec.abortIf (inst.collateralBucket = 0)
  if m.freeCollateral / inst.collateralBucket = 0 then clearReentry rt inv pmlc args.side.toNat
  else do
    let b ← load AccountData.loadBook book
    let contracts ← affordableContracts m.freeCollateral inst.collateralBucket b.header.cachedMaxFeeBps
    if contracts = 0 then clearReentry rt inv pmlc args.side.toNat
    else reenter rt inv owner book margin pmlc inst p args contracts b.header.cachedMaxFeeBps

variable {owner config pmlc instrument book margin : Pubkey} {rest : List Pubkey} {args : ClaimReentryArgs} {p : Pmlc}
  {inst : InstrumentConfig} {m : MarginAccount} {b : IntentBook}

theorem bind_bind {α β γ : Type} (x : LedgerM α) (f : α → LedgerM β) (g : β → LedgerM γ) :
    x >>= f >>= g = x >>= fun a => f a >>= g := by
  apply Exec.ext
  intro s
  simp only [Exec.run_bind]
  cases x.run s <;> rfl

theorem processClaimReentry_eq (accounts : inv.accounts = owner :: config :: pmlc :: instrument :: book :: margin :: rest) :
    processClaimReentry rt inv args = (do
      let (p, inst, m) ← claimReentryChecks rt inv owner config pmlc instrument book margin args
      claimAfterChecks rt inv owner pmlc book margin args p inst m) := by
  rw [processClaimReentry, accounts, claimReentryChecks]
  simp only [bind_bind]
  rfl

/-- What the checks have found. -/
structure ClaimChecked (rt : Runtime) (inv : rt.Invocation) (s : Ledger) (pmlc margin : Pubkey) (args : ClaimReentryArgs) (p : Pmlc)
    (m : MarginAccount) : Prop where
  writable : inv.isWritable pmlc = true
  owned : s.owner pmlc = rt.programId
  pmlc_eq : s.data pmlc = .pmlc p
  margin_eq : s.data margin = .marginAccount m
  isSide : IsSide args.side.toNat

theorem claimReentryChecks_ok
    (checked : (claimReentryChecks rt inv owner config pmlc instrument book margin args).run s = .ok (p, inst, m) t) :
    ClaimChecked rt inv s pmlc margin args p m ∧ s = t := by
  simp only [claimReentryChecks, Exec.bind_check, exists_const, Exec.pure_ok, Prod.mk.injEq] at checked
  obtain ⟨-, writable, -, -, owned, -, -, side, p', held, -, -, -, -, inst', -, -, -, -, -, -, _, -, m', found, -,
    ⟨rfl, rfl, rfl⟩, rfl⟩ := checked
  refine ⟨⟨writable, owned _ (by simp), held, found, ?_⟩, rfl⟩
  by_contra neither
  exact side ⟨fun long => neither (.inl long), fun short => neither (.inr short)⟩

theorem run_clearReentry {side : ℕ} (writable : inv.isWritable pmlc = true) (owned : s.owner pmlc = rt.programId)
    (held : s.data pmlc = .pmlc p) :
    (clearReentry rt inv pmlc side).run s = .ok () (s.setData pmlc (.pmlc (p.clearFlags (reentryFlag side)))) := by
  have loaded : AccountData.loadPmlc (s.data pmlc) = .ok p := by
    rw [held]
    rfl
  exact run_atAccount writable owned loaded rfl

/-- The order of a re-entry with this size. -/
def reentryDraft (p : Pmlc) (args : ClaimReentryArgs) (contracts reservedCollateral feeBuffer : ℕ) : Book.Draft where
  side := args.side.toNat
  flags := INTENT_FLAG_REENTRY
  priceFp := p.reentryPriceFp args.side.toNat
  contracts
  expirationSlot := args.expirationSlot.toNat
  reservedCollateral
  feeBuffer

/-- What a re-entry of this size does: it moves the sum from free to reserved, posts the order, and uses the right up. -/
def reenterWith (rt : Runtime) (inv : rt.Invocation) (owner pmlc book margin : Pubkey) (args : ClaimReentryArgs) (p : Pmlc)
    (contracts reservedCollateral feeBuffer : ℕ) : LedgerM Unit := do
  atMargin rt inv margin (MarginAccount.moveFreeToReserved (reservedCollateral + feeBuffer))
  let _ ← atBook rt inv book (Book.post owner (reentryDraft p args contracts reservedCollateral feeBuffer))
  clearReentry rt inv pmlc args.side.toNat

theorem reenter_eq {contracts maxFeeBps : ℕ} (bounded : maxFeeBps ≤ 1000)
    (small : contractsCost contracts inst.collateralBucket maxFeeBps < 2 ^ 64) :
    reenter rt inv owner book margin pmlc inst p args contracts maxFeeBps =
      reenterWith rt inv owner pmlc book margin args p contracts (contracts * inst.collateralBucket)
        (contracts * inst.collateralBucket * maxFeeBps / BPS_DENOM) := by
  rw [reenter, reserveFor_eq bounded small]
  rfl

/-- After the checks, a claim is of the greatest affordable size. -/
theorem run_claimAfterChecks (checked : ClaimChecked rt inv s pmlc margin args p m) (found : s.data book = .intentBook b)
    (priced : 0 < inst.collateralBucket) (bounded : b.header.cachedMaxFeeBps ≤ 1000)
    (room : m.freeCollateral + m.freeCollateral / 10 < 2 ^ 64) (greatest :
      IsGreatest (Affordable m.freeCollateral inst.collateralBucket b.header.cachedMaxFeeBps) n)
    (sized : (affordableContracts m.freeCollateral inst.collateralBucket b.header.cachedMaxFeeBps).run s = .ok n s) :
    (claimAfterChecks rt inv owner pmlc book margin args p inst m).run s =
      if n = 0 then .ok () (s.setData pmlc (.pmlc (p.clearFlags (reentryFlag args.side.toNat))))
      else (reenterWith rt inv owner pmlc book margin args p n (n * inst.collateralBucket)
        (n * inst.collateralBucket * b.header.cachedMaxFeeBps / BPS_DENOM)).run s := by
  have small : m.freeCollateral < 2 ^ 64 := by omega
  obtain ⟨-, paid⟩ := (mem_affordable bounded small).mp greatest.1
  have cleared : (clearReentry rt inv pmlc args.side.toNat).run s = _ :=
    run_clearReentry checked.writable checked.owned checked.pmlc_eq
  have loaded : (load AccountData.loadBook book).run s = .ok b s := by
    rw [load_ok]
    exact ⟨AccountData.loadBook_ok.mpr found, rfl⟩
  rw [claimAfterChecks, Exec.run_bind, Exec.run_abortIf, if_neg (Nat.pos_iff_ne_zero.mp priced), Outcome.bind_ok]
  split
  next none =>
    -- Not even the collateral of one contract is there.
    have zero : n = 0 := by
      have below : m.freeCollateral < inst.collateralBucket := (Nat.div_eq_zero_iff.mp none).resolve_left (Nat.pos_iff_ne_zero.mp priced)
      by_contra some_contracts
      have one : 1 * inst.collateralBucket ≤ n * inst.collateralBucket :=
        Nat.mul_le_mul_right _ (Nat.one_le_iff_ne_zero.mpr some_contracts)
      have cost : n * inst.collateralBucket ≤ m.freeCollateral := (Nat.le_add_right _ _).trans paid
      omega
    rw [if_pos zero]
    exact cleared
  next =>
    rw [Exec.run_bind_of_ok loaded, Exec.run_bind_of_ok sized]
    split
    · exact cleared
    · rw [reenter_eq bounded (Nat.lt_of_le_of_lt paid small)]

/-- What a re-entry leaves behind when it returns. -/
structure Reentered (s t : Ledger) (owner pmlc book margin : Pubkey) (args : ClaimReentryArgs) (p : Pmlc) (m : MarginAccount)
    (b : IntentBook) (contracts reservedCollateral feeBuffer : ℕ) : Prop where
  margin_moved : t.data margin = .marginAccount
    { m with
      freeCollateral := m.freeCollateral - (reservedCollateral + feeBuffer)
      reservedCollateral := m.reservedCollateral + (reservedCollateral + feeBuffer) }
  posted : ∃ id b', (Book.post owner (reentryDraft p args contracts reservedCollateral feeBuffer)).run b = .ok id b' ∧
    t.data book = .intentBook b' ∧ (Consistent b → ∃ slot seat, b.view.Posted b'.view owner
      (((reentryDraft p args contracts reservedCollateral feeBuffer).node b.header.nextIntentId b.header.nextSeq seat).withLinks
        noLinks) slot seat)
  cleared : t.data pmlc = .pmlc (p.clearFlags (reentryFlag args.side.toNat))
  others : ∀ k, k ≠ margin → k ≠ book → k ≠ pmlc → t.get k = s.get k

theorem ClaimChecked.reentered {contracts reservedCollateral feeBuffer : ℕ} (checked : ClaimChecked rt inv s pmlc margin args p m)
    (found : s.data book = .intentBook b)
    (ran : (reenterWith rt inv owner pmlc book margin args p contracts reservedCollateral feeBuffer).run s = .ok () t) :
    Reentered s t owner pmlc book margin args p m b contracts reservedCollateral feeBuffer := by
  have margin_ne_book : book ≠ margin := by
    rintro rfl
    cases found.symm.trans checked.margin_eq
  have margin_ne_pmlc : pmlc ≠ margin := by
    rintro rfl
    cases checked.pmlc_eq.symm.trans checked.margin_eq
  have book_ne_pmlc : pmlc ≠ book := by
    rintro rfl
    cases checked.pmlc_eq.symm.trans found
  simp only [reenterWith, Exec.bind_ok] at ran
  obtain ⟨_, s1, reserved, id, s2, posted, cleared⟩ := ran
  obtain ⟨x, m', held, moved, rfl⟩ := atMargin_ok reserved
  cases held.symm.trans checked.margin_eq
  obtain ⟨y, b', held, inner, rfl⟩ := atBook_ok posted
  rw [Ledger.data_setData_of_ne _ _ margin_ne_book, found] at held
  cases held
  obtain ⟨z, held, rfl⟩ := updateAccount_ok cleared
  rw [Ledger.data_setData_of_ne _ _ book_ne_pmlc, Ledger.data_setData_of_ne _ _ margin_ne_pmlc, checked.pmlc_eq] at held
  cases held
  obtain ⟨-, -, rfl⟩ := (MarginAccount.move_ok (by decide)).mp moved
  exact
    { margin_moved := by
        rw [Ledger.data_setData_of_ne _ _ margin_ne_pmlc.symm, Ledger.data_setData_of_ne _ _ margin_ne_book.symm,
          Ledger.data_setData_self]
        rfl
      posted := by
        refine ⟨id, b', inner, ?_, ?_⟩
        · rw [Ledger.data_setData_of_ne _ _ book_ne_pmlc.symm, Ledger.data_setData_self]
        · intro consistent
          obtain ⟨-, -, slot, seat, posted, -⟩ := Book.post_ok consistent checked.isSide inner
          exact ⟨slot, seat, posted⟩
      cleared := Ledger.data_setData_self _ _
      others := by
        intro k other_margin other_book other_pmlc
        rw [Ledger.get_setData_of_ne _ _ other_pmlc, Ledger.get_setData_of_ne _ _ other_book,
          Ledger.get_setData_of_ne _ _ other_margin] }

/-- Sizing a re-entry never fails, and its size is the greatest that the free collateral pays for. So many contracts
are posted, with their collateral and fee buffer moved from free to reserved; when there are none, only the flag of
the side is cleared. -/
theorem reentry_size_greatest
    (accounts : inv.accounts = owner :: config :: pmlc :: instrument :: book :: margin :: rest)
    (checks : (claimReentryChecks rt inv owner config pmlc instrument book margin args).run s = .ok (p, inst, m) s)
    (found : s.data book = .intentBook b) (priced : 0 < inst.collateralBucket) (bounded : b.header.cachedMaxFeeBps ≤ 1000)
    (room : m.freeCollateral + m.freeCollateral / 10 < 2 ^ 64) :
    ∃ n feeBuffer,
      IsGreatest (Affordable m.freeCollateral inst.collateralBucket b.header.cachedMaxFeeBps) n ∧
        feeBufferFor n inst.collateralBucket b.header.cachedMaxFeeBps = .ok feeBuffer ∧
        (affordableContracts m.freeCollateral inst.collateralBucket b.header.cachedMaxFeeBps).run s = .ok n s ∧
        (n = 0 → ∃ t, (processClaimReentry rt inv args).run s = .ok () t ∧
          t.data pmlc = .pmlc (p.clearFlags (reentryFlag args.side.toNat)) ∧ ∀ k, k ≠ pmlc → t.get k = s.get k) ∧
        (n ≠ 0 →
          (processClaimReentry rt inv args).run s =
            (reenterWith rt inv owner pmlc book margin args p n (n * inst.collateralBucket) feeBuffer).run s ∧
          ∀ t, (processClaimReentry rt inv args).run s = .ok () t →
            Reentered s t owner pmlc book margin args p m b n (n * inst.collateralBucket) feeBuffer) := by
  obtain ⟨checked, -⟩ := claimReentryChecks_ok checks
  have small : m.freeCollateral < 2 ^ 64 := by omega
  obtain ⟨n, sized, greatest⟩ := run_affordableContracts priced bounded room s
  obtain ⟨-, paid⟩ := (mem_affordable bounded small).mp greatest.1
  have run : (claimAfterChecks rt inv owner pmlc book margin args p inst m).run s = _ :=
    run_claimAfterChecks checked found priced bounded room greatest sized
  have claim : (processClaimReentry rt inv args).run s =
      (claimAfterChecks rt inv owner pmlc book margin args p inst m).run s := by
    rw [processClaimReentry_eq accounts, Exec.run_bind_of_ok checks]
  rw [claim, run]
  refine ⟨n, _, greatest, feeBufferFor_eq bounded (Nat.lt_of_le_of_lt paid small), sized, ?_, ?_⟩
  · intro none
    rw [if_pos none]
    exact ⟨_, rfl, Ledger.data_setData_self _ _, fun k other => Ledger.get_setData_of_ne _ _ other⟩
  · intro some_contracts
    rw [if_neg some_contracts]
    exact ⟨rfl, fun t ran => checked.reentered found ran⟩

/-- Alice may claim her side, and the book holds back a tenth of the collateral for fees. No call writes such a rate, but
the handler reads it. -/
def Sample.charging : Ledger :=
  match Sample.enrolled.data (Sample.book Sample.poly) with
  | .intentBook b => Sample.enrolled.setData (Sample.book Sample.poly)
      (.intentBook { b with header := { b.header with cachedMaxFeeBps := 1000 } })
  | _ => Sample.enrolled

/-- Of 101000 atoms Alice pays for 91 contracts of a thousand each and a tenth more for fees; 92 would cost 101200. -/
theorem reentry_size_greatest_claimed : ∃ p m b t,
    (process Runtime.sample Sample.claim.inv Sample.claim.instruction).run Sample.charging = .ok () t ∧
      Reentered Sample.charging t Sample.alice (Sample.pmlc Sample.poly 3) (Sample.book Sample.poly) (Sample.marginOf Sample.alice)
        ⟨0, 100⟩ p m b 91 91000 9100 := by
  have known : ((claimReentryChecks Runtime.sample Sample.claim.inv Sample.alice Sample.config (Sample.pmlc Sample.poly 3)
      (Sample.instrument Sample.poly) (Sample.book Sample.poly) (Sample.marginOf Sample.alice) ⟨0, 100⟩).run
      Sample.charging).value?.map (fun x => (x.2.1.collateralBucket, x.2.2.freeCollateral)) = some (1000, 101000) := by
    decide +kernel
  obtain ⟨⟨p, inst, m⟩, value, amounts⟩ := Option.map_eq_some_iff.mp known
  obtain ⟨s, checks⟩ := Outcome.value?_eq_some.mp value
  obtain rfl := (claimReentryChecks_ok checks).2
  obtain ⟨bucket, free⟩ : inst.collateralBucket = 1000 ∧ m.freeCollateral = 101000 := Prod.mk.inj amounts
  have fees : (AccountData.loadBook (Sample.charging.data (Sample.book Sample.poly))).toOption.map
      (fun b => b.header.cachedMaxFeeBps) = some 1000 := by decide +kernel
  obtain ⟨b, loaded, fee⟩ := Option.map_eq_some_iff.mp fees
  have found : AccountData.loadBook (Sample.charging.data (Sample.book Sample.poly)) = .ok b := by
    cases read : AccountData.loadBook (Sample.charging.data (Sample.book Sample.poly)) with
    | error e => rw [read] at loaded; cases loaded
    | ok b' => rw [read] at loaded; cases loaded; rfl
  have ran : ((process Runtime.sample Sample.claim.inv Sample.claim.instruction).run Sample.charging).value? = some () := by
    decide +kernel
  obtain ⟨t, ran⟩ := Outcome.value?_eq_some.mp ran
  obtain ⟨n, feeBuffer, greatest, buffered, -, -, posts⟩ := reentry_size_greatest rfl checks (AccountData.loadBook_ok.mp found)
    (by omega) (by omega) (by omega)
  rw [bucket, free, fee] at greatest
  have exactly : IsGreatest (Affordable 101000 1000 1000) 91 := by
    refine ⟨(mem_affordable (by decide) (by decide)).mpr (by decide), ?_⟩
    intro j affordable
    obtain ⟨-, paid⟩ := (mem_affordable (by decide) (by decide)).mp affordable
    by_contra more
    have dearer : contractsCost 92 1000 1000 ≤ contractsCost j 1000 1000 := contractsCost_mono (Nat.lt_of_not_le more)
    exact absurd (dearer.trans paid) (by decide)
  obtain rfl := greatest.unique exactly
  rw [bucket, fee] at buffered
  obtain rfl : feeBuffer = 9100 := feeBufferFor_ok buffered
  have reentered := (posts (by decide)).2 t ran
  rw [bucket] at reentered
  exact ⟨p, m, b, t, ran, reentered⟩

end Polyleverage
