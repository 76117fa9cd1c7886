import Polyleverage.Invariants.Checks

/-! # What a settlement does

A liquidation, a resolution and a mutual close check the same things: a fresh attestation of the right
type for the market of the instrument, a live position of this instrument, and the margin accounts of
its two owners. Each spends the attestation, closes the position, and otherwise writes margin accounts
only.
-/

namespace Polyleverage

open Machine

variable {rt : Runtime} {inv : rt.Invocation} {s t u : Ledger} {k : Pubkey}

/-- The accounts of a settlement, what they hold, and what was checked of them. -/
structure Settling (rt : Runtime) (inv : rt.Invocation) (s : Ledger) (index type : ℕ) where
  config : Pubkey
  instrument : Pubkey
  pmlc : Pubkey
  nonce : Pubkey
  longMargin : Pubkey
  shortMargin : Pubkey
  cfg : ProgramConfig
  inst : InstrumentConfig
  att : Attestation
  n : MarketNonceAccount
  p : Pmlc
  l : MarginAccount
  m : MarginAccount
  config_eq : s.data config = .programConfig cfg
  instrument_eq : s.data instrument = .instrumentConfig inst
  pmlc_eq : s.data pmlc = .pmlc p
  nonce_eq : s.data nonce = .marketNonce n
  long_eq : s.data longMargin = .marginAccount l
  short_eq : s.data shortMargin = .marginAccount m
  owned : ∀ k ∈ [config, instrument, pmlc, nonce, longMargin, shortMargin], s.owner k = rt.programId
  writable : ∀ k ∈ [pmlc, nonce, longMargin, shortMargin], inv.isWritable k = true
  running : cfg.globalPause = 0
  attested : Attested rt inv cfg.attestationSigner index type att
  market_eq : att.marketId = inst.marketId
  not_future : att.timestamp ≤ nowUnix rt inv
  not_stale : nowUnix rt inv - att.timestamp ≤ inst.maxStalenessSecs
  nonce_lt : n.lastAcceptedCreNonce < att.nonce
  nonce_address : rt.address (.marketNonce inst.marketId) = nonce
  live : p.status = PMLC_STATUS_LIVE
  instrument_of : p.instrument = instrument
  marketId_of : p.marketId = inst.marketId
  mint_of : p.collateralMint = inst.collateralMint
  long_address : rt.address (.margin p.longOwner inst.collateralMint) = longMargin
  short_address : rt.address (.margin p.shortOwner inst.collateralMint) = shortMargin
  long_of : l.owner = p.longOwner ∧ l.collateralMint = inst.collateralMint
  short_of : m.owner = p.shortOwner ∧ m.collateralMint = inst.collateralMint

/-- The nonce account after the attestation was accepted and `record` was applied. -/
def MarketNonceAccount.accept (n : MarketNonceAccount) (att : Attestation) (nowUnixSecs : ℕ) : MarketNonceAccount :=
  { n with lastAcceptedCreNonce := att.nonce, lastAcceptedTs := nowUnixSecs }

theorem acceptAttestation_ok {att : Attestation} {inst : InstrumentConfig} {now : ℕ}
    {record : MarketNonceAccount → Except ProgramError MarketNonceAccount} {n n' : MarketNonceAccount} {x : Unit} :
    (acceptAttestation att inst now record).run n = .ok x n' ↔
      (att.marketId = inst.marketId ∧ att.timestamp ≤ now ∧ now - att.timestamp ≤ inst.maxStalenessSecs ∧
        n.lastAcceptedCreNonce < att.nonce) ∧ record (n.accept att now) = .ok n' := by
  simp only [acceptAttestation, Exec.bind_check, Exec.put_ok, exists_const, Attestation.validateFreshnessAndNonce_ok,
    exists_eq_left']
  constructor
  · rintro ⟨valid, recorded, same, rfl⟩
    exact ⟨valid, same⟩
  · rintro ⟨valid, same⟩
    exact ⟨valid, n', same, rfl⟩

/-! ### The writes -/

section Writes

variable {x : Unit}

theorem updateAccount_eq {τ : Type} {view : AccountData → Except ProgramError τ} {data : τ → AccountData}
    {kind : AccountKind} [Views view data kind] {f : τ → τ}
    (ran : (updateAccount rt inv view data k f).run s = .ok x t) :
    ∃ a, s.data k = data a ∧ t = s.setData k (data (f a)) := by
  obtain ⟨a, found, rfl⟩ := updateAccount_ok ran
  exact ⟨a, Views.eq_data.mp found, rfl⟩

/-- Writes to margin accounts and to another account commute. -/
theorem Touches.setData {kinds : List AccountKind} {d : AccountData} (touches : Touches kinds kinds s t)
    (other : (s.data k).kind ∉ kinds) : Touches kinds kinds (s.setData k d) (t.setData k d) := by
  have same := touches.get_eq other
  intro j
  by_cases here : j = k
  · subst here
    left
    rw [Ledger.get_setData_self, Ledger.get_setData_self, Ledger.owner, Ledger.owner, same]
  · rw [Ledger.get_setData_of_ne _ _ here, Ledger.get_setData_of_ne _ _ here, Ledger.data_setData_of_ne _ _ here,
      Ledger.data_setData_of_ne _ _ here]
    exact touches j

/-- A side of a settlement gets its equity for its collateral. -/
def MarginAccount.settled (m : MarginAccount) (collateralPerSide equity : ℕ) : MarginAccount :=
  { m with
    freeCollateral := m.freeCollateral + equity
    lockedCollateral := m.lockedCollateral - collateralPerSide
    realizedPnl := saturatingAddSigned 64 m.realizedPnl (toSigned 64 equity - toSigned 64 collateralPerSide) }

theorem settleSide_ok {m m' : MarginAccount} {collateralPerSide equity : ℕ} :
    (settleSide collateralPerSide equity).run m = .ok x m' ↔
      (collateralPerSide ≤ m.lockedCollateral ∧ m.freeCollateral + equity < 2 ^ 64 ∧
        FitsSigned 64 (toSigned 64 equity - toSigned 64 collateralPerSide)) ∧
      m.settled collateralPerSide equity = m' := by
  simp only [settleSide, MarginAccount.debitLocked, MarginAccount.creditFree, MarginAccount.addRealizedPnl,
    Exec.bind_ok, MarginAccount.debit_ok, MarginAccount.credit_ok, Exec.abortIf_ok, Exec.modify_ok, not_not]
  constructor
  · rintro ⟨_, _, ⟨enough, rfl⟩, _, _, ⟨small, rfl⟩, _, _, ⟨fits, rfl⟩, rfl⟩
    exact ⟨⟨enough, small, fits⟩, rfl⟩
  · rintro ⟨⟨enough, small, fits⟩, rfl⟩
    exact ⟨(), _, ⟨enough, rfl⟩, (), _, ⟨small, rfl⟩, (), _, ⟨fits, rfl⟩, rfl⟩

/-- What a write of another kind left is what there was. -/
theorem data_of_setData {d e : AccountData} {j : Pubkey} (held : (s.setData k d).data j = e) (other : e.kind ≠ d.kind) :
    s.data j = e := by
  rw [← held]
  symm
  apply Ledger.data_setData_of_ne
  rintro rfl
  rw [Ledger.data_setData_self] at held
  exact other (congrArg AccountData.kind held.symm)

end Writes

/-! ### The position of a call -/

/-- Where an instruction that writes a position has it among its accounts. -/
def Instruction.pmlcIndex : Instruction → Option ℕ
  | .liquidate _ => some 4
  | .resolve _ => some 4
  | .closeMutual _ => some 5
  | .claimReentry _ => some 2
  | .novate _ => some 4
  | .matchSubstitute _ => some 3
  | .matchSubstituteWithSettle _ => some 3
  | .closePmlc => some 1
  | _ => none

/-- The position that an instruction was given to write. -/
def Instruction.pmlcOf (instr : Instruction) (accounts : List Pubkey) : Option Pubkey :=
  instr.pmlcIndex.bind (accounts[·]?)

/-! ### The three settlements -/

section Handlers

variable {offset : UInt8}

theorem processResolve_ok (ran : (processResolve rt inv offset).run s = .ok () t) :
    ∃ (x : Settling rt inv s offset.toNat ATT_TYPE_RESOLUTION) (outcome finalFp : ℕ) (pnl : ℤ),
      Instruction.pmlcOf (.resolve offset) inv.accounts = some x.pmlc ∧ x.att.finalOutcomeBps = .ok outcome ∧ finalMark outcome = .ok finalFp ∧
      resolvePnl x.p outcome finalFp = .ok pnl ∧
      (do settleBoth rt inv x.longMargin x.shortMargin x.p.collateralPerSide (splitEquity x.p.collateralPerSide pnl)
          closePmlcWith rt inv x.pmlc PMLC_STATUS_RESOLVED CLOSE_REASON_RESOLVED).run
        (s.setData x.nonce (.marketNonce
          { x.n.accept x.att (nowUnix rt inv) with finalOutcomeBps := outcome, isResolved := 1 })) = .ok () t := by
  unfold processResolve at ran
  split at ran
  next caller config sysvar instrument pmlc nonce longMargin shortMargin rest accounts =>
    simp only [Exec.bind_check, exists_const] at ran
    obtain ⟨-, wp, wn, wl, ws, owned, cfg, ⟨config_eq, running⟩, inst, instrument_eq, att, ⟨-, attested⟩, _,
      ⟨nonce_address, -⟩, ran⟩ := ran
    rw [Exec.bind_ok] at ran
    obtain ⟨_, _, wrote, ran⟩ := ran
    obtain ⟨n, n', nonce_eq, accepted, rfl, -⟩ := atAccount_ok wrote
    rw [acceptAttestation_ok] at accepted
    obtain ⟨⟨market_eq, not_future, not_stale, nonce_lt⟩, recorded⟩ := accepted
    simp only [Exec.bind_check, exists_const] at ran
    obtain ⟨outcome, outcome_eq, finalFp, final_eq, p, ⟨pmlc_eq, live, instrument_of, marketId_of, mint_of⟩, pnl, pnl_eq,
      ⟨long_address, l, long_eq, long_owner, long_mint, -⟩, ⟨short_address, m, short_eq, short_owner, short_mint, -⟩,
      ran⟩ := ran
    rw [outcome_eq] at recorded
    cases recorded
    exact ⟨{
      config, instrument, pmlc, nonce, longMargin, shortMargin, cfg, inst, att, n, p, l, m
      config_eq, instrument_eq
      pmlc_eq := data_of_setData pmlc_eq (by simp)
      nonce_eq := AccountData.loadMarketNonce_ok.mp nonce_eq
      long_eq := data_of_setData long_eq (by simp)
      short_eq := data_of_setData short_eq (by simp)
      owned
      writable := by simp [wp, wn, wl, ws]
      running, attested, market_eq, not_future, not_stale, nonce_lt, nonce_address, live, instrument_of, marketId_of
      mint_of, long_address, short_address
      long_of := ⟨long_owner, long_mint⟩
      short_of := ⟨short_owner, short_mint⟩ }, outcome, finalFp, pnl, by rw [accounts]; rfl, outcome_eq, final_eq, pnl_eq, ran⟩
  · cases ran

theorem processCloseMutual_ok (ran : (processCloseMutual rt inv offset).run s = .ok () t) :
    ∃ (x : Settling rt inv s offset.toNat ATT_TYPE_PRICE_TWAP) (mark : ℕ) (pnl : ℤ),
      Instruction.pmlcOf (.closeMutual offset) inv.accounts = some x.pmlc ∧
      x.att.twapWindowSlots = .ok x.inst.twapWindowSlots ∧ x.att.priceFp = .ok mark ∧
      pnlLongAtoms x.p.entryPriceFp mark x.p.sizeFp = .ok pnl ∧
      inv.isSigner x.p.longOwner = true ∧ inv.isSigner x.p.shortOwner = true ∧
      (do settleBoth rt inv x.longMargin x.shortMargin x.p.collateralPerSide (splitEquity x.p.collateralPerSide pnl)
          closePmlcWith rt inv x.pmlc PMLC_STATUS_CLOSED CLOSE_REASON_MUTUAL).run
        (s.setData x.nonce (.marketNonce { x.n.accept x.att (nowUnix rt inv) with lastAcceptedTwapFp := mark })) =
          .ok () t := by
  unfold processCloseMutual at ran
  split at ran
  next longOwner shortOwner config sysvar instrument pmlc nonce longMargin shortMargin rest accounts =>
    simp only [Exec.bind_check, exists_const, ne_eq, not_not] at ran
    obtain ⟨longSigned, shortSigned, wp, wn, wl, ws, owned, -, cfg, ⟨config_eq, running⟩, inst, instrument_eq, att,
      ⟨-, attested⟩, window, window_eq, same, _, ⟨nonce_address, -⟩, ran⟩ := ran
    rw [Exec.bind_ok] at ran
    obtain ⟨_, _, wrote, ran⟩ := ran
    obtain ⟨n, n', nonce_eq, accepted, rfl, -⟩ := atAccount_ok wrote
    rw [acceptAttestation_ok] at accepted
    obtain ⟨⟨market_eq, not_future, not_stale, nonce_lt⟩, recorded⟩ := accepted
    simp only [Exec.bind_check, exists_const, not_or, not_not] at ran
    obtain ⟨mark, mark_eq, p, ⟨pmlc_eq, live, instrument_of, marketId_of, mint_of⟩, ⟨rfl, rfl⟩, pnl, pnl_eq,
      ⟨long_address, l, long_eq, long_owner, long_mint, -⟩, ⟨short_address, m, short_eq, short_owner, short_mint, -⟩,
      ran⟩ := ran
    rw [mark_eq] at recorded
    cases recorded
    subst same
    exact ⟨{
      config, instrument, pmlc, nonce, longMargin, shortMargin, cfg, inst, att, n, p, l, m
      config_eq, instrument_eq
      pmlc_eq := data_of_setData pmlc_eq (by simp)
      nonce_eq := AccountData.loadMarketNonce_ok.mp nonce_eq
      long_eq := data_of_setData long_eq (by simp)
      short_eq := data_of_setData short_eq (by simp)
      owned
      writable := by simp [wp, wn, wl, ws]
      running, attested, market_eq, not_future, not_stale, nonce_lt, nonce_address, live, instrument_of, marketId_of
      mint_of, long_address, short_address
      long_of := ⟨long_owner, long_mint⟩
      short_of := ⟨short_owner, short_mint⟩ }, mark, pnl, by rw [accounts]; rfl, window_eq, mark_eq, pnl_eq, longSigned, shortSigned, ran⟩
  · cases ran

theorem checkBreach_ok {att : Attestation} {pmlc : Pubkey} {now : ℕ} (checked : checkBreach att pmlc now = .ok ()) :
    att.breachPmlcPubkey = .ok pmlc ∧ ∃ breachTs, att.breachUnixTs = .ok breachTs ∧ 0 ≤ breachTs ∧ breachTs ≤ now := by
  unfold checkBreach at checked
  cases breached : att.breachPmlcPubkey with
  | error e =>
    rw [breached] at checked
    cases checked
  | ok key =>
    rw [breached] at checked
    change (if key ≠ pmlc then _ else _) = _ at checked
    split at checked
    · cases checked
    next same =>
      rw [not_not] at same
      refine ⟨by rw [same], ?_⟩
      cases timed : att.breachUnixTs with
      | error e =>
        rw [timed] at checked
        cases checked
      | ok breachTs =>
        rw [timed] at checked
        change (if breachTs < 0 ∨ (now : ℤ) < breachTs then _ else _) = _ at checked
        split at checked
        · cases checked
        next past =>
          refine ⟨breachTs, rfl, ?_⟩
          omega

/-- The payout of a liquidation: the side with the larger equity wins, and the keeper takes the bounty. -/
def payOut (rt : Runtime) (inv : rt.Invocation) (long short keeperMargin pmlc : Pubkey) (collateralPerSide bounty : ℕ)
    (equity : ℕ × ℕ) : LedgerM Unit := do
  if equity.2 < equity.1 then payWinner rt inv long short long short collateralPerSide bounty
  else payWinner rt inv short long long short collateralPerSide bounty
  closePmlcWith rt inv pmlc PMLC_STATUS_LIQUIDATED CLOSE_REASON_LIQUIDATED
  Exec.when (0 < bounty) (atMargin rt inv keeperMargin (MarginAccount.creditFree bounty))

theorem processLiquidate_ok (ran : (processLiquidate rt inv offset).run s = .ok () t) :
    ∃ (x : Settling rt inv s offset.toNat ATT_TYPE_HISTORICAL_LIQUIDATION) (keeper keeperMargin : Pubkey)
      (kept : MarginAccount) (mark : ℕ) (pnl : ℤ),
      Instruction.pmlcOf (.liquidate offset) inv.accounts = some x.pmlc ∧ x.att.breachPmlcPubkey = .ok x.pmlc ∧ x.att.breachMarkFp = .ok mark ∧
      inv.isSigner keeper = true ∧ s.owner keeperMargin = rt.programId ∧
      rt.address (.margin keeper x.inst.collateralMint) = keeperMargin ∧
      s.data keeperMargin = .marginAccount kept ∧
      (kept.owner = keeper ∧ kept.collateralMint = x.inst.collateralMint) ∧
      pnlLongAtoms x.p.entryPriceFp mark x.p.sizeFp = .ok pnl ∧
      min (splitEquity x.p.collateralPerSide pnl).1 (splitEquity x.p.collateralPerSide pnl).2 ≤
        shareOf x.p.collateralPerSide x.inst.liquidationBps ∧
      (payOut rt inv x.longMargin x.shortMargin keeperMargin x.pmlc x.p.collateralPerSide
        (shareOf x.p.collateralPerSide x.inst.liquidationBountyBps) (splitEquity x.p.collateralPerSide pnl)).run
        (s.setData x.nonce (.marketNonce { x.n.accept x.att (nowUnix rt inv) with lastAcceptedTwapFp := mark })) =
          .ok () t := by
  unfold processLiquidate at ran
  split at ran
  next keeper config sysvar instrument pmlc nonce longMargin shortMargin keeperMargin rest accounts =>
    simp only [Exec.bind_check, exists_const, ne_eq, not_not] at ran
    obtain ⟨signed, wp, wn, wl, ws, wk, owned, -, cfg, ⟨config_eq, running⟩, inst, instrument_eq,
      ⟨keeper_address, kept, kept_eq, kept_owner, kept_mint, -⟩, att, ⟨-, attested⟩, breached, _,
      ⟨nonce_address, -⟩, ran⟩ := ran
    rw [Exec.bind_ok] at ran
    obtain ⟨_, _, wrote, ran⟩ := ran
    obtain ⟨n, n', nonce_eq, accepted, rfl, -⟩ := atAccount_ok wrote
    rw [acceptAttestation_ok] at accepted
    obtain ⟨⟨market_eq, not_future, not_stale, nonce_lt⟩, recorded⟩ := accepted
    simp only [Exec.bind_check, exists_const, not_lt] at ran
    obtain ⟨mark, mark_eq, p, ⟨pmlc_eq, live, instrument_of, marketId_of, mint_of⟩, pnl, pnl_eq, threshold,
      ⟨long_address, l, long_eq, long_owner, long_mint, -⟩, ⟨short_address, m, short_eq, short_owner, short_mint, -⟩,
      ran⟩ := ran
    rw [mark_eq] at recorded
    cases recorded
    refine ⟨{
      config, instrument, pmlc, nonce, longMargin, shortMargin, cfg, inst, att, n, p, l, m
      config_eq, instrument_eq
      pmlc_eq := data_of_setData pmlc_eq (by simp)
      nonce_eq := AccountData.loadMarketNonce_ok.mp nonce_eq
      long_eq := data_of_setData long_eq (by simp)
      short_eq := data_of_setData short_eq (by simp)
      owned := fun k member => owned k (by simp at member ⊢; tauto)
      writable := by simp [wp, wn, wl, ws]
      running, attested, market_eq, not_future, not_stale, nonce_lt, nonce_address, live, instrument_of, marketId_of
      mint_of, long_address, short_address
      long_of := ⟨long_owner, long_mint⟩
      short_of := ⟨short_owner, short_mint⟩ }, keeper, keeperMargin, kept, mark, pnl, by rw [accounts]; rfl, (checkBreach_ok breached).1,
      mark_eq, signed, owned _ (by simp), keeper_address, kept_eq, ⟨kept_owner, kept_mint⟩, pnl_eq, threshold, ?_⟩
    unfold payOut
    split at ran <;> simp only [*, if_true, if_false]
  · cases ran

end Handlers

/-! ### What a settlement leaves -/

/-- A position that was closed. -/
def Pmlc.close (p : Pmlc) (status closeReason nowSlot : ℕ) : Pmlc :=
  { p with status, closeReason, lastMarkSlot := nowSlot }

/-- The position is closed, while nothing but margin accounts was written before. -/
theorem closePmlcWith_after {pmlc : Pubkey} {p : Pmlc} {status closeReason : ℕ} {x : Unit}
    (margins : Touches [.marginAccount] [.marginAccount] s u) (held : s.data pmlc = .pmlc p)
    (ran : (closePmlcWith rt inv pmlc status closeReason).run u = .ok x t) :
    t = u.setData pmlc (.pmlc (p.close status closeReason inv.slot)) ∧
      Touches [.marginAccount] [.marginAccount] (s.setData pmlc (.pmlc (p.close status closeReason inv.slot))) t := by
  have other : (s.data pmlc).kind ∉ [AccountKind.marginAccount] := by simp [held]
  obtain ⟨p', held', rfl⟩ := updateAccount_eq ran
  have same : u.data pmlc = s.data pmlc := congrArg Account.data (margins.get_eq other)
  rw [same, held] at held'
  cases held'
  exact ⟨rfl, margins.setData other⟩

/-- The attestation is spent, the position is closed, and otherwise margin accounts are written. -/
structure Settled {index type : ℕ} (x : Settling rt inv s index type) (n : MarketNonceAccount)
    (status closeReason : ℕ) (t : Ledger) : Prop where
  margins : Touches [.marginAccount] [.marginAccount]
    ((s.setData x.nonce (.marketNonce n)).setData x.pmlc (.pmlc (x.p.close status closeReason inv.slot))) t

namespace Settling

variable {index type : ℕ} (x : Settling rt inv s index type)

theorem pmlc_ne_nonce : x.pmlc ≠ x.nonce := by
  intro same
  have held := x.pmlc_eq
  rw [same, x.nonce_eq] at held
  cases held

/-- Spending the attestation leaves the position as it was. -/
theorem pmlc_eq_after (n : MarketNonceAccount) : (s.setData x.nonce (.marketNonce n)).data x.pmlc = .pmlc x.p := by
  rw [Ledger.data_setData_of_ne _ _ x.pmlc_ne_nonce, x.pmlc_eq]

theorem owner_pmlc : s.owner x.pmlc = rt.programId := x.owned _ (by simp)

theorem owner_nonce : s.owner x.nonce = rt.programId := x.owned _ (by simp)

end Settling

namespace Settled

variable {index type status closeReason : ℕ} {x : Settling rt inv s index type} {n : MarketNonceAccount}
  (settled : Settled x n status closeReason t)
include settled

theorem get_pmlc : t.get x.pmlc = ⟨rt.programId, .pmlc (x.p.close status closeReason inv.slot)⟩ := by
  rw [settled.margins.get_eq (by simp), Ledger.get_setData_self, Ledger.owner_setData, x.owner_pmlc]

theorem get_nonce : t.get x.nonce = ⟨rt.programId, .marketNonce n⟩ := by
  have apart := x.pmlc_ne_nonce.symm
  rw [settled.margins.get_eq (by simp [Ledger.data_setData_of_ne _ _ apart]), Ledger.get_setData_of_ne _ _ apart,
    Ledger.get_setData_self, x.owner_nonce]

/-- Other accounts that hold no margins are left alone. -/
theorem get_other (pmlc : k ≠ x.pmlc) (nonce : k ≠ x.nonce) (other : (s.data k).kind ≠ .marginAccount) :
    t.get k = s.get k := by
  rw [settled.margins.get_eq, Ledger.get_setData_of_ne _ _ pmlc, Ledger.get_setData_of_ne _ _ nonce]
  rw [Ledger.data_setData_of_ne _ _ pmlc, Ledger.data_setData_of_ne _ _ nonce]
  simpa using other

end Settled

/-- The position of a bilateral settlement. -/
theorem settleBoth_closes {longMargin shortMargin pmlc : Pubkey} {collateralPerSide status closeReason : ℕ}
    {equity : ℕ × ℕ} {p : Pmlc} (held : s.data pmlc = .pmlc p)
    (ran : (do settleBoth rt inv longMargin shortMargin collateralPerSide equity
               closePmlcWith rt inv pmlc status closeReason).run s = .ok () t) :
    Touches [.marginAccount] [.marginAccount] (s.setData pmlc (.pmlc (p.close status closeReason inv.slot))) t := by
  rw [Exec.bind_ok] at ran
  obtain ⟨_, u, settled, closed⟩ := ran
  have margins := (inferInstance : Within [.marginAccount] [.marginAccount]
    (settleBoth rt inv longMargin shortMargin collateralPerSide equity)).keeps.ok settled
  exact (closePmlcWith_after margins held closed).2

/-- The position of a liquidation. -/
theorem payOut_closes {long short keeperMargin pmlc : Pubkey} {collateralPerSide bounty : ℕ} {equity : ℕ × ℕ} {p : Pmlc}
    (held : s.data pmlc = .pmlc p)
    (ran : (payOut rt inv long short keeperMargin pmlc collateralPerSide bounty equity).run s = .ok () t) :
    Touches [.marginAccount] [.marginAccount]
      (s.setData pmlc (.pmlc (p.close PMLC_STATUS_LIQUIDATED CLOSE_REASON_LIQUIDATED inv.slot))) t := by
  have split : ∃ winner loser, (do
      payWinner rt inv winner loser long short collateralPerSide bounty
      closePmlcWith rt inv pmlc PMLC_STATUS_LIQUIDATED CLOSE_REASON_LIQUIDATED
      Exec.when (0 < bounty) (atMargin rt inv keeperMargin (MarginAccount.creditFree bounty))).run s = .ok () t := by
    unfold payOut at ran
    split at ran
    · exact ⟨long, short, ran⟩
    · exact ⟨short, long, ran⟩
  obtain ⟨winner, loser, ran⟩ := split
  simp only [Exec.bind_ok] at ran
  obtain ⟨_, u, paid, _, v, closed, bountied⟩ := ran
  have margins := (inferInstance : Within [.marginAccount] [.marginAccount]
    (payWinner rt inv winner loser long short collateralPerSide bounty)).keeps.ok paid
  have after := (inferInstance : Within [.marginAccount] [.marginAccount]
    (Exec.when (0 < bounty) (atMargin rt inv keeperMargin (MarginAccount.creditFree bounty)))).keeps.ok bountied
  exact Trans.trans (closePmlcWith_after margins held closed).2 after

/-- The index and the type of the attestation that an instruction asks for. -/
def Instruction.attestation : Instruction → Option (ℕ × ℕ)
  | .liquidate offset => some (offset.toNat, ATT_TYPE_HISTORICAL_LIQUIDATION)
  | .resolve offset => some (offset.toNat, ATT_TYPE_RESOLUTION)
  | .closeMutual offset => some (offset.toNat, ATT_TYPE_PRICE_TWAP)
  | _ => none

/-- What a settlement records of the attestation it accepts. -/
structure Recorded {index type : ℕ} (x : Settling rt inv s index type) (n : MarketNonceAccount) : Prop where
  marketId_eq : n.marketId = x.n.marketId
  nonce_eq : n.lastAcceptedCreNonce = x.att.nonce
  breached : type = ATT_TYPE_HISTORICAL_LIQUIDATION → x.att.breachPmlcPubkey = .ok x.pmlc
  resolved : type = ATT_TYPE_RESOLUTION → n.isResolved = 1 ∧ x.att.finalOutcomeBps = .ok n.finalOutcomeBps
  unresolved : type ≠ ATT_TYPE_RESOLUTION →
    n.isResolved = x.n.isResolved ∧ n.finalOutcomeBps = x.n.finalOutcomeBps

/-- Every settlement accepts an attestation of its type and closes a live position. -/
theorem settled_of_process {instr : Instruction} {index type : ℕ} (attests : instr.attestation = some (index, type))
    (ran : (process rt inv instr).run s = .ok () t) :
    ∃ (x : Settling rt inv s index type) (n : MarketNonceAccount) (status closeReason : ℕ),
      instr.pmlcOf inv.accounts = some x.pmlc ∧ Recorded x n ∧ status ∈ [PMLC_STATUS_CLOSED, PMLC_STATUS_LIQUIDATED, PMLC_STATUS_RESOLVED] ∧
        Settled x n status closeReason t := by
  cases instr with
  | liquidate offset =>
    cases attests
    obtain ⟨x, keeper, keeperMargin, kept, mark, pnl, given, breached, -, -, -, -, -, -, -, -, paid⟩ := processLiquidate_ok ran
    refine ⟨x, _, _, _, given, ?_, ?_, ⟨payOut_closes (x.pmlc_eq_after _) paid⟩⟩
    · exact {
        marketId_eq := rfl
        nonce_eq := rfl
        breached := fun _ => breached
        resolved := fun wrong => absurd wrong (by decide)
        unresolved := fun _ => ⟨rfl, rfl⟩ }
    · simp
  | resolve offset =>
    cases attests
    obtain ⟨x, outcome, finalFp, pnl, given, outcome_eq, -, -, settled⟩ := processResolve_ok ran
    refine ⟨x, _, _, _, given, ?_, ?_, ⟨settleBoth_closes (x.pmlc_eq_after _) settled⟩⟩
    · exact {
        marketId_eq := rfl
        nonce_eq := rfl
        breached := fun wrong => absurd wrong (by decide)
        resolved := fun _ => ⟨rfl, outcome_eq⟩
        unresolved := fun other => absurd rfl other }
    · simp
  | closeMutual offset =>
    cases attests
    obtain ⟨x, mark, pnl, given, -, -, -, -, -, settled⟩ := processCloseMutual_ok ran
    refine ⟨x, _, _, _, given, ?_, ?_, ⟨settleBoth_closes (x.pmlc_eq_after _) settled⟩⟩
    · exact {
        marketId_eq := rfl
        nonce_eq := rfl
        breached := fun wrong => absurd wrong (by decide)
        resolved := fun wrong => absurd wrong (by decide)
        unresolved := fun _ => ⟨rfl, rfl⟩ }
    · simp
  | _ => cases attests

end Polyleverage
