import Polyleverage.Guarantees.Attestations
import Polyleverage.Guarantees.Locked
import Polyleverage.Guarantees.Removals
import Polyleverage.Guarantees.Settlement
import Polyleverage.Math.Pnl

/-! # Every position can be ended

A live position is ended by the outcome of its market, or by its two sides at an attested price. When the
accounts are the position's own and the attestation is fresh, only two things stand in the way: a position
whose two sides are one trader's, and a PnL that the machine cannot hold.
-/

namespace Polyleverage

open Machine

variable {rt : Runtime} {inv : rt.Invocation} {s t : Ledger} {p : Pmlc} {pmlc : Pubkey} {u : Unit}

/-! ### The calls -/

/-- The accounts and the attestation that end a position while the program is not paused: its instrument and market
nonce, the margin accounts of its two sides, and a message of this type, which is fresh for its market. -/
structure Ready (rt : Runtime) (inv : rt.Invocation) (s : Ledger) (p : Pmlc) (pmlc : Pubkey) (accounts : List Pubkey)
    (index type : ℕ) where
  config : Pubkey
  nonce : Pubkey
  long : Pubkey
  short : Pubkey
  rest : List Pubkey
  cfg : ProgramConfig
  inst : InstrumentConfig
  n : MarketNonceAccount
  att : Attestation
  accounts_eq : accounts = config :: rt.instructionsSysvar :: p.instrument :: pmlc :: nonce :: long :: short :: rest
  writable : ∀ k ∈ [pmlc, nonce, long, short], inv.isWritable k = true
  nonce_address : rt.address (.marketNonce p.marketId) = nonce
  long_address : rt.address (.margin p.longOwner p.collateralMint) = long
  short_address : rt.address (.margin p.shortOwner p.collateralMint) = short
  config_eq : s.get config = ⟨rt.programId, .programConfig cfg⟩
  running : cfg.globalPause = 0
  instrument_eq : s.get p.instrument = ⟨rt.programId, .instrumentConfig inst⟩
  nonce_eq : s.get nonce = ⟨rt.programId, .marketNonce n⟩
  attested : Attested rt inv cfg.attestationSigner index type att
  market_eq : att.marketId = p.marketId
  not_future : att.timestamp ≤ nowUnix rt inv
  not_stale : nowUnix rt inv - att.timestamp ≤ inst.maxStalenessSecs
  nonce_lt : n.lastAcceptedCreNonce < att.nonce

section Calls

variable (rt : Runtime) (s : Ledger) (p : Pmlc) (pmlc : Pubkey) (c : Call rt)

/-- The call resolves the position at this outcome. -/
structure Resolves (outcome : ℕ) where
  offset : UInt8
  caller : Pubkey
  accounts : List Pubkey
  instruction : c.instruction = .resolve offset
  accounts_eq : c.inv.accounts = caller :: accounts
  signed : c.inv.isSigner caller = true
  ready : Ready rt c.inv s p pmlc accounts offset.toNat ATT_TYPE_RESOLUTION
  outcome_eq : ready.att.finalOutcomeBps = .ok outcome
  decides : outcome = 0 ∨ outcome = 5000 ∨ outcome = 10000

/-- Both sides sign the call, which closes the position at this mark over the window of its instrument. -/
structure ClosesMutually (markFp : ℕ) where
  offset : UInt8
  accounts : List Pubkey
  instruction : c.instruction = .closeMutual offset
  accounts_eq : c.inv.accounts = p.longOwner :: p.shortOwner :: accounts
  signed : c.inv.isSigner p.longOwner = true ∧ c.inv.isSigner p.shortOwner = true
  ready : Ready rt c.inv s p pmlc accounts offset.toNat ATT_TYPE_PRICE_TWAP
  window_eq : ready.att.twapWindowSlots = .ok ready.inst.twapWindowSlots
  mark_eq : ready.att.priceFp = .ok markFp

end Calls

/-! ### The two sides -/

/-- Two traders have two margin accounts of a mint. -/
theorem margin_ne_iff {owner owner' mint : Pubkey} :
    rt.address (.margin owner mint) ≠ rt.address (.margin owner' mint) ↔ owner ≠ owner' := by
  refine not_congr ⟨fun same => ?_, fun same => by rw [same]⟩
  have seeds := rt.address_injective _ _ same
  injection seeds

/-- A margin account takes this equity for its collateral. -/
def MarginAccount.Takes (m : MarginAccount) (collateralPerSide equity : ℕ) : Prop :=
  collateralPerSide ≤ m.lockedCollateral ∧ m.freeCollateral + equity < 2 ^ 64 ∧
    FitsSigned 64 (toSigned 64 equity - toSigned 64 collateralPerSide)

/-- Two sides are settled exactly when their margin accounts are two and each takes its equity. -/
theorem settleBoth_closes_iff {long short : Pubkey} {collateralPerSide status closeReason : ℕ} {equity : ℕ × ℕ}
    {l m : MarginAccount} (at_long : s.get long = ⟨rt.programId, .marginAccount l⟩)
    (at_short : s.get short = ⟨rt.programId, .marginAccount m⟩) (at_pmlc : s.get pmlc = ⟨rt.programId, .pmlc p⟩)
    (writable : ∀ k ∈ [pmlc, long, short], inv.isWritable k = true) :
    (∃ t, (do settleBoth rt inv long short collateralPerSide equity
              closePmlcWith rt inv pmlc status closeReason).run s = .ok u t) ↔
      long ≠ short ∧ l.Takes collateralPerSide equity.1 ∧ m.Takes collateralPerSide equity.2 := by
  have writableL : inv.isWritable long = true := writable long (by simp)
  have writableS : inv.isWritable short = true := writable short (by simp)
  have writableP : inv.isWritable pmlc = true := writable pmlc (by simp)
  have position_ne {k : Pubkey} {m : MarginAccount} (at_margin : s.get k = ⟨rt.programId, .marginAccount m⟩) :
      pmlc ≠ k := by
    rintro rfl
    rw [at_pmlc] at at_margin
    cases at_margin
  constructor
  · rintro ⟨t, ran⟩
    rw [Exec.bind_ok] at ran
    obtain ⟨_, _, settled, -⟩ := ran
    simp only [settleBoth, Exec.bind_ok, Exec.rejectIf_ok] at settled
    obtain ⟨_, _, first, _, _, ⟨apart, rfl⟩, second⟩ := settled
    obtain ⟨l', _, found, moved, rfl⟩ := atMargin_ok first
    rw [data_of_get at_long] at found
    cases found
    obtain ⟨m', _, found, moved', rfl⟩ := atMargin_ok second
    rw [Ledger.data_setData_of_ne _ _ (Ne.symm apart), data_of_get at_short] at found
    cases found
    exact ⟨apart, (settleSide_ok.mp moved).1, (settleSide_ok.mp moved').1⟩
  · rintro ⟨apart, takesL, takesS⟩
    have first : (atMargin rt inv long (settleSide collateralPerSide equity.1)).run s =
        .ok () (s.setData long (.marginAccount (l.settled collateralPerSide equity.1))) :=
      run_atAccount writableL (owner_of_get at_long) (AccountData.loadMargin_ok.mpr (data_of_get at_long))
        (settleSide_ok.mpr ⟨takesL, rfl⟩)
    have second : (atMargin rt inv short (settleSide collateralPerSide equity.2)).run
        (s.setData long (.marginAccount (l.settled collateralPerSide equity.1))) =
        .ok () ((s.setData long (.marginAccount (l.settled collateralPerSide equity.1))).setData short
          (.marginAccount (m.settled collateralPerSide equity.2))) := by
      refine run_atAccount writableS ?_ (AccountData.loadMargin_ok.mpr ?_) (settleSide_ok.mpr ⟨takesS, rfl⟩)
      · rw [Ledger.owner_setData, owner_of_get at_short]
      · rw [Ledger.data_setData_of_ne _ _ (Ne.symm apart), data_of_get at_short]
    have settled : (settleBoth rt inv long short collateralPerSide equity).run s =
        .ok () ((s.setData long (.marginAccount (l.settled collateralPerSide equity.1))).setData short
          (.marginAccount (m.settled collateralPerSide equity.2))) :=
      Exec.bind_ok.mpr ⟨_, _, first, Exec.bind_ok.mpr ⟨(), _, Exec.rejectIf_ok.mpr ⟨apart, rfl⟩, second⟩⟩
    refine ⟨_, Exec.bind_ok.mpr ⟨_, _, settled, run_atAccount (x := p) writableP ?_ (AccountData.loadPmlc_ok.mpr ?_) rfl⟩⟩
    · rw [Ledger.owner_setData, Ledger.owner_setData, owner_of_get at_pmlc]
    · rw [Ledger.data_setData_of_ne _ _ (position_ne at_short), Ledger.data_setData_of_ne _ _ (position_ne at_long),
        data_of_get at_pmlc]

/-! ### The handlers -/

/-- The terms of a position are those of its instrument. -/
theorem Ready.terms {accounts : List Pubkey} {index type : ℕ} (x : Ready rt inv s p pmlc accounts index type)
    (genuine : Genuine rt s) (at_pmlc : s.get pmlc = ⟨rt.programId, .pmlc p⟩) :
    p.marketId = x.inst.marketId ∧ p.collateralMint = x.inst.collateralMint := by
  obtain ⟨-, c, listed, mint, market, -⟩ := genuine.pmlc_ok (owner_of_get at_pmlc) (data_of_get at_pmlc)
  have same := listed.unique (listed_of_load (owner_of_get x.instrument_eq) (data_of_get x.instrument_eq))
  rw [same] at mint market
  exact ⟨market, mint⟩

/-- A fresh attestation is accepted, and recorded. -/
theorem Ready.accept_iff {accounts : List Pubkey} {index type : ℕ} (x : Ready rt inv s p pmlc accounts index type)
    (market : p.marketId = x.inst.marketId) {record : MarketNonceAccount → Except ProgramError MarketNonceAccount} :
    (atAccount rt inv AccountData.loadMarketNonce .marketNonce x.nonce
        (acceptAttestation x.att x.inst (nowUnix rt inv) record)).run s = .ok u t ↔
      ∃ n, record (x.n.accept x.att (nowUnix rt inv)) = .ok n ∧ t = s.setData x.nonce (.marketNonce n) := by
  rw [atAccount_eq_ok (x.writable _ (by simp)) (owner_of_get x.nonce_eq), data_of_get x.nonce_eq]
  constructor
  · rintro ⟨n, n', found, accepted, rfl⟩
    cases found
    exact ⟨n', (acceptAttestation_ok.mp accepted).2, rfl⟩
  · rintro ⟨n', recorded, rfl⟩
    exact ⟨x.n, n', rfl, acceptAttestation_ok.mpr
      ⟨⟨x.market_eq.trans market, x.not_future, x.not_stale, x.nonce_lt⟩, recorded⟩, rfl⟩

/-- What is left to do once the attestation is recorded, and what it takes. -/
theorem Ready.settle_iff {accounts : List Pubkey} {index type : ℕ} (x : Ready rt inv s p pmlc accounts index type)
    {l m : MarginAccount} {n : MarketNonceAccount} {collateralPerSide status closeReason : ℕ} {equity : ℕ × ℕ}
    (at_pmlc : s.get pmlc = ⟨rt.programId, .pmlc p⟩) (at_long : s.get x.long = ⟨rt.programId, .marginAccount l⟩)
    (at_short : s.get x.short = ⟨rt.programId, .marginAccount m⟩) :
    (∃ t, (do settleBoth rt inv x.long x.short collateralPerSide equity
              closePmlcWith rt inv pmlc status closeReason).run (s.setData x.nonce (.marketNonce n)) = .ok u t) ↔
      x.long ≠ x.short ∧ l.Takes collateralPerSide equity.1 ∧ m.Takes collateralPerSide equity.2 := by
  have kept {k : Pubkey} {d : AccountData} (held : s.get k = ⟨rt.programId, d⟩) (other : d.kind ≠ .marketNonce) :
      (s.setData x.nonce (.marketNonce n)).get k = ⟨rt.programId, d⟩ := by
    rw [Ledger.get_setData_of_ne, held]
    rintro rfl
    rw [x.nonce_eq] at held
    cases held
    exact other rfl
  exact settleBoth_closes_iff (kept at_long (by simp)) (kept at_short (by simp)) (kept at_pmlc (by simp)) fun k member =>
    x.writable k (by simp only [List.mem_cons, List.not_mem_nil, or_false] at member ⊢; tauto)

theorem returns_iff {c : Call rt} : c.returns s = true ↔ ∃ t, (process rt c.inv c.instruction).run s = .ok () t := by
  constructor
  · intro returns
    exact ⟨_, c.ran returns⟩
  · rintro ⟨t, ran⟩
    exact Call.returns_of_ran ran

/-- A margin account at its address passes for its owner's. -/
theorem margin_passes {owner mint k : Pubkey} {m : MarginAccount} (genuine : Genuine rt s)
    (address : rt.address (.margin owner mint) = k) (held : s.get k = ⟨rt.programId, .marginAccount m⟩) :
    m.owner = owner ∧ m.collateralMint = mint ∧ m.bump = rt.bump (.margin owner mint) := by
  obtain ⟨mine, of_mint⟩ := genuine.margin_identity address (owner_of_get held) (data_of_get held)
  have bump := (genuine.margin_ok (owner_of_get held) (data_of_get held)).2
  rw [mine, of_mint] at bump
  exact ⟨mine, of_mint, bump.symm⟩

section Returns

variable {c : Call rt} {l m : MarginAccount}

/-- Once the attestation is recorded, the position and both margin accounts are as they were. -/
theorem Ready.kept {accounts : List Pubkey} {index type : ℕ} (x : Ready rt inv s p pmlc accounts index type)
    (n : MarketNonceAccount)
    {k : Pubkey} {d : AccountData} (held : s.get k = ⟨rt.programId, d⟩) (other : d.kind ≠ .marketNonce) :
    (s.setData x.nonce (.marketNonce n)).data k = d := by
  rw [Ledger.data_setData_of_ne, data_of_get held]
  rintro rfl
  rw [x.nonce_eq] at held
  cases held
  exact other rfl

theorem Ready.owned {accounts : List Pubkey} {index type : ℕ} (x : Ready rt inv s p pmlc accounts index type)
    (at_pmlc : s.get pmlc = ⟨rt.programId, .pmlc p⟩) (at_long : s.get x.long = ⟨rt.programId, .marginAccount l⟩)
    (at_short : s.get x.short = ⟨rt.programId, .marginAccount m⟩) :
    ∀ k ∈ [x.config, p.instrument, pmlc, x.nonce, x.long, x.short], s.owner k = rt.programId := by
  simp only [List.mem_cons, List.not_mem_nil, or_false, forall_eq_or_imp, forall_eq]
  exact ⟨owner_of_get x.config_eq, owner_of_get x.instrument_eq, owner_of_get at_pmlc, owner_of_get x.nonce_eq,
    owner_of_get at_long, owner_of_get at_short⟩

theorem Ready.attested_iff {accounts : List Pubkey} {index type : ℕ} (x : Ready rt inv s p pmlc accounts index type)
    {att : Attestation} : Attested rt inv x.cfg.attestationSigner index type att ↔ att = x.att := by
  constructor
  · intro attested
    exact (attested.unique x.attested).2
  · rintro rfl
    exact x.attested

/-- When a resolution returns. -/
theorem Resolves.returns_iff {outcome : ℕ} (x : Resolves rt s p pmlc c outcome) (genuine : Genuine rt s)
    (at_pmlc : s.get pmlc = ⟨rt.programId, .pmlc p⟩) (live : p.status = PMLC_STATUS_LIVE)
    (at_long : s.get x.ready.long = ⟨rt.programId, .marginAccount l⟩)
    (at_short : s.get x.ready.short = ⟨rt.programId, .marginAccount m⟩) :
    c.returns s = true ↔ ∃ finalFp pnl, finalMark outcome = .ok finalFp ∧ resolvePnl p outcome finalFp = .ok pnl ∧
      x.ready.long ≠ x.ready.short ∧ l.Takes p.collateralPerSide (splitEquity p.collateralPerSide pnl).1 ∧
      m.Takes p.collateralPerSide (splitEquity p.collateralPerSide pnl).2 := by
  obtain ⟨market, mint⟩ := x.ready.terms genuine at_pmlc
  have long_address := x.ready.long_address
  have short_address := x.ready.short_address
  have nonce_address := x.ready.nonce_address
  rw [mint] at long_address short_address
  rw [market] at nonce_address
  have writable := x.ready.writable
  simp only [List.mem_cons, List.not_mem_nil, or_false, forall_eq_or_imp, forall_eq] at writable
  rw [Polyleverage.returns_iff, x.instruction]
  simp only [process, processResolve, x.accounts_eq, x.ready.accounts_eq, Exec.bind_check, exists_const, x.signed, true_and,
    writable, data_of_get x.ready.config_eq, data_of_get x.ready.instrument_eq, AccountData.programConfig.injEq,
    AccountData.instrumentConfig.injEq, and_assoc, exists_eq_left', x.ready.running, x.ready.attested_iff, exists_eq_left,
    nonce_address, and_iff_right (x.ready.owned at_pmlc at_long at_short)]
  constructor
  · rintro ⟨t, ran⟩
    rw [Exec.bind_ok] at ran
    obtain ⟨_, _, accepted, ran⟩ := ran
    obtain ⟨n, -, rfl⟩ := (x.ready.accept_iff market).mp accepted
    simp only [Exec.bind_check, x.outcome_eq, Except.ok.injEq, exists_eq_left', exists_const] at ran
    obtain ⟨finalFp, final, p', ⟨held, -⟩, pnl, pnl_eq, -, -, ran⟩ := ran
    rw [x.ready.kept n at_pmlc (by simp)] at held
    cases held
    exact ⟨finalFp, pnl, final, pnl_eq, (x.ready.settle_iff at_pmlc at_long at_short).mp ⟨t, ran⟩⟩
  · rintro ⟨finalFp, pnl, final, pnl_eq, takes⟩
    obtain ⟨n, recorded⟩ : ∃ n : MarketNonceAccount, n = { x.ready.n.accept x.ready.att (nowUnix rt c.inv) with
      finalOutcomeBps := outcome, isResolved := 1 } := ⟨_, rfl⟩
    obtain ⟨t, ran⟩ := (x.ready.settle_iff (u := ()) (n := n) at_pmlc at_long at_short).mpr takes
    refine ⟨t, Exec.bind_ok.mpr ⟨(), _, (x.ready.accept_iff market).mpr ⟨n, ?_, rfl⟩, ?_⟩⟩
    · rw [x.outcome_eq, recorded]
      rfl
    · simp only [Exec.bind_check, x.outcome_eq, Except.ok.injEq, exists_eq_left', exists_const]
      exact ⟨finalFp, final, p, ⟨x.ready.kept _ at_pmlc (by simp), live, rfl, market, mint⟩, pnl, pnl_eq,
        ⟨long_address, l, x.ready.kept _ at_long (by simp), margin_passes genuine long_address at_long⟩,
        ⟨short_address, m, x.ready.kept _ at_short (by simp), margin_passes genuine short_address at_short⟩, ran⟩

/-- When a mutual close returns. -/
theorem ClosesMutually.returns_iff {markFp : ℕ} (x : ClosesMutually rt s p pmlc c markFp) (genuine : Genuine rt s)
    (at_pmlc : s.get pmlc = ⟨rt.programId, .pmlc p⟩) (live : p.status = PMLC_STATUS_LIVE)
    (at_long : s.get x.ready.long = ⟨rt.programId, .marginAccount l⟩)
    (at_short : s.get x.ready.short = ⟨rt.programId, .marginAccount m⟩) :
    c.returns s = true ↔ ∃ pnl, pnlLongAtoms p.entryPriceFp markFp p.sizeFp = .ok pnl ∧
      x.ready.long ≠ x.ready.short ∧ l.Takes p.collateralPerSide (splitEquity p.collateralPerSide pnl).1 ∧
      m.Takes p.collateralPerSide (splitEquity p.collateralPerSide pnl).2 := by
  obtain ⟨market, mint⟩ := x.ready.terms genuine at_pmlc
  have long_address := x.ready.long_address
  have short_address := x.ready.short_address
  have nonce_address := x.ready.nonce_address
  rw [mint] at long_address short_address
  rw [market] at nonce_address
  have writable := x.ready.writable
  simp only [List.mem_cons, List.not_mem_nil, or_false, forall_eq_or_imp, forall_eq] at writable
  rw [Polyleverage.returns_iff, x.instruction]
  simp only [process, processCloseMutual, x.accounts_eq, x.ready.accounts_eq, Exec.bind_check, exists_const, x.signed, true_and,
    writable, data_of_get x.ready.config_eq, data_of_get x.ready.instrument_eq, AccountData.programConfig.injEq,
    AccountData.instrumentConfig.injEq, and_assoc, exists_eq_left', x.ready.running, x.ready.attested_iff, exists_eq_left,
    nonce_address, and_iff_right (x.ready.owned at_pmlc at_long at_short), ne_eq, not_true_eq_false, not_false_eq_true,
    x.window_eq, Except.ok.injEq]
  constructor
  · rintro ⟨t, ran⟩
    rw [Exec.bind_ok] at ran
    obtain ⟨_, _, accepted, ran⟩ := ran
    obtain ⟨n, -, rfl⟩ := (x.ready.accept_iff market).mp accepted
    simp only [Exec.bind_check, x.mark_eq, Except.ok.injEq, exists_eq_left', exists_const] at ran
    obtain ⟨p', ⟨held, -⟩, -, pnl, pnl_eq, -, -, ran⟩ := ran
    rw [x.ready.kept n at_pmlc (by simp)] at held
    cases held
    exact ⟨pnl, pnl_eq, (x.ready.settle_iff at_pmlc at_long at_short).mp ⟨t, ran⟩⟩
  · rintro ⟨pnl, pnl_eq, takes⟩
    obtain ⟨n, recorded⟩ : ∃ n : MarketNonceAccount, n = { x.ready.n.accept x.ready.att (nowUnix rt c.inv) with
      lastAcceptedTwapFp := markFp } := ⟨_, rfl⟩
    obtain ⟨t, ran⟩ := (x.ready.settle_iff (u := ()) (n := n) at_pmlc at_long at_short).mpr takes
    refine ⟨t, Exec.bind_ok.mpr ⟨(), _, (x.ready.accept_iff market).mpr ⟨n, ?_, rfl⟩, ?_⟩⟩
    · rw [x.mark_eq, recorded]
      rfl
    · simp only [Exec.bind_check, x.mark_eq, Except.ok.injEq, exists_eq_left', exists_const]
      exact ⟨p, ⟨x.ready.kept _ at_pmlc (by simp), live, rfl, market, mint⟩, by simp, pnl, pnl_eq,
        ⟨long_address, l, x.ready.kept _ at_long (by simp), margin_passes genuine long_address at_long⟩,
        ⟨short_address, m, x.ready.kept _ at_short (by simp), margin_passes genuine short_address at_short⟩, ran⟩

end Returns

/-! ### What is locked for a side -/

/-- Each side of a live position has a margin account that has its collateral locked. -/
theorem margin_of_side {allowed : Instruction → Prop} {owner : Pubkey} (genuine : Genuine rt s)
    (reached : Reachable rt allowed s)
    (at_pmlc : s.get pmlc = ⟨rt.programId, .pmlc p⟩) (live : p.status = PMLC_STATUS_LIVE)
    (side : p.longOwner = owner ∨ p.shortOwner = owner) :
    ∃ m, s.get (rt.address (.margin owner p.collateralMint)) = ⟨rt.programId, .marginAccount m⟩ ∧
      p.collateralPerSide ≤ m.lockedCollateral := by
  obtain ⟨-, c, listed, -, -, bucket⟩ := genuine.pmlc_ok (owner_of_get at_pmlc) (data_of_get at_pmlc)
  have positive : p.collateralPerSide ≠ 0 := by
    rw [bucket]
    exact (genuine.listed_ok listed).2.1
  have bound := Ledger.le_holdings (μ := AccountData.held owner p.collateralMint) (owner_of_get at_pmlc)
  rw [data_of_get at_pmlc, AccountData.held, if_pos rfl] at bound
  have enough : p.collateralPerSide ≤ s.marginBalance rt owner p.collateralMint .locked := by
    refine le_trans ?_ (bound.trans (held_le_locked reached owner p.collateralMint))
    rw [Pmlc.lockedFor, if_pos live]
    rcases side with rfl | rfl
    · rw [if_pos rfl]
      omega
    · rw [if_pos (rfl : p.shortOwner = p.shortOwner)]
      omega
  unfold Ledger.marginBalance at enough
  split at enough
  next owned =>
    split at enough
    next m found => exact ⟨m, get_eq_of_data owned found, enough⟩
    · omega
  · omega

theorem backing_gap (reached : Reachable rt (fun i => i.triesMatch = false ∧ i.liquidates = false) s) :
    Genuine rt s ∧ ∀ mint, s.holdings rt (AccountData.wealth mint) ≤ s.vaultBalance rt mint := by
  have backed : Genuine rt s ∧ ∀ mint, 0 ≤ s.gap rt (.backing mint) := by
    refine reached.induct (P := fun s => Genuine rt s ∧ ∀ mint, 0 ≤ s.gap rt (.backing mint)) (fun s gen => ?_) ?_
    · refine ⟨genuine_genesis gen, fun mint => ?_⟩
      rw [Ledger.gap, gen.holdings]
      omega
    · rintro s t inv i ⟨genuine, backed⟩ ⟨still, fair⟩ ran
      have kept := upkeep_process genuine ran
      exact ⟨kept.genuine, fun mint => (backed mint).trans (kept.backing still fair mint)⟩
  refine ⟨backed.1, fun mint => ?_⟩
  have gap := backed.2 mint
  rw [Ledger.gap] at gap
  omega

/-- Two margin accounts of a mint hold no more than its vault. -/
theorem pair_le_vault {j k mint : Pubkey} {l m : MarginAccount} (apart : j ≠ k)
    (backed : s.holdings rt (AccountData.wealth mint) ≤ s.vaultBalance rt mint)
    (at_long : s.get j = ⟨rt.programId, .marginAccount l⟩) (at_short : s.get k = ⟨rt.programId, .marginAccount m⟩)
    (mintL : l.collateralMint = mint) (mintS : m.collateralMint = mint) :
    l.total + m.total ≤ s.vaultBalance rt mint := by
  have bound := Store.sum_le_total (s := s)
    (f := fun _ a => if a.owner = rt.programId then AccountData.wealth mint a.data else 0)
    (fun _ => Ledger.count_default rt (AccountData.wealth mint)) {j, k}
  rw [Finset.sum_pair apart, at_long, at_short] at bound
  simp only [if_true, AccountData.wealth, mintL, mintS] at bound
  exact bound.trans backed

/-- With so little in the vault, a side takes whatever equity it gets. -/
theorem takes_of_pair {l m : MarginAccount} {c equity : ℕ} (small : l.total + m.total < 2 ^ 63)
    (enough : c ≤ l.lockedCollateral) (enough' : c ≤ m.lockedCollateral) (most : equity ≤ 2 * c) :
    l.Takes c equity := by
  have parts : l.total = l.freeCollateral + l.reservedCollateral + l.lockedCollateral := rfl
  have parts' : m.total = m.freeCollateral + m.reservedCollateral + m.lockedCollateral := rfl
  refine ⟨enough, by omega, ?_⟩
  rw [toSigned_of_lt (by omega), toSigned_of_lt (by omega)]
  unfold FitsSigned
  omega

/-- Both sides take their equities, whatever the PnL. -/
theorem both_take {j k : Pubkey} {l m : MarginAccount} (backed : s.holdings rt (AccountData.wealth p.collateralMint) ≤
      s.vaultBalance rt p.collateralMint) (small : s.vaultBalance rt p.collateralMint < 2 ^ 63)
    (at_long : s.get j = ⟨rt.programId, .marginAccount l⟩) (at_short : s.get k = ⟨rt.programId, .marginAccount m⟩)
    (mintL : l.collateralMint = p.collateralMint) (mintS : m.collateralMint = p.collateralMint)
    (enoughL : p.collateralPerSide ≤ l.lockedCollateral) (enoughS : p.collateralPerSide ≤ m.lockedCollateral)
    (pnl : ℤ) :
    (j ≠ k ∧ l.Takes p.collateralPerSide (splitEquity p.collateralPerSide pnl).1 ∧
      m.Takes p.collateralPerSide (splitEquity p.collateralPerSide pnl).2) ↔ j ≠ k := by
  refine and_iff_left_of_imp fun apart => ?_
  have held := (pair_le_vault apart backed at_long at_short mintL mintS).trans_lt small
  have parts : l.total = l.freeCollateral + l.reservedCollateral + l.lockedCollateral := rfl
  have parts' : m.total = m.freeCollateral + m.reservedCollateral + m.lockedCollateral := rfl
  have fits : 2 * p.collateralPerSide < 2 ^ 64 := by omega
  have equity := boundedEquity_eq fits pnl
  rw [splitEquity_eq fits]
  constructor
  · apply takes_of_pair held enoughL enoughS
    omega
  · apply takes_of_pair (by omega : m.total + l.total < 2 ^ 63) enoughS enoughL
    omega

/-- An outcome settles at a PnL, unless the one in the middle is too large for the machine. -/
theorem exists_resolvePnl {outcome : ℕ} (decides : outcome = 0 ∨ outcome = 5000 ∨ outcome = 10000) :
    (∃ finalFp pnl, finalMark outcome = .ok finalFp ∧ resolvePnl p outcome finalFp = .ok pnl) ↔
      (outcome = 5000 → FitsSigned 128 (((PRICE_ONE / 2 : ℕ) - (p.entryPriceFp : ℤ)) * toSigned 128 p.sizeFp)) := by
  rcases decides with rfl | rfl | rfl
  · simp [finalMark, resolvePnl]
  · simp only [finalMark, resolvePnl, OfNat.ofNat_ne_zero, if_false, if_true, Except.ok.injEq, exists_eq_left', exists_and_left,
      forall_const, Nat.reduceEqDiff, pnlLongAtoms_ok]
    constructor
    · rintro ⟨fits, -⟩
      exact fits
    · intro fits
      exact ⟨fits, _, rfl⟩
  · simp [finalMark, resolvePnl]

/-- Every live position can be ended while the program is not paused: a resolution at an outcome of its market returns,
and so does a close that both sides sign, unless the two sides are one trader, or the change of the price times the
size is too large for the machine. This holds in every run without a match by a post and without a liquidation, as
long as the vault holds less than half of what a machine word does. -/
theorem position_ends (reached : Reachable rt (fun i => i.triesMatch = false ∧ i.liquidates = false) s)
    (at_pmlc : s.get pmlc = ⟨rt.programId, .pmlc p⟩) (live : p.status = PMLC_STATUS_LIVE)
    (small : s.vaultBalance rt p.collateralMint < 2 ^ 63) :
    (∀ c outcome, Resolves rt s p pmlc c outcome → (c.returns s = true ↔ p.longOwner ≠ p.shortOwner ∧
      (outcome = 5000 → FitsSigned 128 (((PRICE_ONE / 2 : ℕ) - (p.entryPriceFp : ℤ)) * toSigned 128 p.sizeFp)))) ∧
    ∀ c markFp, ClosesMutually rt s p pmlc c markFp → (c.returns s = true ↔ p.longOwner ≠ p.shortOwner ∧
      FitsSigned 128 (((markFp : ℤ) - p.entryPriceFp) * toSigned 128 p.sizeFp)) := by
  obtain ⟨genuine, backed⟩ := backing_gap reached
  obtain ⟨l, at_long, enoughL⟩ := margin_of_side genuine reached at_pmlc live (.inl rfl)
  obtain ⟨m, at_short, enoughS⟩ := margin_of_side genuine reached at_pmlc live (.inr rfl)
  have mintL := (margin_passes genuine rfl at_long).2.1
  have mintS := (margin_passes genuine rfl at_short).2.1
  have take (pnl : ℤ) :=
    (both_take (backed p.collateralMint) small at_long at_short mintL mintS enoughL enoughS pnl).trans margin_ne_iff
  constructor
  · intro c outcome x
    have at_long' : s.get x.ready.long = ⟨rt.programId, .marginAccount l⟩ := by rw [← x.ready.long_address, at_long]
    have at_short' : s.get x.ready.short = ⟨rt.programId, .marginAccount m⟩ := by rw [← x.ready.short_address, at_short]
    rw [x.returns_iff genuine at_pmlc live at_long' at_short', ← x.ready.long_address, ← x.ready.short_address,
      ← exists_resolvePnl x.decides]
    simp only [take]
    constructor
    · rintro ⟨finalFp, pnl, final, computed, other⟩
      exact ⟨other, finalFp, pnl, final, computed⟩
    · rintro ⟨other, finalFp, pnl, final, computed⟩
      exact ⟨finalFp, pnl, final, computed, other⟩
  · intro c markFp x
    have at_long' : s.get x.ready.long = ⟨rt.programId, .marginAccount l⟩ := by rw [← x.ready.long_address, at_long]
    have at_short' : s.get x.ready.short = ⟨rt.programId, .marginAccount m⟩ := by rw [← x.ready.short_address, at_short]
    rw [x.returns_iff genuine at_pmlc live at_long' at_short', ← x.ready.long_address, ← x.ready.short_address]
    simp only [take, pnlLongAtoms_ok]
    constructor
    · rintro ⟨pnl, ⟨fits, -⟩, other⟩
      exact ⟨other, fits⟩
    · rintro ⟨other, fits⟩
      exact ⟨_, ⟨fits, rfl⟩, other⟩

/-- The first position of the market is live and has these owners, and nothing was attested yet. -/
structure Sample.Awaits (s : Ledger) (long short : Pubkey) : Prop where
  owned : ∀ k ∈ [config, Sample.instrument poly, Sample.pmlc poly 3, nonce poly], s.owner k = Runtime.sample.programId
  terms : (s.data (Sample.pmlc poly 3)).loadPmlc.toOption.map (fun p =>
    (p.status, p.instrument, p.marketId, p.collateralMint, p.longOwner, p.shortOwner)) =
    some (PMLC_STATUS_LIVE, Sample.instrument poly, 77, mint, long, short)
  running : (s.data config).loadProgramConfig.toOption.map (fun cfg => (cfg.globalPause, cfg.attestationSigner)) =
    some (0, oracle)
  listed : (s.data (Sample.instrument poly)).loadInstrument.toOption.map (fun _ => ()) = some ()
  unattested : (s.data (nonce poly)).loadMarketNonce.toOption.map (fun n => n.lastAcceptedCreNonce) = some 0

/-- This message resolves the sample's market. -/
structure Sample.Decides (c : Call Runtime.sample) (outcome : ℕ) : Prop where
  attested : Attested Runtime.sample c.inv oracle 0 ATT_TYPE_RESOLUTION (resolution 1 outcome)
  outcome_eq : (resolution 1 outcome).finalOutcomeBps = .ok outcome
  market : (resolution 1 outcome).marketId = 77
  timestamp : (resolution 1 outcome).timestamp = 0
  nonce : (resolution 1 outcome).nonce = 1
  allowed : outcome = 0 ∨ outcome = 5000 ∨ outcome = 10000

theorem Sample.Awaits.resolves {s : Ledger} {long short : Pubkey} {o : ℕ} (awaits : Awaits s long short)
    (decides : Decides (resolve poly long short 3 (outcome 1 o)) o) :
    ∃ p, s.get (Sample.pmlc poly 3) = ⟨Runtime.sample.programId, .pmlc p⟩ ∧ p.status = PMLC_STATUS_LIVE ∧
      p.collateralMint = mint ∧ p.longOwner = long ∧ p.shortOwner = short ∧
      Nonempty (Resolves Runtime.sample s p (Sample.pmlc poly 3) (resolve poly long short 3 (outcome 1 o)) o) := by
  obtain ⟨p, read, terms⟩ := exists_of_read awaits.terms
  obtain ⟨cfg, read1, running⟩ := exists_of_read awaits.running
  obtain ⟨inst, read2, -⟩ := exists_of_read awaits.listed
  obtain ⟨n, read3, last⟩ := exists_of_read awaits.unattested
  simp only [Prod.mk.injEq] at terms running
  obtain ⟨live, instrument, market, of_mint, long_eq, short_eq⟩ := terms
  have owned := awaits.owned
  refine ⟨p, get_eq_of_data (owned _ (by simp)) (AccountData.loadPmlc_ok.mp read), live, of_mint, long_eq, short_eq, ⟨?_⟩⟩
  exact
    { offset := 0
      caller := carol
      accounts := [config, Runtime.sample.instructionsSysvar, Sample.instrument poly, Sample.pmlc poly 3, nonce poly,
        marginOf long, marginOf short]
      instruction := rfl
      accounts_eq := rfl
      signed := rfl
      ready :=
        { config := config
          nonce := nonce poly
          long := marginOf long
          short := marginOf short
          rest := []
          cfg, inst, n
          att := resolution 1 o
          accounts_eq := by rw [instrument]
          writable := fun _ _ => rfl
          nonce_address := by rw [market]; rfl
          long_address := by rw [long_eq, of_mint]; rfl
          short_address := by rw [short_eq, of_mint]; rfl
          config_eq := get_eq_of_data (owned _ (by simp)) (AccountData.loadProgramConfig_ok.mp read1)
          running := running.1
          instrument_eq := by
            rw [instrument]
            exact get_eq_of_data (owned _ (by simp)) (AccountData.loadInstrument_ok.mp read2)
          nonce_eq := get_eq_of_data (owned _ (by simp)) (AccountData.loadMarketNonce_ok.mp read3)
          attested := by
            rw [running.2]
            exact decides.attested
          market_eq := by rw [market, decides.market]
          not_future := by rw [decides.timestamp]; exact Nat.zero_le _
          not_stale := by
            have now : nowUnix Runtime.sample (resolve poly long short 3 (outcome 1 o)).inv = 0 := rfl
            rw [now, Nat.zero_sub]
            exact Nat.zero_le _
          nonce_lt := by
            rw [last, decides.nonce]
            decide }
      outcome_eq := decides.outcome_eq
      decides := decides.allowed }

/-- Alice's and Bob's position resolves. -/
theorem position_ends_traded : Sample.settlement.returns Sample.traded = true := by
  have awaits : Sample.Awaits Sample.traded Sample.alice Sample.bob :=
    ⟨by decide +kernel, by decide +kernel, by decide +kernel, by decide +kernel, by decide +kernel⟩
  obtain ⟨p, at_pmlc, live, mint, long, short, ⟨resolves⟩⟩ := awaits.resolves (o := 10000)
    ⟨⟨_, rfl, rfl, by decide +kernel, by decide +kernel⟩, by decide +kernel, by decide +kernel, by decide +kernel,
      by decide +kernel, .inr (.inr rfl)⟩
  have ends := position_ends (Sample.reachable (by decide +kernel)) at_pmlc live (by rw [mint]; decide +kernel)
  refine (ends.1 _ _ resolves).mpr ⟨?_, fun impossible => ?_⟩
  · rw [long, short]
    decide
  · cases impossible

end Polyleverage
