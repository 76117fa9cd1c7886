import Polyleverage.Guarantees.Attestations

/-! # Markets and their outcomes

A message names a market by its identifier alone, and the nonce account is one for each identifier. So a
message is good for one identifier only, but for every source that uses it; and an outcome, once
recorded, is replaced by any later message that resolves the market again.
-/

namespace Polyleverage

open Machine

variable {rt : Runtime} {s t : Ledger} {c : Call rt} {att : Attestation}

/-! ### The market of a message -/

/-- The call accepts the message for a live position of this instrument, and ends it. -/
def SettlesOn (s : Ledger) (c : Call rt) (att : Attestation) (instrument : Pubkey) : Prop :=
  Accepts s c att ∧ ∃ pmlc p, s.data pmlc = .pmlc p ∧ p.status = PMLC_STATUS_LIVE ∧ p.instrument = instrument ∧
    (execute rt c s).get pmlc ≠ s.get pmlc

/-- A message that settles on an instrument has the instrument's identifier. -/
theorem SettlesOn.marketId_eq {i : Pubkey} {inst : InstrumentConfig} (settles : SettlesOn s c att i)
    (listed : s.data i = .instrumentConfig inst) : att.marketId = inst.marketId := by
  obtain ⟨accepts, pmlc, p, held, -, rfl, touched⟩ := settles
  obtain ⟨index, type, x, n, status, closeReason, rfl, -, -, -, -, settled⟩ := accepts.settled
  have here : pmlc = x.pmlc := by
    by_contra other
    apply touched
    apply settled.get_other other
    · rintro rfl
      rw [x.nonce_eq] at held
      cases held
    · simp [held]
  subst here
  rw [x.pmlc_eq] at held
  cases held
  rw [x.instrument_of, x.instrument_eq] at listed
  cases listed
  exact x.market_eq

/-- Where the identifiers differ, a message that settles on one instrument is rejected on the other. The
check of the market passes exactly where they agree, whatever the sources are. -/
theorem message_of_marketId {i j : Pubkey} {I J : InstrumentConfig}
    {n : MarketNonceAccount} (listedI : s.data i = .instrumentConfig I) (listedJ : s.data j = .instrumentConfig J)
    (counted : s.data (rt.address (.marketNonce J.marketId)) = .marketNonce n) (settles : SettlesOn s c att i) :
    (I.marketId ≠ J.marketId → ∀ c' : Call rt, ¬ SettlesOn s c' att j) ∧
      (att.validateFreshnessAndNonce J.marketId n.lastAcceptedCreNonce (nowUnix rt c.inv) J.maxStalenessSecs = .ok () ↔
        I.marketId = J.marketId ∧ nowUnix rt c.inv - att.timestamp ≤ J.maxStalenessSecs) := by
  have ofI := settles.marketId_eq listedI
  refine ⟨fun differ c' settles' => ?_, ?_⟩
  · have ofJ := settles'.marketId_eq listedJ
    exact differ (ofI.symm.trans ofJ)
  · rw [Attestation.validateFreshnessAndNonce_ok]
    constructor
    · rintro ⟨ofJ, -, fresh, -⟩
      exact ⟨ofI.symm.trans ofJ, fresh⟩
    · rintro ⟨same, fresh⟩
      obtain ⟨index, type, x, n', status, closeReason, rfl, -⟩ := settles.1.settled
      refine ⟨ofI.trans same, x.not_future, fresh, ?_⟩
      -- There is one nonce account for the identifier.
      have account := x.nonce_account
      rw [ofI.trans same] at account
      rw [account.1, Ledger.data, account.2] at counted
      cases counted
      exact x.nonce_lt

theorem SettlesOn.of_accepts {pmlc i : Pubkey} (accepts : Accepts s c att) (isLive : s.isLive pmlc i = true)
    (touched : (execute rt c s).get pmlc ≠ s.get pmlc) : SettlesOn s c att i := by
  obtain ⟨p, held, live, of_instrument⟩ := Ledger.live_of_isLive isLive
  exact ⟨accepts, pmlc, p, held, live, of_instrument, touched⟩

/-- A resolution of the sample's market settles on the first platform's instrument. -/
theorem settlesOn_poly :
    SettlesOn Sample.tradedTwice (Sample.resolve Sample.poly Sample.alice Sample.bob 3 (Sample.outcome 1 10000))
      (Sample.resolution 1 10000) (Sample.instrument Sample.poly) := by
  refine .of_accepts ⟨0, ATT_TYPE_RESOLUTION, Sample.oracle, rfl, ⟨_, rfl, rfl, ?_, ?_⟩, Call.ran ?_⟩ (?_ :
    Sample.tradedTwice.isLive (Sample.pmlc Sample.poly 3) _ = true) ?_ <;> decide +kernel

/-- The same message settles on the second platform's instrument as well. -/
theorem settlesOn_kalshi :
    SettlesOn Sample.tradedTwice (Sample.resolve Sample.kalshi Sample.alice Sample.bob 3 (Sample.outcome 1 10000))
      (Sample.resolution 1 10000) (Sample.instrument Sample.kalshi) := by
  refine .of_accepts ⟨0, ATT_TYPE_RESOLUTION, Sample.oracle, rfl, ⟨_, rfl, rfl, ?_, ?_⟩, Call.ran ?_⟩ (?_ :
    Sample.tradedTwice.isLive (Sample.pmlc Sample.kalshi 3) _ = true) ?_ <;> decide +kernel

theorem message_of_marketId_tradedTwice :
    (Sample.resolution 1 10000).validateFreshnessAndNonce 77 0 0 60 = .ok () := by
  have listed : Sample.tradedTwice.data (Sample.instrument Sample.poly) =
      .instrumentConfig (Sample.poly.config Sample.mint (Sample.book Sample.poly) 255) := by decide +kernel
  have listed' : Sample.tradedTwice.data (Sample.instrument Sample.kalshi) =
      .instrumentConfig (Sample.kalshi.config Sample.mint (Sample.book Sample.kalshi) 255) := by decide +kernel
  have counted : Sample.tradedTwice.data (Runtime.sample.address (.marketNonce 77)) =
      .marketNonce (MarketNonceAccount.init 77 255) := by decide +kernel
  exact (message_of_marketId listed listed' counted settlesOn_poly).2.mpr ⟨rfl, by decide⟩

/-- In one reachable ledger one message settles on two instruments of different sources. -/
theorem message_settles_two_sources :
    Reachable Runtime.sample (fun _ => True) Sample.tradedTwice ∧ Sample.poly.source ≠ Sample.kalshi.source ∧
      Sample.instrument Sample.poly ≠ Sample.instrument Sample.kalshi ∧
      SettlesOn Sample.tradedTwice (Sample.resolve Sample.poly Sample.alice Sample.bob 3 (Sample.outcome 1 10000))
        (Sample.resolution 1 10000) (Sample.instrument Sample.poly) ∧
      SettlesOn Sample.tradedTwice (Sample.resolve Sample.kalshi Sample.alice Sample.bob 3 (Sample.outcome 1 10000))
        (Sample.resolution 1 10000) (Sample.instrument Sample.kalshi) :=
  ⟨Sample.reachable fun _ _ => trivial, by decide, by decide +kernel, settlesOn_poly, settlesOn_kalshi⟩

/-! ### The outcome of a market -/

/-- The outcome that is recorded for a market, once there is one. -/
def recordedOutcome (rt : Runtime) (s : Ledger) (marketId : ℕ) : Option ℕ :=
  match s.get (rt.address (.marketNonce marketId)) with
  | ⟨o, .marketNonce n⟩ => if o = rt.programId ∧ n.isResolved = 1 then some n.finalOutcomeBps else none
  | _ => none

theorem recordedOutcome_eq {marketId o : ℕ} :
    recordedOutcome rt s marketId = some o ↔
      ∃ n, s.get (rt.address (.marketNonce marketId)) = ⟨rt.programId, .marketNonce n⟩ ∧ n.isResolved = 1 ∧
        n.finalOutcomeBps = o := by
  unfold recordedOutcome
  constructor
  · intro recorded
    split at recorded
    next owner n held =>
      split at recorded
      next known =>
        obtain ⟨rfl, resolved⟩ := known
        cases recorded
        exact ⟨n, held, resolved, rfl⟩
      · cases recorded
    · cases recorded
  · rintro ⟨n, held, resolved, rfl⟩
    rw [held]
    simp [resolved]

/-- A market without a resolution has no outcome yet. -/
example : recordedOutcome Runtime.sample Sample.traded 77 = none := by decide +kernel

/-- A resolution of this market that the current signer has signed and the call presents says that the outcome
is `o`. -/
def Agrees (s : Ledger) (marketId o : ℕ) (c : Call rt) : Prop :=
  ∀ offset config cfg att, c.instruction = .resolve offset → s.get config = ⟨rt.programId, .programConfig cfg⟩ →
    Attested rt c.inv cfg.attestationSigner offset.toNat ATT_TYPE_RESOLUTION att → att.marketId = marketId →
      att.finalOutcomeBps = .ok o

/-- Only a call to resolve asks for a resolution. -/
theorem Instruction.resolve_of_attestation {instr : Instruction} {index : ℕ}
    (attests : instr.attestation = some (index, ATT_TYPE_RESOLUTION)) :
    ∃ offset : UInt8, instr = .resolve offset ∧ offset.toNat = index := by
  cases instr with
  | resolve offset =>
    cases attests
    exact ⟨offset, rfl, rfl⟩
  | _ => simp [Instruction.attestation, ATT_TYPE_RESOLUTION, ATT_TYPE_HISTORICAL_LIQUIDATION, ATT_TYPE_PRICE_TWAP] at attests

/-- A call that agrees is resolved to nothing else. -/
theorem Agrees.outcome {marketId o : ℕ} (agrees : Agrees s marketId o c) {index : ℕ}
    (attests : c.instruction.attestation = some (index, ATT_TYPE_RESOLUTION)) (x : Settling rt c.inv s index ATT_TYPE_RESOLUTION)
    (ofMarket : x.att.marketId = marketId) : x.att.finalOutcomeBps = .ok o := by
  obtain ⟨offset, resolves, rfl⟩ := Instruction.resolve_of_attestation attests
  exact agrees offset x.config x.cfg x.att resolves (get_eq_of_data (x.owned _ (by simp)) x.config_eq) x.attested ofMarket

theorem Accepts.recordedOutcome {o : ℕ} (accepts : Accepts s c att) (outcome : att.finalOutcomeBps = .ok o) :
    recordedOutcome rt (execute rt c s) att.marketId = some o := by
  obtain ⟨index, type, x, n, status, closeReason, rfl, -, -, recorded, -, settled⟩ := accepts.settled
  have resolution := Attestation.attestationType_of_payload outcome
  rw [x.attested.type_eq] at resolution
  obtain ⟨resolved, final⟩ := recorded.resolved resolution
  rw [outcome] at final
  cases final
  rw [recordedOutcome_eq, x.nonce_account.1]
  exact ⟨n, settled.get_nonce, resolved, rfl⟩

/-- A call that agrees keeps the outcome. -/
theorem recordedOutcome_process {marketId o : ℕ} (agrees : Agrees s marketId o c)
    (recorded : recordedOutcome rt s marketId = some o)
    (ran : (process rt c.inv c.instruction).run s = .ok () t) : recordedOutcome rt t marketId = some o := by
  rw [recordedOutcome_eq] at recorded ⊢
  obtain ⟨n, held, resolved, rfl⟩ := recorded
  rcases nonce_of_process ran held with same | ⟨index, type, x, n', attests, here, rfl, record, after⟩
  · exact ⟨n, same.trans held, resolved, rfl⟩
  · refine ⟨n', after, ?_⟩
    by_cases resolution : type = ATT_TYPE_RESOLUTION
    · obtain ⟨resolved', final⟩ := record.resolved resolution
      refine ⟨resolved', ?_⟩
      have ofMarket : x.att.marketId = marketId := by
        have address := x.nonce_account.1.trans here
        simpa using rt.address_injective _ _ address
      subst resolution
      have agreed := agrees.outcome attests x ofMarket
      rw [final] at agreed
      exact Except.ok.inj agreed
    · obtain ⟨same, final⟩ := record.unresolved resolution
      exact ⟨same.trans resolved, final⟩

theorem recordedOutcome_runCalls {marketId o : ℕ} {later : List (Call rt)}
    (agree : ∀ before c' after, later = before ++ c' :: after → Agrees (runCalls rt before s) marketId o c')
    (recorded : recordedOutcome rt s marketId = some o) : recordedOutcome rt (runCalls rt later s) marketId = some o := by
  induction later generalizing s with
  | nil => exact recorded
  | cons c' later ih =>
    have kept : recordedOutcome rt (execute rt c' s) marketId = some o := by
      cases returns : c'.returns s with
      | true => exact recordedOutcome_process (agree [] c' later rfl) recorded (c'.ran returns)
      | false => rwa [execute_of_not_returns returns]
    apply ih _ kept
    rintro before c'' after rfl
    exact agree (c' :: before) c'' after rfl

/-- As long as every resolution of a market that the current signer has signed and that is presented says the same,
the market's outcome is final: it stays recorded, and whatever is resolved later is resolved to it. -/
theorem outcome_is_final {o : ℕ} (accepts : Accepts s c att) (outcome : att.finalOutcomeBps = .ok o)
    {later : List (Call rt)} (agree : ∀ before c' after, later = before ++ c' :: after →
      Agrees (runCalls rt before (execute rt c s)) att.marketId o c') :
    recordedOutcome rt (runCalls rt later (execute rt c s)) att.marketId = some o ∧
      ∀ (before after : List (Call rt)) (c' : Call rt) (att' : Attestation) (o' : ℕ), later = before ++ c' :: after →
        Accepts (runCalls rt before (execute rt c s)) c' att' → att'.marketId = att.marketId →
          att'.finalOutcomeBps = .ok o' → o' = o := by
  constructor
  · exact recordedOutcome_runCalls agree (accepts.recordedOutcome outcome)
  · rintro before after c' att' o' rfl accepts' same outcome'
    obtain ⟨index, type, x, n, status, closeReason, rfl, attests, -⟩ := accepts'.settled
    obtain rfl : ATT_TYPE_RESOLUTION = type := (Attestation.attestationType_of_payload outcome').symm.trans x.attested.type_eq
    have agreed := (agree before c' after rfl).outcome attests x same
    rw [outcome'] at agreed
    exact Except.ok.inj agreed

/-- With one instruction in the transaction, a call presents one message. -/
theorem agrees_outcome (args : CreateInstrumentArgs) (long short : Pubkey) (pmlcId : UInt64) {nonce o : ℕ}
    (outcome : (Sample.resolution nonce o).finalOutcomeBps = .ok o)
    (verified : extractVerifiedEd25519Message (Sample.outcome nonce o).data Sample.oracle =
      .ok (Sample.resolution nonce o).bytes) :
    Agrees s 77 o (Sample.resolve args long short pmlcId (Sample.outcome nonce o)) := by
  rintro offset config cfg att ⟨⟩ - ⟨ix, found, -, verified', -⟩ -
  cases found
  obtain ⟨-, body⟩ := extractVerifiedEd25519Message_unique verified verified'
  rwa [← Attestation.eq_of_bytes body]

/-- Two positions of one market are live. -/
def Sample.tradedAgain : Ledger := runCalls Runtime.sample Sample.again Sample.traded

theorem accepts_tradedAgain :
    Accepts Sample.tradedAgain (Sample.resolve Sample.poly Sample.alice Sample.bob 3 (Sample.outcome 1 10000))
      (Sample.resolution 1 10000) := by
  refine ⟨0, ATT_TYPE_RESOLUTION, Sample.oracle, rfl, ⟨_, rfl, rfl, ?_, ?_⟩, Call.ran ?_⟩ <;> decide +kernel

/-- A second message with the same outcome may follow. -/
theorem outcome_is_final_tradedAgain :
    recordedOutcome Runtime.sample
      (runCalls Runtime.sample [Sample.resolve Sample.poly Sample.alice Sample.bob 6 (Sample.outcome 2 10000)]
        (execute Runtime.sample (Sample.resolve Sample.poly Sample.alice Sample.bob 3 (Sample.outcome 1 10000))
          Sample.tradedAgain)) 77 = some 10000 := by
  refine (outcome_is_final accepts_tradedAgain (by decide +kernel) ?_).1
  intro before c after same
  have member : c ∈ before ++ c :: after := by simp
  rw [← same, List.mem_singleton] at member
  subst member
  exact agrees_outcome _ _ _ _ (by decide +kernel) (by decide +kernel)

/-- A resolution to nothing follows a resolution to everything, and both succeed. -/
theorem outcome_is_replaced :
    (Sample.resolve Sample.poly Sample.alice Sample.bob 3 (Sample.outcome 1 10000)).returns Sample.tradedAgain = true ∧
      recordedOutcome Runtime.sample
        (execute Runtime.sample (Sample.resolve Sample.poly Sample.alice Sample.bob 3 (Sample.outcome 1 10000))
          Sample.tradedAgain) 77 = some 10000 ∧
      (Sample.resolve Sample.poly Sample.alice Sample.bob 6 (Sample.outcome 2 0)).returns
        (execute Runtime.sample (Sample.resolve Sample.poly Sample.alice Sample.bob 3 (Sample.outcome 1 10000))
          Sample.tradedAgain) = true ∧
      recordedOutcome Runtime.sample
        (execute Runtime.sample (Sample.resolve Sample.poly Sample.alice Sample.bob 6 (Sample.outcome 2 0))
          (execute Runtime.sample (Sample.resolve Sample.poly Sample.alice Sample.bob 3 (Sample.outcome 1 10000))
            Sample.tradedAgain)) 77 = some 0 := by
  decide +kernel

end Polyleverage
