import Polyleverage.Invariants.Upkeep
import Polyleverage.Sample

/-! # Attestations are spent once

The nonce account of a market remembers the last nonce that any settlement on the market accepted, and
only settlements write it. So the nonces of the accepted messages of a market grow over a whole run, and
a message that was accepted is never accepted again.
-/

namespace Polyleverage

open Machine

variable {rt : Runtime} {inv : rt.Invocation} {s t : Ledger} {k : Pubkey}

/-! ### What was accepted -/

theorem Attested.unique {signer signer' : Pubkey} {index type type' : ℕ} {att att' : Attestation}
    (attested : Attested rt inv signer index type att) (attested' : Attested rt inv signer' index type' att') :
    signer = signer' ∧ att = att' := by
  obtain ⟨ix, found, -, verified, -⟩ := attested
  obtain ⟨ix', found', -, verified', -⟩ := attested'
  rw [found] at found'
  cases found'
  obtain ⟨key, body⟩ := extractVerifiedEd25519Message_unique verified verified'
  exact ⟨key, Attestation.eq_of_bytes body⟩

theorem Attested.type_eq {signer : Pubkey} {index type : ℕ} {att : Attestation}
    (attested : Attested rt inv signer index type att) : att.attestationType = type := by
  obtain ⟨-, -, -, -, is_type⟩ := attested
  exact is_type

/-- The call returns and spends this message. -/
def Accepts (s : Ledger) (c : Call rt) (att : Attestation) : Prop :=
  ∃ index type signer, c.instruction.attestation = some (index, type) ∧ Attested rt c.inv signer index type att ∧
    (process rt c.inv c.instruction).run s = .ok () (execute rt c s)

/-- A message that was accepted was accepted by a settlement. -/
theorem Accepts.settled {c : Call rt} {att : Attestation} (accepts : Accepts s c att) :
    ∃ (index type : ℕ) (x : Settling rt c.inv s index type) (n : MarketNonceAccount) (status closeReason : ℕ),
      x.att = att ∧ c.instruction.attestation = some (index, type) ∧
      c.instruction.pmlcOf c.inv.accounts = some x.pmlc ∧ Recorded x n ∧
      status ∈ [PMLC_STATUS_CLOSED, PMLC_STATUS_LIQUIDATED, PMLC_STATUS_RESOLVED] ∧
      Settled x n status closeReason (execute rt c s) := by
  obtain ⟨index, type, signer, attests, attested, ran⟩ := accepts
  obtain ⟨x, n, status, closeReason, given, recorded, ended, settled⟩ := settled_of_process attests ran
  have same := (x.attested.unique attested).2
  exact ⟨index, type, x, n, status, closeReason, same, attests, given, recorded, ended, settled⟩

/-- A settlement that returns has spent a message. -/
theorem Call.accepts {c : Call rt} (attests : c.instruction.attestation ≠ none) (returns : c.returns s = true) :
    ∃ att, Accepts s c att := by
  obtain ⟨⟨index, type⟩, asked⟩ := Option.ne_none_iff_exists'.mp attests
  have ran := c.ran returns
  obtain ⟨x, -⟩ := settled_of_process asked ran
  exact ⟨x.att, index, type, _, asked, x.attested, ran⟩

/-! ### The nonce of a market -/

/-- The market has accepted a message with this nonce or a later one. -/
def Spent (rt : Runtime) (marketId nonce : ℕ) (s : Ledger) : Prop :=
  ∃ n : MarketNonceAccount, s.get (rt.address (.marketNonce marketId)) = ⟨rt.programId, .marketNonce n⟩ ∧
    nonce ≤ n.lastAcceptedCreNonce

/-- Only settlements write nonce accounts. -/
theorem nonce_notMem_writes {instr : Instruction} (silent : instr.attestation = none) :
    AccountKind.marketNonce ∉ instr.writes := by
  cases instr <;> simp [Instruction.writes, Instruction.attestation] at silent ⊢

/-- The nonce account of the market whose message is accepted. -/
theorem Settling.nonce_account {index type : ℕ} (x : Settling rt inv s index type) :
    rt.address (.marketNonce x.att.marketId) = x.nonce ∧ s.get x.nonce = ⟨rt.programId, .marketNonce x.n⟩ := by
  rw [x.market_eq]
  exact ⟨x.nonce_address, get_eq_of_data x.owner_nonce x.nonce_eq⟩

/-- What a call does to a nonce account: nothing, or it accepts a later message of its market. -/
theorem nonce_of_process {instr : Instruction} {n : MarketNonceAccount} (ran : (process rt inv instr).run s = .ok () t)
    (held : s.get k = ⟨rt.programId, .marketNonce n⟩) :
    t.get k = s.get k ∨ ∃ (index type : ℕ) (x : Settling rt inv s index type) (n' : MarketNonceAccount),
      instr.attestation = some (index, type) ∧ x.nonce = k ∧ x.n = n ∧ Recorded x n' ∧
        t.get k = ⟨rt.programId, .marketNonce n'⟩ := by
  have data : s.data k = .marketNonce n := congrArg Account.data held
  cases attests : instr.attestation with
  | none =>
    apply Or.inl
    apply get_eq_of_process ran
    rw [data]
    exact nonce_notMem_writes attests
  | some asked =>
    obtain ⟨index, type⟩ := asked
    obtain ⟨x, n', status, closeReason, -, recorded, -, settled⟩ := settled_of_process attests ran
    by_cases here : k = x.nonce
    · subst here
      have before := x.nonce_eq
      rw [data] at before
      cases before
      exact .inr ⟨index, type, x, n', rfl, rfl, rfl, recorded, settled.get_nonce⟩
    · apply Or.inl
      apply settled.get_other _ here
      · rw [data]
        simp
      · rintro rfl
        rw [x.pmlc_eq] at data
        cases data

theorem Spent.process {instr : Instruction} {marketId nonce : ℕ} (spent : Spent rt marketId nonce s)
    (ran : (process rt inv instr).run s = .ok () t) : Spent rt marketId nonce t := by
  obtain ⟨n, held, reached⟩ := spent
  rcases nonce_of_process ran held with same | ⟨index, type, x, n', -, -, rfl, recorded, after⟩
  · exact ⟨n, same.trans held, reached⟩
  · have later := x.nonce_lt
    have last := recorded.nonce_eq
    exact ⟨n', after, by omega⟩

theorem Spent.runCalls {calls : List (Call rt)} {marketId nonce : ℕ} (spent : Spent rt marketId nonce s) :
    Spent rt marketId nonce (runCalls rt calls s) :=
  runCalls_induct (fun _ _ _ _ spent ran => spent.process ran) spent

theorem Accepts.spent {c : Call rt} {att : Attestation} (accepts : Accepts s c att) :
    Spent rt att.marketId att.nonce (execute rt c s) := by
  obtain ⟨index, type, x, n, status, closeReason, rfl, -, -, recorded, -, settled⟩ := accepts.settled
  refine ⟨n, ?_, recorded.nonce_eq.ge⟩
  rw [x.nonce_account.1]
  exact settled.get_nonce

/-- A message is accepted only after all that its market has accepted before. -/
theorem Accepts.lt_of_spent {c : Call rt} {att : Attestation} {nonce : ℕ} (accepts : Accepts s c att)
    (spent : Spent rt att.marketId nonce s) : nonce < att.nonce := by
  obtain ⟨index, type, x, n, status, closeReason, rfl, -⟩ := accepts.settled
  obtain ⟨n', held, reached⟩ := spent
  rw [x.nonce_account.1, x.nonce_account.2] at held
  cases held
  exact lt_of_le_of_lt reached x.nonce_lt

/-! ### A message is accepted once, for what it says -/

/-- Why a message was accepted: the current signer signed it, it is about the market of the instrument, it
is fresh, and the handler for its type closed the position that it was given and that a breach names. -/
structure AcceptedFor (rt : Runtime) (s : Ledger) (c : Call rt) (att : Attestation) (pmlc : Pubkey) : Prop where
  handler : ∃ index, c.instruction.attestation = some (index, att.attestationType) ∧
    ∃ cfg : ProgramConfig, s.get (rt.address .config) = ⟨rt.programId, .programConfig cfg⟩ ∧
      Attested rt c.inv cfg.attestationSigner index att.attestationType att
  given : c.instruction.pmlcOf c.inv.accounts = some pmlc
  position : ∃ p : Pmlc, s.get pmlc = ⟨rt.programId, .pmlc p⟩ ∧ p.status = PMLC_STATUS_LIVE ∧
    ∃ inst : InstrumentConfig, s.get p.instrument = ⟨rt.programId, .instrumentConfig inst⟩ ∧
      att.marketId = inst.marketId ∧ att.timestamp ≤ nowUnix rt c.inv ∧
      nowUnix rt c.inv - att.timestamp ≤ inst.maxStalenessSecs
  closed : ∃ p : Pmlc, (execute rt c s).get pmlc = ⟨rt.programId, .pmlc p⟩ ∧ p.status ≠ PMLC_STATUS_LIVE
  others : ∀ k p, k ≠ pmlc → s.data k = .pmlc p → (execute rt c s).get k = s.get k
  named : att.attestationType = ATT_TYPE_HISTORICAL_LIQUIDATION → att.breachPmlcPubkey = .ok pmlc

theorem Accepts.acceptedFor {c : Call rt} {att : Attestation} (genuine : Genuine rt s) (accepts : Accepts s c att) :
    ∃ pmlc, AcceptedFor rt s c att pmlc := by
  obtain ⟨index, type, x, n, status, closeReason, rfl, attests, given, recorded, ended, settled⟩ := accepts.settled
  have config_owned : s.owner x.config = rt.programId := x.owned _ (by simp)
  have config_at : rt.address .config = x.config := by
    have fits := genuine.fits x.config config_owned
    rw [x.config_eq] at fits
    exact fits
  have is_type := x.attested.type_eq
  have position := get_eq_of_data x.owner_pmlc x.pmlc_eq
  refine ⟨x.pmlc, ⟨index, by rw [is_type, attests], x.cfg, ?_, by rw [is_type]; exact x.attested⟩, given,
    ⟨x.p, position, x.live, x.inst, ?_, x.market_eq, x.not_future, x.not_stale⟩, ⟨_, settled.get_pmlc, ?_⟩,
    fun k p other held => ?_, fun historical => recorded.breached (is_type.symm.trans historical)⟩
  · rw [config_at]
    exact get_eq_of_data config_owned x.config_eq
  · rw [x.instrument_of]
    exact get_eq_of_data (x.owned _ (by simp)) x.instrument_eq
  · intro live
    change status = PMLC_STATUS_LIVE at live
    rw [live] at ended
    exact absurd ended (by decide)
  · apply settled.get_other other
    · rintro rfl
      rw [x.nonce_eq] at held
      cases held
    · simp [held]

/-- A settlement that returns has accepted a message. A message is accepted for what it says, and every message
of its market that is accepted later has a later nonce and is another message. -/
theorem attestation_spent_once (reached : Reachable rt (fun _ => True) s) (c : Call rt) :
    (c.instruction.attestation ≠ none → c.returns s = true → ∃ att, Accepts s c att) ∧
      ∀ att, Accepts s c att → (∃ pmlc, AcceptedFor rt s c att pmlc) ∧
        ∀ (between : List (Call rt)) (c' : Call rt) (att' : Attestation),
          Accepts (runCalls rt between (execute rt c s)) c' att' →
            (att'.marketId = att.marketId → att.nonce < att'.nonce) ∧ att' ≠ att := by
  refine ⟨Call.accepts, fun att accepts => ?_⟩
  refine ⟨accepts.acceptedFor (genuine_of_reachable reached), fun between c' att' accepts' => ?_⟩
  have spent : Spent rt att.marketId att.nonce (runCalls rt between (execute rt c s)) := accepts.spent.runCalls
  have later : att'.marketId = att.marketId → att.nonce < att'.nonce := by
    intro same
    apply accepts'.lt_of_spent
    rw [same]
    exact spent
  refine ⟨later, ?_⟩
  rintro rfl
  exact absurd (later rfl) (lt_irrefl _)

/-- The resolution of the sample's position is accepted. -/
theorem accepts_traded :
    Accepts Sample.traded (Sample.resolve Sample.poly Sample.alice Sample.bob 3 (Sample.outcome 1 10000))
      (Sample.resolution 1 10000) := by
  refine ⟨0, ATT_TYPE_RESOLUTION, Sample.oracle, rfl, ⟨_, rfl, rfl, ?_, ?_⟩, Call.ran ?_⟩ <;> decide +kernel

theorem attestation_spent_once_traded :
    ¬ Accepts (runCalls Runtime.sample Sample.again (execute Runtime.sample
          (Sample.resolve Sample.poly Sample.alice Sample.bob 3 (Sample.outcome 1 10000)) Sample.traded))
      (Sample.resolve Sample.poly Sample.alice Sample.bob 6 (Sample.outcome 1 10000)) (Sample.resolution 1 10000) := by
  intro again
  have once := (attestation_spent_once (Sample.reachable fun _ _ => trivial) _).2 _ accepts_traded
  exact (once.2 Sample.again _ (Sample.resolution 1 10000) again).2 rfl

end Polyleverage
