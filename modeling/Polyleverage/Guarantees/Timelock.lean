import Polyleverage.Invariants.History
import Polyleverage.Invariants.Settling
import Polyleverage.Invariants.Upkeep
import Polyleverage.Sample

/-! # The timelock

The attestation signer is the one the program was configured with, or one that was proposed a day before
its proposal was executed. A proposal is made once, and executed or cancelled once.
-/

namespace Polyleverage

variable {rt : Runtime} {inv : rt.Invocation} {s t : Ledger} {k : Pubkey} {u : Unit} {past : List (Call rt)} {c : Call rt}

namespace Call

/-- The signer that the program is configured with. -/
def initialSigner (c : Call rt) : Option Pubkey :=
  match c.instruction with
  | .initProgramConfig args => some args.attestationSigner
  | _ => none

def proposedId (c : Call rt) : Option ℕ :=
  match c.instruction with
  | .proposeSetAttestationSigner args => some args.proposalId.toNat
  | _ => none

/-- The signer that is proposed. -/
def proposedSigner (c : Call rt) : Option Pubkey :=
  match c.instruction with
  | .proposeSetAttestationSigner args => some args.newSigner
  | _ => none

def executedId (c : Call rt) : Option ℕ :=
  match c.instruction with
  | .executeSetAttestationSigner id => some id.toNat
  | _ => none

def cancelledId (c : Call rt) : Option ℕ :=
  match c.instruction with
  | .cancelTimelockProposal id => some id.toNat
  | _ => none

end Call

/-- The past has a call that proposed this signer under this number at this time. -/
def ProposedAt (past : List (Call rt)) (id : ℕ) (signer : Pubkey) (time : ℤ) : Prop :=
  ∃ c ∈ past, c.proposedId = some id ∧ c.proposedSigner = some signer ∧ c.inv.unixTimestamp = time

/-- The program was configured with this signer, or a proposal of it was executed. -/
def SignerOrigin (past : List (Call rt)) (signer : Pubkey) : Prop :=
  (∃ c ∈ past, c.initialSigner = some signer) ∨
    ∃ c ∈ past, ∃ id time, c.executedId = some id ∧ ProposedAt past id signer time ∧
      time + TIMELOCK_DELAY_SECS ≤ c.inv.unixTimestamp

/-- A proposal lies at its address. -/
def Ledger.Proposal (rt : Runtime) (s : Ledger) (id : ℕ) (p : TimelockProposal) : Prop :=
  s.get (rt.address (.timelock id)) = ⟨rt.programId, .timelock p⟩

/-- The past explains the proposals and the signer. -/
structure Chronicle (past : List (Call rt)) (s : Ledger) : Prop where
  recorded : ∀ id p, s.Proposal rt id p → ProposedAt past id p.newSigner p.proposedUnixTs ∧
    p.executableAfterUnixTs = p.proposedUnixTs + TIMELOCK_DELAY_SECS
  proposed : ∀ id ∈ past.filterMap Call.proposedId, ∃ p, s.Proposal rt id p
  executed : ∀ id ∈ past.filterMap Call.executedId, ∃ p, s.Proposal rt id p ∧ p.status = TL_STATUS_EXECUTED
  cancelled : ∀ id ∈ past.filterMap Call.cancelledId, ∃ p, s.Proposal rt id p ∧ p.status = TL_STATUS_CANCELLED
  proposed_once : (past.filterMap Call.proposedId).Nodup
  executed_once : (past.filterMap Call.executedId).Nodup
  signer : ∀ k cfg, s.get k = ⟨rt.programId, .programConfig cfg⟩ → SignerOrigin past cfg.attestationSigner

/-! ### What a call does to proposals -/

/-- All accounts but these are left alone. -/
def OnlyAt (keys : List Pubkey) (s t : Ledger) : Prop := ∀ j, j ∉ keys → t.get j = s.get j

theorem proposal_setData {id : ℕ} {p : TimelockProposal} (owned : s.owner (rt.address (.timelock id)) = rt.programId) :
    (s.setData (rt.address (.timelock id)) (.timelock p)).Proposal rt id p := by
  rw [Ledger.Proposal, Ledger.get_setData_self, owned]

theorem processPropose_ok {args : ProposeSetAttestationSignerArgs}
    (ran : (processProposeSetAttestationSigner rt inv args).run s = .ok () t) :
    s.get (rt.address (.timelock args.proposalId.toNat)) = default ∧
      (∃ p, t.Proposal rt args.proposalId.toNat p ∧ p.newSigner = args.newSigner ∧ p.status = TL_STATUS_PENDING ∧
        p.proposedUnixTs = inv.unixTimestamp ∧ p.executableAfterUnixTs = p.proposedUnixTs + TIMELOCK_DELAY_SECS) ∧
      OnlyAt [rt.address (.timelock args.proposalId.toNat)] s t := by
  unfold processProposeSetAttestationSigner at ran
  split at ran
  · simp only [Exec.bind_check, exists_const] at ran
    obtain ⟨-, -, -, -, -, _, -, bump, ⟨rfl, -⟩, -, ran⟩ := ran
    rw [Exec.bind_ok] at ran
    obtain ⟨_, mid, created, ran⟩ := ran
    simp only [Exec.bind_check, exists_const] at ran
    obtain ⟨-, ran⟩ := ran
    obtain ⟨vacant, rfl⟩ := createAccount_ok created
    obtain ⟨rfl, -⟩ := writeData_ok ran
    refine ⟨vacant, ⟨_, proposal_setData (by rw [Ledger.owner, Store.get_set_self]), rfl, rfl, rfl, rfl⟩,
      fun j other => ?_⟩
    · rw [List.mem_singleton] at other
      rw [Ledger.get_setData_of_ne _ _ other, Store.get_set_of_ne _ _ other]
  · cases ran

theorem processExecute_ok {proposalId : UInt64} (ran : (processExecuteSetAttestationSigner rt inv proposalId).run s = .ok () t) :
    ∃ config cfg p, s.get config = ⟨rt.programId, .programConfig cfg⟩ ∧ s.Proposal rt proposalId.toNat p ∧
      p.status = TL_STATUS_PENDING ∧ p.executableAfterUnixTs ≤ inv.unixTimestamp ∧
      t.get config = ⟨rt.programId, .programConfig { cfg with attestationSigner := p.newSigner }⟩ ∧
      t.Proposal rt proposalId.toNat { p with status := TL_STATUS_EXECUTED } ∧
      OnlyAt [config, rt.address (.timelock proposalId.toNat)] s t := by
  unfold processExecuteSetAttestationSigner at ran
  split at ran
  next admin config timelock rest _ =>
    simp only [Exec.bind_check, exists_const] at ran
    obtain ⟨-, -, -, owned, _, ⟨rfl, -⟩, p, held, ready, _, -, ran⟩ := ran
    simp only [not_or, ne_eq, not_not, not_lt] at ready
    rw [Exec.bind_ok] at ran
    obtain ⟨_, mid, signed, executed⟩ := ran
    obtain ⟨cfg, found, rfl⟩ := updateAccount_eq signed
    have apart : rt.address (.timelock proposalId.toNat) ≠ config := by
      intro same
      rw [same, found] at held
      cases held
    obtain ⟨p', found', rfl⟩ := updateAccount_eq executed
    rw [Ledger.data_setData_of_ne _ _ apart, held] at found'
    cases found'
    have config_eq := get_eq_of_data (owned _ (by simp)) found
    have proposal := get_eq_of_data (owned _ (by simp)) held
    refine ⟨config, cfg, p, config_eq, proposal, ready.1, ready.2.2, ?_, ?_, fun j other => ?_⟩
    · rw [Ledger.get_setData_of_ne _ _ apart.symm, Ledger.get_setData_self, Ledger.owner, config_eq]
    · exact proposal_setData (by rw [Ledger.owner, Ledger.get_setData_of_ne _ _ apart, proposal])
    · simp only [List.mem_cons, List.not_mem_nil, or_false, not_or] at other
      rw [Ledger.get_setData_of_ne _ _ other.2, Ledger.get_setData_of_ne _ _ other.1]
  · cases ran

theorem processCancel_ok {proposalId : UInt64} (ran : (processCancelTimelockProposal rt inv proposalId).run s = .ok () t) :
    ∃ p, s.Proposal rt proposalId.toNat p ∧ p.status = TL_STATUS_PENDING ∧
      t.Proposal rt proposalId.toNat { p with status := TL_STATUS_CANCELLED } ∧
      OnlyAt [rt.address (.timelock proposalId.toNat)] s t := by
  unfold processCancelTimelockProposal at ran
  split at ran
  next admin timelock rest _ =>
    simp only [Exec.bind_check, exists_const, not_not] at ran
    obtain ⟨-, -, owned, _, ⟨rfl, -⟩, p, held, -, pending, ran⟩ := ran
    obtain ⟨p', found, rfl⟩ := updateAccount_eq ran
    rw [held] at found
    cases found
    have proposal := get_eq_of_data (owned _ (by simp)) held
    refine ⟨p, proposal, pending, ?_, fun j other => ?_⟩
    · exact proposal_setData (by rw [Ledger.owner, proposal])
    · rw [List.mem_singleton] at other
      rw [Ledger.get_setData_of_ne _ _ other]
  · cases ran

/-- What a call does to the configuration's signer. -/
theorem signer_of_process {cfg' : ProgramConfig} (ran : (process rt c.inv c.instruction).run s = .ok () t)
    (held : t.get k = ⟨rt.programId, .programConfig cfg'⟩) :
    (∃ cfg, s.get k = ⟨rt.programId, .programConfig cfg⟩ ∧ cfg'.attestationSigner = cfg.attestationSigner) ∨
      c.initialSigner = some cfg'.attestationSigner ∧ (s.data k).kind ≠ .programConfig ∨
      ∃ id p, c.executedId = some id ∧ s.Proposal rt id p ∧ p.status = TL_STATUS_PENDING ∧
        p.executableAfterUnixTs ≤ c.inv.unixTimestamp ∧ p.newSigner = cfg'.attestationSigner := by
  by_cases left : AccountKind.programConfig ∈ c.instruction.leaves
  · obtain ⟨inv, instr⟩ := c
    cases instr with
    | initProgramConfig args =>
      simp only [process] at ran
      unfold processInitProgramConfig at ran
      split at ran
      next admin config treasury system rest _ =>
        simp only [Exec.bind_check, exists_const] at ran
        obtain ⟨-, -, -, -, bump, -, ran⟩ := ran
        rw [Exec.bind_ok] at ran
        obtain ⟨_, s1, created, inited⟩ := ran
        obtain ⟨fresh, rfl, -⟩ := initAccount_ok inited
        have creates : Touches [.raw] [.raw] s s1 := Within.keeps.ok created
        by_cases here : k = config
        · subst here
          rw [Ledger.get_setData_self] at held
          cases congrArg Account.data held
          refine .inr (.inl ⟨rfl, fun configured => ?_⟩)
          rw [Ledger.data, creates.get_eq (by simp [configured])] at fresh
          rw [Ledger.data, fresh] at configured
          cases configured
        · rw [Ledger.get_setData_of_ne _ _ here] at held
          have same := creates.get_eq' (k := k) (by simp [Ledger.data, held])
          exact .inl ⟨cfg', same ▸ held, rfl⟩
      · cases ran
    | setGlobalPause paused =>
      simp only [process] at ran
      unfold processSetGlobalPause at ran
      split at ran
      next admin config rest _ =>
        simp only [Exec.bind_check, exists_const] at ran
        obtain ⟨-, owned, _, -, ran⟩ := ran
        obtain ⟨cfg, found, rfl⟩ := updateAccount_eq ran
        by_cases here : k = config
        · subst here
          rw [Ledger.get_setData_self] at held
          cases congrArg Account.data held
          exact .inl ⟨cfg, get_eq_of_data (owned _ (by simp)) found, rfl⟩
        · rw [Ledger.get_setData_of_ne _ _ here] at held
          exact .inl ⟨cfg', held, rfl⟩
      · cases ran
    | executeSetAttestationSigner proposalId =>
      obtain ⟨config, cfg, p, before, proposal, pending, ready, after, proposal', others⟩ := processExecute_ok ran
      by_cases here : k = config
      · subst here
        rw [after] at held
        cases held
        exact .inr (.inr ⟨_, p, rfl, proposal, pending, ready, rfl⟩)
      · have apart : k ≠ rt.address (.timelock proposalId.toNat) := by
          rintro rfl
          rw [proposal'] at held
          cases held
        rw [others k (by simp [here, apart])] at held
        exact .inl ⟨cfg', held, rfl⟩
    | _ => simp [Instruction.leaves, Instruction.writes] at left
  · left
    have same := ((within_process rt c.inv c.instruction).keeps.ok ran).get_eq' (by rwa [Ledger.data, held])
    exact ⟨cfg', same ▸ held, rfl⟩

/-- The configuration stays where it is. -/
theorem config_of_process {cfg : ProgramConfig} {instr : Instruction} (ran : (process rt inv instr).run s = .ok () t)
    (held : s.get k = ⟨rt.programId, .programConfig cfg⟩) : ∃ cfg', t.get k = ⟨rt.programId, .programConfig cfg'⟩ := by
  by_cases written : AccountKind.programConfig ∈ instr.writes
  · cases instr with
    | setGlobalPause paused =>
      simp only [process] at ran
      unfold processSetGlobalPause at ran
      split at ran
      next admin config rest _ =>
        simp only [Exec.bind_check, exists_const] at ran
        obtain ⟨-, owned, _, -, ran⟩ := ran
        obtain ⟨c, found, rfl⟩ := updateAccount_eq ran
        by_cases here : k = config
        · subst here
          exact ⟨_, by rw [Ledger.get_setData_self, Ledger.owner, held]⟩
        · exact ⟨cfg, by rw [Ledger.get_setData_of_ne _ _ here, held]⟩
      · cases ran
    | executeSetAttestationSigner proposalId =>
      obtain ⟨config, cfg', p, before, proposal, -, -, after, -, others⟩ := processExecute_ok ran
      by_cases here : k = config
      · subst here
        exact ⟨_, after⟩
      · have apart : k ≠ rt.address (.timelock proposalId.toNat) := by
          rintro rfl
          rw [Ledger.Proposal, held] at proposal
          cases proposal
        exact ⟨cfg, by rw [others k (by simp [here, apart]), held]⟩
    | _ => simp [Instruction.writes] at written
  · refine ⟨cfg, ?_⟩
    rw [get_eq_of_process ran (by rwa [Ledger.data, held]), held]

/-! ### Chronicles -/

theorem ProposedAt.concat {id : ℕ} {signer : Pubkey} {time : ℤ} (proposed : ProposedAt past id signer time) (c : Call rt) :
    ProposedAt (past ++ [c]) id signer time := by
  obtain ⟨c', member, known⟩ := proposed
  exact ⟨c', List.mem_append_left _ member, known⟩

theorem SignerOrigin.concat {signer : Pubkey} (origin : SignerOrigin past signer) (c : Call rt) :
    SignerOrigin (past ++ [c]) signer := by
  rcases origin with ⟨c', member, known⟩ | ⟨c', member, id, time, executed, proposed, elapsed⟩
  · exact .inl ⟨c', List.mem_append_left _ member, known⟩
  · exact .inr ⟨c', List.mem_append_left _ member, id, time, executed, proposed.concat c, elapsed⟩

theorem Chronicle.signer_concat (chronicle : Chronicle past s) (ran : (process rt c.inv c.instruction).run s = .ok () t)
    (k : Pubkey) (cfg' : ProgramConfig) (held : t.get k = ⟨rt.programId, .programConfig cfg'⟩) :
    SignerOrigin (past ++ [c]) cfg'.attestationSigner := by
  rcases signer_of_process ran held with ⟨cfg, before, same⟩ | ⟨configured, -⟩ | ⟨id, p, executed, proposal, -, ready, same⟩
  · rw [same]
    exact (chronicle.signer k cfg before).concat c
  · exact .inl ⟨c, by simp, configured⟩
  · obtain ⟨proposed, delay⟩ := chronicle.recorded id p proposal
    rw [same] at proposed
    exact .inr ⟨c, by simp, id, p.proposedUnixTs, executed, proposed.concat c, delay ▸ ready⟩

/-- Proposals are told apart by their numbers. -/
theorem proposal_of_others {id : ℕ} {keys : List Pubkey} {p : TimelockProposal} (others : OnlyAt keys s t)
    (other : rt.address (.timelock id) ∉ keys) : t.Proposal rt id p ↔ s.Proposal rt id p := by
  rw [Ledger.Proposal, Ledger.Proposal, others _ other]

theorem proposal_of_footprint {instr : Instruction} {id : ℕ} {p : TimelockProposal} (unwritten : AccountKind.timelock ∉ instr.writes)
    (unleft : AccountKind.timelock ∉ instr.leaves) (ran : (process rt inv instr).run s = .ok () t) :
    t.Proposal rt id p ↔ s.Proposal rt id p := by
  have touches := (within_process rt inv instr).keeps.ok ran
  constructor
  · intro held
    have same : t.get (rt.address (.timelock id)) = s.get (rt.address (.timelock id)) := by
      apply touches.get_eq'
      rwa [Ledger.data, (held : t.get _ = _)]
    exact same.symm.trans held
  · intro held
    have same : t.get (rt.address (.timelock id)) = s.get (rt.address (.timelock id)) := by
      apply touches.get_eq
      rwa [Ledger.data, (held : s.get _ = _)]
    exact same.trans held

theorem nodup_filterMap_concat {f : Call rt → Option ℕ} (once : (past.filterMap f).Nodup)
    (fresh : ∀ id, f c = some id → id ∉ past.filterMap f) : ((past ++ [c]).filterMap f).Nodup := by
  rw [List.filterMap_append, List.nodup_append]
  cases now : f c with
  | none => simpa [now] using once
  | some id =>
    refine ⟨once, by simp [now], ?_⟩
    intro a earlier b later
    simp only [List.filterMap_cons, now, List.filterMap_nil, List.mem_singleton] at later
    rintro rfl
    exact fresh id now (later ▸ earlier)

/-- A call that is about one proposal. -/
theorem Chronicle.about {n : ℕ} {p' : TimelockProposal} (chronicle : Chronicle past s)
    (ran : (process rt c.inv c.instruction).run s = .ok () t)
    (kept : ∀ id p, id ≠ n → (t.Proposal rt id p ↔ s.Proposal rt id p)) (after : t.Proposal rt n p')
    (explained : ProposedAt (past ++ [c]) n p'.newSigner p'.proposedUnixTs ∧
      p'.executableAfterUnixTs = p'.proposedUnixTs + TIMELOCK_DELAY_SECS)
    (proposed : ∀ id, c.proposedId = some id → id = n ∧ id ∉ past.filterMap Call.proposedId)
    (executed : ∀ id, c.executedId = some id → id = n ∧ id ∉ past.filterMap Call.executedId)
    (cancelled : ∀ id, c.cancelledId = some id → id = n)
    (executed_iff : n ∈ (past ++ [c]).filterMap Call.executedId → p'.status = TL_STATUS_EXECUTED)
    (cancelled_iff : n ∈ (past ++ [c]).filterMap Call.cancelledId → p'.status = TL_STATUS_CANCELLED) :
    Chronicle (past ++ [c]) t where
  recorded id p held := by
    by_cases here : id = n
    · subst here
      rw [Ledger.Proposal, after] at held
      cases held
      exact explained
    · obtain ⟨before, delay⟩ := chronicle.recorded id p ((kept id p here).mp held)
      exact ⟨before.concat c, delay⟩
  proposed id member := by
    by_cases here : id = n
    · exact ⟨p', here ▸ after⟩
    · rw [List.filterMap_append, List.mem_append] at member
      rcases member with earlier | now
      · obtain ⟨p, held⟩ := chronicle.proposed id earlier
        exact ⟨p, (kept id p here).mpr held⟩
      · simp only [List.mem_filterMap, List.mem_singleton, exists_eq_left] at now
        exact absurd (proposed id now).1 here
  executed id member := by
    by_cases here : id = n
    · subst here
      exact ⟨p', after, executed_iff member⟩
    · rw [List.filterMap_append, List.mem_append] at member
      rcases member with earlier | now
      · obtain ⟨p, held, status⟩ := chronicle.executed id earlier
        exact ⟨p, (kept id p here).mpr held, status⟩
      · simp only [List.mem_filterMap, List.mem_singleton, exists_eq_left] at now
        exact absurd (executed id now).1 here
  cancelled id member := by
    by_cases here : id = n
    · subst here
      exact ⟨p', after, cancelled_iff member⟩
    · rw [List.filterMap_append, List.mem_append] at member
      rcases member with earlier | now
      · obtain ⟨p, held, status⟩ := chronicle.cancelled id earlier
        exact ⟨p, (kept id p here).mpr held, status⟩
      · simp only [List.mem_filterMap, List.mem_singleton, exists_eq_left] at now
        exact absurd (cancelled id now) here
  proposed_once := nodup_filterMap_concat chronicle.proposed_once fun id now => (proposed id now).2
  executed_once := nodup_filterMap_concat chronicle.executed_once fun id now => (executed id now).2
  signer := chronicle.signer_concat ran

/-- A call that is about no proposal. -/
theorem Chronicle.aside (chronicle : Chronicle past s) (ran : (process rt c.inv c.instruction).run s = .ok () t)
    (kept : ∀ id p, t.Proposal rt id p ↔ s.Proposal rt id p) (proposed : c.proposedId = none) (executed : c.executedId = none)
    (cancelled : c.cancelledId = none) : Chronicle (past ++ [c]) t := by
  have same : ∀ f : Call rt → Option ℕ, f c = none → (past ++ [c]).filterMap f = past.filterMap f := by
    intro f none
    simp [none]
  constructor
  case recorded =>
    intro id p held
    obtain ⟨before, delay⟩ := chronicle.recorded id p ((kept id p).mp held)
    exact ⟨before.concat c, delay⟩
  case proposed =>
    rw [same _ proposed]
    intro id member
    obtain ⟨p, held⟩ := chronicle.proposed id member
    exact ⟨p, (kept id p).mpr held⟩
  case executed =>
    rw [same _ executed]
    intro id member
    obtain ⟨p, held, status⟩ := chronicle.executed id member
    exact ⟨p, (kept id p).mpr held, status⟩
  case cancelled =>
    rw [same _ cancelled]
    intro id member
    obtain ⟨p, held, status⟩ := chronicle.cancelled id member
    exact ⟨p, (kept id p).mpr held, status⟩
  case proposed_once => exact same _ proposed ▸ chronicle.proposed_once
  case executed_once => exact same _ executed ▸ chronicle.executed_once
  case signer => exact chronicle.signer_concat ran

/-- A pending proposal was neither executed nor cancelled. -/
theorem Chronicle.untouched {id : ℕ} {p : TimelockProposal} (chronicle : Chronicle past s) (proposal : s.Proposal rt id p)
    (pending : p.status = TL_STATUS_PENDING) :
    id ∉ past.filterMap Call.executedId ∧ id ∉ past.filterMap Call.cancelledId := by
  constructor
  · intro executed
    obtain ⟨q, held, status⟩ := chronicle.executed id executed
    rw [Ledger.Proposal, proposal] at held
    cases held
    rw [pending] at status
    cases status
  · intro cancelled
    obtain ⟨q, held, status⟩ := chronicle.cancelled id cancelled
    rw [Ledger.Proposal, proposal] at held
    cases held
    rw [pending] at status
    cases status

theorem Chronicle.execute (chronicle : Chronicle past s) (returns : c.returns s = true) :
    Chronicle (past ++ [c]) (execute rt c s) := by
  have ran := c.ran returns
  generalize Polyleverage.execute rt c s = t at ran ⊢
  cases instr : c.instruction with
  | proposeSetAttestationSigner args =>
    have ran' := ran
    rw [instr] at ran'
    obtain ⟨vacant, ⟨p, after, signer, -, time, delay⟩, others⟩ := processPropose_ok ran'
    have fresh : ∀ q, ¬ s.Proposal rt args.proposalId.toNat q := by
      intro q held
      rw [Ledger.Proposal, vacant] at held
      cases congrArg Account.data held
    have noExecution : c.executedId = none := by simp [Call.executedId, instr]
    have noCancellation : c.cancelledId = none := by simp [Call.cancelledId, instr]
    apply chronicle.about ran _ after
    case explained =>
      refine ⟨⟨c, by simp, ?_, ?_, time.symm⟩, delay⟩
      · simp [Call.proposedId, instr]
      · simp [Call.proposedSigner, instr, signer]
    case proposed =>
      intro id now
      obtain rfl : args.proposalId.toNat = id := by simpa [Call.proposedId, instr] using now
      refine ⟨rfl, fun earlier => ?_⟩
      obtain ⟨q, held⟩ := chronicle.proposed _ earlier
      exact fresh q held
    case executed => simp [noExecution]
    case cancelled => simp [noCancellation]
    case executed_iff =>
      intro member
      simp only [List.filterMap_append, List.filterMap_cons, noExecution, List.filterMap_nil, List.append_nil] at member
      obtain ⟨q, held, -⟩ := chronicle.executed _ member
      exact absurd held (fresh q)
    case cancelled_iff =>
      intro member
      simp only [List.filterMap_append, List.filterMap_cons, noCancellation, List.filterMap_nil, List.append_nil] at member
      obtain ⟨q, held, -⟩ := chronicle.cancelled _ member
      exact absurd held (fresh q)
    · intro id q other
      exact proposal_of_others others (by simpa using other)
  | executeSetAttestationSigner proposalId =>
    have ran' := ran
    rw [instr] at ran'
    obtain ⟨config, cfg, p, before, proposal, pending, -, after_config, after, others⟩ := processExecute_ok ran'
    have noProposal : c.proposedId = none := by simp [Call.proposedId, instr]
    have noCancellation : c.cancelledId = none := by simp [Call.cancelledId, instr]
    apply chronicle.about ran _ after
    case explained =>
      obtain ⟨proposed, delay⟩ := chronicle.recorded _ p proposal
      exact ⟨proposed.concat c, delay⟩
    case proposed => simp [noProposal]
    case executed =>
      intro id now
      obtain rfl : proposalId.toNat = id := by simpa [Call.executedId, instr] using now
      exact ⟨rfl, (chronicle.untouched proposal pending).1⟩
    case cancelled => simp [noCancellation]
    case executed_iff => exact fun _ => rfl
    case cancelled_iff =>
      intro member
      simp only [List.filterMap_append, List.filterMap_cons, noCancellation, List.filterMap_nil, List.append_nil] at member
      exact absurd member (chronicle.untouched proposal pending).2
    · intro id q other
      by_cases at_config : rt.address (.timelock id) = config
      · rw [Ledger.Proposal, Ledger.Proposal, at_config, before, after_config]
        simp
      · exact proposal_of_others others (by simp [at_config, other])
  | cancelTimelockProposal proposalId =>
    have ran' := ran
    rw [instr] at ran'
    obtain ⟨p, proposal, pending, after, others⟩ := processCancel_ok ran'
    have noProposal : c.proposedId = none := by simp [Call.proposedId, instr]
    have noExecution : c.executedId = none := by simp [Call.executedId, instr]
    apply chronicle.about ran _ after
    case explained =>
      obtain ⟨proposed, delay⟩ := chronicle.recorded _ p proposal
      exact ⟨proposed.concat c, delay⟩
    case proposed => simp [noProposal]
    case executed => simp [noExecution]
    case cancelled =>
      intro id now
      exact (by simpa [Call.cancelledId, instr] using now : proposalId.toNat = id).symm
    case executed_iff =>
      intro member
      simp only [List.filterMap_append, List.filterMap_cons, noExecution, List.filterMap_nil, List.append_nil] at member
      exact absurd member (chronicle.untouched proposal pending).1
    case cancelled_iff => exact fun _ => rfl
    · intro id q other
      exact proposal_of_others others (by simpa using other)
  | _ =>
    apply chronicle.aside ran
    · exact fun id p => proposal_of_footprint (by simp [instr, Instruction.writes]) (by simp [instr, Instruction.leaves, Instruction.writes]) ran
    · simp [Call.proposedId, instr]
    · simp [Call.executedId, instr]
    · simp [Call.cancelledId, instr]

/-- At the start there is nothing to explain. -/
theorem chronicle_genesis {start : Ledger} (gen : Genesis rt start) : @Chronicle rt [] start where
  recorded id p held := by
    rw [Ledger.Proposal, gen.vacant] at held
    cases congrArg Account.data held
  proposed := by simp
  executed := by simp
  cancelled := by simp
  proposed_once := List.nodup_nil
  executed_once := List.nodup_nil
  signer k cfg held := absurd (congrArg Account.owner held) (gen.not_owned k)

theorem chronicle_runCalls {start : Ledger} (gen : Genesis rt start) (calls : List (Call rt)) :
    Chronicle (accepted calls start) (runCalls rt calls start) :=
  history_induct (chronicle_genesis gen) (fun _ _ _ chronicle returns => chronicle.execute returns) calls

/-- In every run: the signer is the one that was configured or one of an executed proposal; the configuration
stays, and each call that changes its signer executes a pending proposal of the new signer that was made a
day before or earlier; no number is proposed or executed twice, and none is both executed and cancelled. -/
theorem signer_changes_by_timelock {start : Ledger} (gen : Genesis rt start) (calls : List (Call rt)) :
    (∀ k cfg, (runCalls rt calls start).get k = ⟨rt.programId, .programConfig cfg⟩ →
      SignerOrigin (accepted calls start) cfg.attestationSigner) ∧
    (∀ c k cfg, (runCalls rt calls start).get k = ⟨rt.programId, .programConfig cfg⟩ →
      ∃ cfg', (execute rt c (runCalls rt calls start)).get k = ⟨rt.programId, .programConfig cfg'⟩ ∧
        (cfg'.attestationSigner ≠ cfg.attestationSigner → c.returns (runCalls rt calls start) = true ∧
          ∃ id p time, c.executedId = some id ∧ (runCalls rt calls start).Proposal rt id p ∧ p.status = TL_STATUS_PENDING ∧
            ProposedAt (accepted calls start) id cfg'.attestationSigner time ∧ time + 24 * 60 * 60 ≤ c.inv.unixTimestamp)) ∧
    ((accepted calls start).filterMap Call.proposedId).Nodup ∧
    ((accepted calls start).filterMap Call.executedId).Nodup ∧
    ((accepted calls start).filterMap Call.executedId).Disjoint ((accepted calls start).filterMap Call.cancelledId) := by
  have chronicle := chronicle_runCalls gen calls
  refine ⟨chronicle.signer, fun c k cfg held => ?_, chronicle.proposed_once, chronicle.executed_once, ?_⟩
  · cases returns : c.returns (runCalls rt calls start) with
    | false =>
      rw [execute_of_not_returns returns]
      exact ⟨cfg, held, fun changed => absurd rfl changed⟩
    | true =>
      have ran := c.ran returns
      obtain ⟨cfg', after⟩ := config_of_process ran held
      refine ⟨cfg', after, fun changed => ⟨rfl, ?_⟩⟩
      rcases signer_of_process ran after with ⟨before, held', same⟩ | ⟨-, none⟩ | ⟨id, p, executed, proposal, pending, ready, same⟩
      · rw [held] at held'
        cases held'
        exact absurd same changed
      · rw [Ledger.data, held] at none
        exact absurd rfl none
      · obtain ⟨proposed, delay⟩ := chronicle.recorded id p proposal
        rw [same] at proposed
        exact ⟨id, p, p.proposedUnixTs, executed, proposal, pending, proposed, delay ▸ ready⟩
  · intro id executed cancelled
    obtain ⟨p, proposal, status⟩ := chronicle.executed id executed
    obtain ⟨q, proposal', status'⟩ := chronicle.cancelled id cancelled
    rw [Ledger.Proposal, proposal] at proposal'
    cases proposal'
    rw [status] at status'
    cases status'

namespace Sample

/-- The admin proposes Carol as the signer, and executes the proposal a day later. -/
def rotating : List (Call Runtime.sample) :=
  launch 0 ++ [callAt 1 0 [] (.proposeSetAttestationSigner ⟨1, carol⟩) [admin]
      [admin, config, Runtime.sample.address (.timelock 1), systemProgram],
    callAt 2 86400 [] (.executeSetAttestationSigner 1) [admin] [admin, config, Runtime.sample.address (.timelock 1)]]

end Sample

/-- Carol is the signer now, because her proposal was executed. -/
theorem signer_changes_by_timelock_rotating :
    ∃ cfg, (runCalls Runtime.sample Sample.rotating Sample.genesis).get Sample.config =
        ⟨Runtime.sample.programId, .programConfig cfg⟩ ∧
      cfg.attestationSigner = Sample.carol ∧ SignerOrigin (accepted Sample.rotating Sample.genesis) Sample.carol := by
  have held : (runCalls Runtime.sample Sample.rotating Sample.genesis).get Sample.config =
      ⟨Runtime.sample.programId, .programConfig ⟨0, 255, Sample.admin, Sample.admin, Sample.carol, 60⟩⟩ := by decide +kernel
  exact ⟨_, held, rfl, (signer_changes_by_timelock Sample.genesis_genesis Sample.rotating).1 _ _ held⟩

end Polyleverage
