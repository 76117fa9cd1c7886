import Mathlib.Data.Finset.Card
import Polyleverage.Invariants.Settling
import Polyleverage.Invariants.Upkeep
import Polyleverage.Sample

/-! # The multisig

An instruction of the admin asks one of two gates. The shared gate asks the multisig when the multisig is
among the accounts, and the admin otherwise. The other gate asks the admin only.
-/

namespace Polyleverage

variable {rt : Runtime} {inv : rt.Invocation} {s t : Ledger} {k : Pubkey} {u : Unit}

namespace Instruction

/-- The instruction asks the shared gate. -/
def asksEither : Instruction → Bool
  | setGlobalPause _ => true
  | proposeSetAttestationSigner _ => true
  | executeSetAttestationSigner _ => true
  | initBucketRegistry _ => true
  | setBucketRegistry _ => true
  | initStablecoinRegistry _ => true
  | addStablecoinMint => true
  | removeStablecoinMint => true
  | _ => false

/-- The instruction asks the admin only. -/
def asksAdmin : Instruction → Bool
  | createInstrument _ => true
  | pauseInstrument => true
  | resumeInstrument => true
  | initFeeSchedule _ => true
  | setFeeSchedule _ => true
  | sweepFees _ => true
  | _ => false

/-- The instruction replaces the signers of the multisig. -/
def rotates : Instruction → Bool
  | rotateAdminMultisig _ => true
  | _ => false

/-- The instruction is the admin's. -/
def adminGated (instr : Instruction) : Bool := instr.asksEither || instr.asksAdmin || instr.rotates

end Instruction

/-- The multisig lies at its address. -/
def Ledger.Multisig (rt : Runtime) (s : Ledger) (ms : AdminMultisig) : Prop :=
  s.get (rt.address .adminMultisig) = ⟨rt.programId, .adminMultisig ms⟩

/-- The members that signed, each of them once. -/
def AdminMultisig.approvers (ms : AdminMultisig) (inv : rt.Invocation) : Finset Pubkey :=
  ms.signers.toFinset.filter fun k => inv.isSigner k = true

/-- The call asks the multisig: it rotates it, or it asks the shared gate and passes it. -/
def Call.asksMultisig (c : Call rt) : Prop :=
  c.instruction.rotates = true ∨ c.instruction.asksEither = true ∧ rt.address .adminMultisig ∈ c.inv.accounts

instance (c : Call rt) : Decidable c.asksMultisig := inferInstanceAs (Decidable (_ ∨ _ ∧ _))

/-- The admin of the configuration signed. -/
def AdminSigned (inv : rt.Invocation) (s : Ledger) : Prop :=
  ∃ k cfg, s.get k = ⟨rt.programId, .programConfig cfg⟩ ∧ inv.isSigner cfg.admin = true

/-! ### The gates -/

theorem checkThreshold_ok {ms : AdminMultisig} {signed : List Pubkey} :
    ms.checkThreshold signed = .ok u ↔ ms.threshold ≤ ms.countApprovals signed := by
  unfold AdminMultisig.checkThreshold
  split <;> simp_all

/-- Counted approvals are approvals of different members. -/
theorem AdminMultisig.countApprovals_le {ms : AdminMultisig} (nodup : ms.signers.Nodup) :
    ms.countApprovals (inv.accounts.filter inv.isSigner) ≤ (ms.approvers inv).card := by
  have members : (ms.approvers inv).card = ms.signers.countP (inv.isSigner ·) := by
    rw [AdminMultisig.approvers, ← List.toFinset_filter, List.toFinset_card_of_nodup (nodup.filter _), List.countP_eq_length_filter]
  rw [members]
  apply (Nat.min_le_left _ _).trans
  apply List.countP_mono_left
  intro k _ signed
  simp only [decide_eq_true_eq, List.mem_filter] at signed
  exact signed.2

/-- A member that is passed twice is counted once. -/
example : AdminMultisig.countApprovals ⟨255, 2, Sample.admin, 1, [Sample.alice, Sample.bob]⟩ [Sample.alice, Sample.alice] = 1 := by
  decide +kernel

theorem multisigAt_eq {ms : AdminMultisig} (held : s.Multisig rt ms) (k : Pubkey) :
    multisigAt rt s k = if k = rt.address .adminMultisig then some ms else none := by
  unfold multisigAt
  by_cases here : k = rt.address .adminMultisig
  · subst here
    rw [Ledger.owner, Ledger.data, (held : s.get _ = _)]
    simp
  · simp [here]

/-- The shared gate: the multisig that is passed decides, or else the admin. -/
theorem authorizeAdminOrMultisig_ok {config : Pubkey} {ms : AdminMultisig} (held : s.Multisig rt ms)
    (ran : (authorizeAdminOrMultisig rt inv config).run s = .ok u t) :
    (rt.address .adminMultisig ∈ inv.accounts → ms.checkThreshold (inv.accounts.filter inv.isSigner) = .ok ()) ∧
      (rt.address .adminMultisig ∉ inv.accounts → ∃ cfg, s.data config = .programConfig cfg ∧ inv.isSigner cfg.admin = true) := by
  simp only [authorizeAdminOrMultisig, Exec.bind_check] at ran
  obtain ⟨cfg, found, _, rfl, ran⟩ := ran
  constructor
  · intro passed
    split at ran
    next ms' asked =>
      obtain ⟨k, -, here⟩ := List.exists_of_findSome?_eq_some asked
      rw [multisigAt_eq held] at here
      split at here
      · cases here
        exact (Exec.ofExcept_ok.mp ran).1
      · cases here
    next none =>
      rw [List.findSome?_eq_none_iff] at none
      have absent := none _ passed
      simp [multisigAt_eq held] at absent
  · intro absent
    split at ran
    next ms' asked =>
      obtain ⟨k, member, here⟩ := List.exists_of_findSome?_eq_some asked
      rw [multisigAt_eq held] at here
      split at here
      next same => exact absurd (same ▸ member) absent
      · cases here
    next =>
      have signed := not_not.mp (Exec.rejectIf_ok.mp ran).1
      exact ⟨cfg, found, (List.mem_filter.mp signed).2⟩

theorem adminSigned_processSetInstrumentStatus {pause : Bool}
    (ran : (processSetInstrumentStatus rt inv pause).run s = .ok () t) : AdminSigned inv s := by
  unfold processSetInstrumentStatus at ran
  split at ran
  · simp only [Exec.bind_check, exists_const] at ran
    obtain ⟨signed, -, owned, ⟨cfg, held, rfl⟩, -⟩ := ran
    exact ⟨_, cfg, get_eq_of_data (owned _ (by simp)) held, signed⟩
  · cases ran

/-- An instruction of the admin that returns passed its gate. -/
theorem gate_of_process {instr : Instruction} (ran : (process rt inv instr).run s = .ok () t) :
    (instr.asksEither = true → ∃ config, s.owner config = rt.programId ∧ (authorizeAdminOrMultisig rt inv config).run s = .ok () s) ∧
      (instr.asksAdmin = true → AdminSigned inv s) ∧
      (instr.rotates = true → ∃ k ms, s.get k = ⟨rt.programId, .adminMultisig ms⟩ ∧
        ms.checkThreshold (inv.accounts.filter inv.isSigner) = .ok ()) := by
  refine ⟨fun asks => ?_, fun asks => ?_, fun rotates => ?_⟩
  · cases instr with
    | setGlobalPause paused =>
      simp only [process] at ran
      unfold processSetGlobalPause at ran
      split at ran
      · simp only [Exec.bind_check, exists_const] at ran
        obtain ⟨-, owned, _, gate, -⟩ := ran
        exact ⟨_, owned _ (by simp), gate⟩
      · cases ran
    | proposeSetAttestationSigner args =>
      simp only [process] at ran
      unfold processProposeSetAttestationSigner at ran
      split at ran
      · simp only [Exec.bind_check, exists_const] at ran
        obtain ⟨-, -, -, owned, -, _, gate, -⟩ := ran
        exact ⟨_, owned _ (by simp), gate⟩
      · cases ran
    | executeSetAttestationSigner id =>
      simp only [process] at ran
      unfold processExecuteSetAttestationSigner at ran
      split at ran
      · simp only [Exec.bind_check, exists_const] at ran
        obtain ⟨-, -, -, owned, _, -, tl, -, -, _, gate, -⟩ := ran
        exact ⟨_, owned _ (by simp), gate⟩
      · cases ran
    | initBucketRegistry args =>
      simp only [process] at ran
      unfold processInitBucketRegistry at ran
      split at ran
      · simp only [Exec.bind_check, exists_const] at ran
        obtain ⟨-, -, -, owned, -, _, gate, -⟩ := ran
        exact ⟨_, owned _ (by simp), gate⟩
      · cases ran
    | setBucketRegistry args =>
      simp only [process] at ran
      unfold processSetBucketRegistry at ran
      split at ran
      · simp only [Exec.bind_check, exists_const] at ran
        obtain ⟨-, owned, _, gate, -⟩ := ran
        exact ⟨_, owned _ (by simp), gate⟩
      · cases ran
    | initStablecoinRegistry args =>
      simp only [process] at ran
      unfold processInitStablecoinRegistry at ran
      split at ran
      · simp only [Exec.bind_check, exists_const] at ran
        obtain ⟨-, -, -, -, owned, -, -, _, gate, -⟩ := ran
        exact ⟨_, owned _ (by simp), gate⟩
      · cases ran
    | addStablecoinMint =>
      simp only [process] at ran
      unfold processAddStablecoinMint at ran
      split at ran
      · simp only [Exec.bind_check, exists_const] at ran
        obtain ⟨-, owned, -, _, gate, -⟩ := ran
        exact ⟨_, owned _ (by simp), gate⟩
      · cases ran
    | removeStablecoinMint =>
      simp only [process] at ran
      unfold processRemoveStablecoinMint at ran
      split at ran
      · simp only [Exec.bind_check, exists_const] at ran
        obtain ⟨-, owned, _, gate, -⟩ := ran
        exact ⟨_, owned _ (by simp), gate⟩
      · cases ran
    | _ => cases asks
  · cases instr with
    | createInstrument args =>
      simp only [process] at ran
      unfold processCreateInstrument at ran
      split at ran
      · simp only [Exec.bind_check, exists_const] at ran
        obtain ⟨signed, -, -, -, -, -, -, owned, ⟨cfg, held, rfl⟩, -⟩ := ran
        exact ⟨_, cfg, get_eq_of_data (owned _ (by simp)) held, signed⟩
      · cases ran
    | pauseInstrument => exact adminSigned_processSetInstrumentStatus ran
    | resumeInstrument => exact adminSigned_processSetInstrumentStatus ran
    | initFeeSchedule tiers =>
      simp only [process] at ran
      unfold processInitFeeSchedule at ran
      split at ran
      · simp only [Exec.bind_check, exists_const] at ran
        obtain ⟨signed, -, -, owned, -, ⟨cfg, held, rfl⟩, -⟩ := ran
        exact ⟨_, cfg, get_eq_of_data (owned _ (by simp)) held, signed⟩
      · cases ran
    | setFeeSchedule tiers =>
      simp only [process] at ran
      unfold processSetFeeSchedule at ran
      split at ran
      · simp only [Exec.bind_check, exists_const] at ran
        obtain ⟨signed, -, owned, ⟨cfg, held, rfl⟩, -⟩ := ran
        exact ⟨_, cfg, get_eq_of_data (owned _ (by simp)) held, signed⟩
      · cases ran
    | sweepFees amount =>
      simp only [process, processSweepFees, Exec.bind_check, exists_const] at ran
      obtain ⟨-, ran⟩ := ran
      split at ran
      · simp only [Exec.bind_check, exists_const] at ran
        obtain ⟨signed, -, -, -, owned, -, ⟨cfg, held, rfl⟩, -⟩ := ran
        exact ⟨_, cfg, get_eq_of_data (owned _ (by simp)) held, signed⟩
      · cases ran
    | _ => cases asks
  · cases instr with
    | rotateAdminMultisig args =>
      simp only [process] at ran
      unfold processRotateAdminMultisig at ran
      split at ran
      next config multisig rest _ =>
        simp only [Exec.bind_check, exists_const] at ran
        obtain ⟨-, owned, ran⟩ := ran
        obtain ⟨ms, ms', found, inner, -⟩ := atAccount_ok ran
        rw [AccountData.loadAdminMultisig_ok] at found
        simp only [rotateMultisig, Exec.bind_check] at inner
        obtain ⟨_, rfl, _, approved, -⟩ := inner
        exact ⟨_, ms, get_eq_of_data (owned _ (by simp)) found, approved⟩
      · cases ran
    | _ => cases rotates

/-! ### Members -/

theorem validate_nodup {signers : List Pubkey} {threshold : ℕ} (valid : AdminMultisig.validate signers threshold = .ok u) :
    signers.Nodup := by
  unfold AdminMultisig.validate at valid
  split at valid
  · cases valid
  split at valid
  · cases valid
  split at valid
  · cases valid
  next once => exact not_not.mp once

theorem rotate_nodup {ms ms' : AdminMultisig} {signers : List Pubkey} {threshold : ℕ}
    (rotated : ms.rotate signers threshold = .ok ms') : ms'.signers.Nodup := by
  cases valid : AdminMultisig.validate signers threshold with
  | error e => simp [AdminMultisig.rotate, valid, bind, Except.bind] at rotated
  | ok x =>
    simp only [AdminMultisig.rotate, valid, bind, Except.bind, Except.ok.injEq] at rotated
    rw [← rotated]
    exact validate_nodup valid

/-- Every multisig that an instruction leaves has different members, when those before it had. -/
theorem nodup_of_process {instr : Instruction} {ms : AdminMultisig}
    (before : ∀ k ms, s.get k = ⟨rt.programId, .adminMultisig ms⟩ → ms.signers.Nodup)
    (ran : (process rt inv instr).run s = .ok () t) (held : t.get k = ⟨rt.programId, .adminMultisig ms⟩) :
    ms.signers.Nodup := by
  by_cases left : AccountKind.adminMultisig ∈ instr.leaves
  · cases instr with
    | initAdminMultisig args =>
      simp only [process] at ran
      unfold processInitAdminMultisig at ran
      split at ran
      next admin config multisig system rest _ =>
        simp only [Exec.bind_check, exists_const] at ran
        obtain ⟨-, -, -, -, -, -, bump, -, ran⟩ := ran
        rw [Exec.bind_ok] at ran
        obtain ⟨_, s1, created, ran⟩ := ran
        simp only [Exec.bind_check, exists_const] at ran
        obtain ⟨valid, ran⟩ := ran
        obtain ⟨-, rfl, -⟩ := initAccount_ok ran
        have creates : Touches [.raw] [.raw] s s1 := Within.keeps.ok created
        by_cases here : k = multisig
        · subst here
          rw [Ledger.get_setData_self] at held
          cases congrArg Account.data held
          exact validate_nodup valid
        · rw [Ledger.get_setData_of_ne _ _ here] at held
          rw [creates.get_eq' (by simp [Ledger.data, held])] at held
          exact before k ms held
      · cases ran
    | rotateAdminMultisig args =>
      simp only [process] at ran
      unfold processRotateAdminMultisig at ran
      split at ran
      next config multisig rest _ =>
        simp only [Exec.bind_check, exists_const] at ran
        obtain ⟨-, owned, ran⟩ := ran
        obtain ⟨old, new, found, inner, rfl, -⟩ := atAccount_ok ran
        by_cases here : k = multisig
        · subst here
          rw [Ledger.get_setData_self] at held
          cases congrArg Account.data held
          simp only [rotateMultisig, Exec.bind_check, Exec.put_ok] at inner
          obtain ⟨_, rfl, _, -, rotated, valid, rfl⟩ := inner
          exact rotate_nodup valid
        · rw [Ledger.get_setData_of_ne _ _ here] at held
          exact before k ms held
      · cases ran
    | _ => simp [Instruction.leaves, Instruction.writes] at left
  · have same : t.get k = s.get k := by
      apply ((within_process rt inv instr).keeps.ok ran).get_eq'
      rwa [Ledger.data, held]
    exact before k ms (same ▸ held)

theorem nodup_of_reachable {allowed : Instruction → Prop} (reached : Reachable rt allowed s) :
    ∀ k ms, s.get k = ⟨rt.programId, .adminMultisig ms⟩ → ms.signers.Nodup := by
  refine reached.induct (P := fun s => ∀ k ms, s.get k = ⟨rt.programId, .adminMultisig ms⟩ → ms.signers.Nodup) ?_ ?_
  · intro s gen k ms held
    exact absurd (congrArg Account.owner held) (gen.not_owned k)
  · intro s t inv instr before _ ran k ms held
    exact nodup_of_process before ran held

/-! ### Who decides -/

/-- Once there is a multisig, an instruction of the admin that returns was signed by as many different
members as the threshold asks for, when it rotates the multisig or asks the shared gate and passes it. In
all other cases it was signed by the admin. -/
theorem multisig_decides {allowed : Instruction → Prop} {ms : AdminMultisig} (reached : Reachable rt allowed s)
    (multisig : s.Multisig rt ms) (c : Call rt) (gated : c.instruction.adminGated = true) (returns : c.returns s = true) :
    (c.asksMultisig → ms.threshold ≤ (ms.approvers c.inv).card) ∧ (¬ c.asksMultisig → AdminSigned c.inv s) := by
  have nodup := nodup_of_reachable reached _ ms multisig
  have genuine := genuine_of_reachable reached
  obtain ⟨either, admin, rotates⟩ := gate_of_process (c.ran returns)
  have enough : ms.checkThreshold (c.inv.accounts.filter c.inv.isSigner) = .ok () →
      ms.threshold ≤ (ms.approvers c.inv).card := fun approved =>
    (checkThreshold_ok.mp approved).trans (AdminMultisig.countApprovals_le nodup)
  constructor
  · rintro (rotation | ⟨asks, passed⟩)
    · obtain ⟨k, ms', held, approved⟩ := rotates rotation
      have here := genuine.fits k (congrArg Account.owner held)
      rw [Ledger.data, held] at here
      rw [← (here : _ = k), (multisig : s.get _ = _)] at held
      cases held
      exact enough approved
    · obtain ⟨config, -, gate⟩ := either asks
      exact enough ((authorizeAdminOrMultisig_ok multisig gate).1 passed)
  · intro other
    simp only [Call.asksMultisig, not_or, not_and] at other
    cases asks : c.instruction.asksEither with
    | true =>
      obtain ⟨config, owned, gate⟩ := either asks
      obtain ⟨cfg, held, signed⟩ := (authorizeAdminOrMultisig_ok multisig gate).2 (other.2 asks)
      exact ⟨config, cfg, get_eq_of_data owned held, signed⟩
    | false =>
      apply admin
      simpa [Instruction.adminGated, asks, other.1] using gated

namespace Sample

def multisig : Pubkey := Runtime.sample.address .adminMultisig

/-- Alice and Bob have to agree. -/
def sharing : List (Call Runtime.sample) :=
  launch 0 ++ [call (.initAdminMultisig ⟨2, [alice, bob]⟩) [admin] [admin, config, multisig, systemProgram]]

def shared : Ledger := runCalls Runtime.sample sharing genesis

/-- The admin pauses the program alone, and does not mention the multisig. -/
def lonePause : Call Runtime.sample := call (.setGlobalPause true) [admin] [admin, config]

/-- Alice and Bob pause it. -/
def jointPause : Call Runtime.sample := call (.setGlobalPause true) [alice, bob] [alice, config, bob, multisig]

theorem shared_multisig : shared.Multisig Runtime.sample ⟨255, 2, admin, 1, [alice, bob]⟩ := by
  unfold Ledger.Multisig
  decide +kernel

end Sample

/-- The admin alone passes the shared gate after a multisig was set up, and nobody of the multisig signed. -/
theorem admin_bypasses_multisig :
    Reachable Runtime.sample (fun _ => True) Sample.shared ∧
      Sample.shared.Multisig Runtime.sample ⟨255, 2, Sample.admin, 1, [Sample.alice, Sample.bob]⟩ ∧
      Sample.lonePause.instruction.adminGated = true ∧ Sample.lonePause.returns Sample.shared = true ∧
      ¬ 2 ≤ ((⟨255, 2, Sample.admin, 1, [Sample.alice, Sample.bob]⟩ : AdminMultisig).approvers Sample.lonePause.inv).card :=
  ⟨Sample.reachable fun _ _ => trivial, Sample.shared_multisig, rfl, by decide +kernel, by decide +kernel⟩

/-- Two members agreed to the joint pause. -/
theorem multisig_decides_shared :
    2 ≤ ((⟨255, 2, Sample.admin, 1, [Sample.alice, Sample.bob]⟩ : AdminMultisig).approvers Sample.jointPause.inv).card := by
  have reached : Reachable Runtime.sample (fun _ => True) Sample.shared := Sample.reachable fun _ _ => trivial
  exact (multisig_decides reached Sample.shared_multisig Sample.jointPause rfl (by decide +kernel)).1 (by decide +kernel)

end Polyleverage
