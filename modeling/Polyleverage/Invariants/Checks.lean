import Polyleverage.Invariants.Footprint

/-! # What the handlers check

A handler starts with checks that leave the ledger alone. Each of them is known by what it checks, so
that a run of a handler reads as the list of its checks followed by its writes.
-/

namespace Polyleverage

open Machine

variable {rt : Runtime} {inv : rt.Invocation} {s t : Ledger} {k : Pubkey}

/-- A program that leaves the ledger alone is known by its own runs. -/
theorem checks_of_reads {α : Type} {m : LedgerM α} (reads : ∀ s t a, m.run s = .ok a t → s = t) :
    Exec.Checks m fun s a => m.run s = .ok a s where
  run_eq_ok := by
    intro s t a
    constructor
    · intro ran
      obtain rfl := reads s t a ran
      exact ⟨ran, rfl⟩
    · rintro ⟨ran, rfl⟩
      exact ran

/-- Loading tells what the account holds. -/
instance {τ : Type} {view : AccountData → Except ProgramError τ} {data : τ → AccountData} {kind : AccountKind}
    [Views view data kind] : Exec.Checks (load view k) fun s x => s.data k = data x where
  run_eq_ok := by
    intro s t x
    have known : view (s.data k) = .ok x ↔ s.data k = data x := Views.eq_data
    rw [load_ok, known]

/-! ### Accounts -/

instance (owner mint) : Exec.Checks (validateMargin rt owner mint k) fun s _ =>
    rt.address (.margin owner mint) = k ∧
      ∃ m, s.data k = .marginAccount m ∧ m.owner = owner ∧ m.collateralMint = mint ∧
        m.bump = rt.bump (.margin owner mint) where
  run_eq_ok := by
    intro s t u
    simp only [validateMargin, Exec.bind_check, Exec.ofExcept_ok, MarginAccount.requireIdentity_ok]
    constructor
    · rintro ⟨b, ⟨here, rfl⟩, m, held, same, rfl⟩
      exact ⟨⟨here, m, held, same⟩, rfl⟩
    · rintro ⟨⟨here, m, held, same⟩, rfl⟩
      exact ⟨_, ⟨here, rfl⟩, m, held, same, rfl⟩

instance : Exec.Checks (loadUnpaused k) fun s cfg => s.data k = .programConfig cfg ∧ cfg.globalPause = 0 where
  run_eq_ok := by
    intro s t cfg
    simp only [loadUnpaused, Exec.bind_check, Exec.pure_ok, exists_const, ne_eq, not_not]
    constructor
    · rintro ⟨_, held, running, rfl, rfl⟩
      exact ⟨⟨held, running⟩, rfl⟩
    · rintro ⟨⟨held, running⟩, rfl⟩
      exact ⟨cfg, held, running, rfl, rfl⟩

instance (admin) : Exec.Checks (assertAdmin k admin) fun s _ =>
    ∃ cfg, s.data k = .programConfig cfg ∧ cfg.admin = admin where
  run_eq_ok := by
    intro s t u
    simp only [assertAdmin, Exec.bind_check, Exec.rejectIf_ok, ne_eq, not_not]
    constructor
    · rintro ⟨cfg, held, same, rfl⟩
      exact ⟨⟨cfg, held, same⟩, rfl⟩
    · rintro ⟨⟨cfg, held, same⟩, rfl⟩
      exact ⟨cfg, held, same, rfl⟩

theorem Pmlc.requireLive_ok {p : Pmlc} {u : Unit} : p.requireLive = .ok u ↔ p.status = PMLC_STATUS_LIVE := by
  unfold Pmlc.requireLive
  split <;> simp_all

instance (instrument inst) : Exec.Checks (loadLivePmlc k instrument inst) fun s p =>
    s.data k = .pmlc p ∧ p.status = PMLC_STATUS_LIVE ∧ p.instrument = instrument ∧ p.marketId = inst.marketId ∧
      p.collateralMint = inst.collateralMint where
  run_eq_ok := by
    intro s t p
    simp only [loadLivePmlc, Exec.bind_check, Exec.pure_ok, exists_const, ne_eq, not_or, not_not, Pmlc.requireLive_ok]
    constructor
    · rintro ⟨_, held, live, agree, rfl, rfl⟩
      exact ⟨⟨held, live, agree⟩, rfl⟩
    · rintro ⟨⟨held, live, agree⟩, rfl⟩
      exact ⟨p, held, live, agree, rfl, rfl⟩

instance (vaultAuthority mint) : Exec.Checks (validateVaultTokenAccount rt k vaultAuthority mint) fun s _ =>
    k = rt.getAssociatedTokenAddress vaultAuthority mint ∧
      ∃ a, (s.data k).unpackToken = .ok a ∧ a.owner = vaultAuthority ∧ a.mint = mint where
  run_eq_ok := by
    intro s t u
    simp only [validateVaultTokenAccount, Exec.bind_check, Exec.rejectIf_ok, exists_const, ne_eq, not_not]
    constructor
    · rintro ⟨here, a, held, owner, mint, rfl⟩
      exact ⟨⟨here, a, held, owner, mint⟩, rfl⟩
    · rintro ⟨⟨here, a, held, owner, mint⟩, rfl⟩
      exact ⟨here, a, held, owner, mint, rfl⟩

/-! ### Attestations -/

theorem Attestation.parse_ok {bytes : List UInt8} {att : Attestation} :
    Attestation.parse bytes = .ok att ↔ bytes = att.bytes := by
  unfold Attestation.parse
  constructor
  · intro parsed
    split at parsed
    · split at parsed
      · cases parsed
        rfl
      · cases parsed
    · cases parsed
  · rintro rfl
    rw [dif_pos att.length_eq, dif_pos att.magic_eq]

/-- The instruction at the index is a verification by the Ed25519 program that this key signed this
attestation, which is of this type. -/
def Attested (rt : Runtime) (inv : rt.Invocation) (signer : Pubkey) (index type : ℕ) (att : Attestation) : Prop :=
  ∃ ix, inv.instructions[index]? = some ix ∧ ix.programId = rt.ed25519Program ∧
    extractVerifiedEd25519Message ix.data signer = .ok att.bytes ∧ att.attestationType = type

instance (cfg index type) : Exec.Checks (loadAttestation rt inv cfg k index type) fun _ att =>
    k = rt.instructionsSysvar ∧ Attested rt inv cfg.attestationSigner index type att where
  run_eq_ok := by
    intro s t att
    simp only [loadAttestation, verifyViaEd25519Sysvar, Exec.bind_check, Exec.bind_ok, Exec.ofExcept_ok, Exec.pure_ok,
      exists_const, ne_eq, not_not, Attestation.parse_ok]
    constructor
    · rintro ⟨bytes, _, ⟨sysvar, ix, found, program, verified, rfl⟩, _, rfl, type, rfl, rfl⟩
      exact ⟨⟨sysvar, ix, found, program, verified, type⟩, rfl⟩
    · rintro ⟨⟨sysvar, ix, found, program, verified, type⟩, rfl⟩
      exact ⟨_, s, ⟨sysvar, ix, found, program, verified, rfl⟩, att, rfl, type, rfl, rfl⟩

/-! ### Sessions -/

/-- A live session of this delegate and owner that allows the instrument, at the owner's address. -/
structure LiveSession (rt : Runtime) (inv : rt.Invocation) (session delegate instrument owner : Pubkey) (x : Session) :
    Prop where
  delegate_eq : x.delegate = delegate
  active : x.isActive inv.slot = true
  allows : x.allowsInstrument instrument = true
  address_eq : rt.address (.session x.owner) = session
  owner_eq : x.owner = owner

instance (delegate instrument) : Exec.Checks (sessionOwner rt inv k delegate instrument) fun s owner =>
    ∃ x, s.data k = .session x ∧ LiveSession rt inv k delegate instrument owner x where
  run_eq_ok := by
    intro s t owner
    simp only [sessionOwner, Exec.bind_check, Exec.pure_ok, exists_const, ne_eq, not_not, Bool.not_eq_false]
    constructor
    · rintro ⟨x, held, delegate, active, allows, _, ⟨here, -⟩, mine, rfl⟩
      exact ⟨⟨x, held, delegate, active, allows, here, mine⟩, rfl⟩
    · rintro ⟨⟨x, held, delegate, active, allows, here, mine⟩, rfl⟩
      exact ⟨x, held, delegate, active, allows, _, ⟨here, rfl⟩, mine, rfl⟩

/-! ### Checks known by their runs -/

instance : Exec.Checks (authorizeAdminOrMultisig rt inv k) fun s a =>
    (authorizeAdminOrMultisig rt inv k).run s = .ok a s := by
  apply checks_of_reads
  intro s t a ran
  simp only [authorizeAdminOrMultisig, Exec.bind_check] at ran
  obtain ⟨cfg, -, _, rfl, ran⟩ := ran
  split at ran
  · exact (Exec.ofExcept_ok.mp ran).2
  · exact (Exec.rejectIf_ok.mp ran).2

instance (j wusdMint mint) : Exec.Checks (requireAccepted j wusdMint mint) fun s a =>
    (requireAccepted j wusdMint mint).run s = .ok a s := by
  apply checks_of_reads
  intro s t a ran
  simp only [requireAccepted, Exec.bind_check] at ran
  obtain ⟨_, -, _, -, ran⟩ := ran
  exact (Exec.rejectIf_ok.mp ran).2

instance (authority mint) : Exec.Checks (loadReserve k authority mint) fun s a =>
    (loadReserve k authority mint).run s = .ok a s := by
  apply checks_of_reads
  intro s t a ran
  simp only [loadReserve, load, Exec.bind_check] at ran
  obtain ⟨_, -, _, -, _, -, ran⟩ := ran
  exact (Exec.pure_ok.mp ran).2

instance (args registries) : Exec.Checks (checkRegistry rt args registries) fun s a =>
    (checkRegistry rt args registries).run s = .ok a s := by
  apply checks_of_reads
  intro s t a ran
  unfold checkRegistry at ran
  split at ran
  · exact (Exec.pure_ok.mp ran).2
  · simp only [Exec.bind_check] at ran
    obtain ⟨_, rfl, ran⟩ := ran
    split at ran
    · rcases Exec.when_ok.mp ran with ⟨-, ran⟩ | ⟨-, rfl⟩
      · simp only [Exec.bind_check, Exec.rejectIf_ok] at ran
        obtain ⟨-, -, -, -, -, rfl⟩ := ran
        rfl
      · rfl
    · exact (Exec.pure_ok.mp ran).2

/-- A margin account that was found is the trader's, of this mint. -/
theorem findMargin_ok {trader mint : Pubkey} {margins : List Pubkey} {found : Pubkey × List Pubkey}
    (ran : (findMargin rt trader mint margins).run s = .ok found t) :
    s = t ∧ rt.address (.margin trader mint) = found.1 ∧ s.owner found.1 = rt.programId := by
  induction margins with
  | nil => cases ran
  | cons k rest ih =>
    simp only [findMargin, Exec.bind_check, exists_const] at ran
    obtain ⟨owned, m, -, ran⟩ := ran
    split at ran
    · simp only [Exec.bind_check, Exec.pure_ok] at ran
      obtain ⟨_, ⟨here, -⟩, rfl, rfl⟩ := ran
      exact ⟨rfl, here, owned k List.mem_cons_self⟩
    · exact ih ran

instance (trader mint margins) : Exec.Checks (findMargin rt trader mint margins) fun s found =>
    (findMargin rt trader mint margins).run s = .ok found s :=
  checks_of_reads fun _ _ _ ran => (findMargin_ok ran).1

instance (free bucket maxFeeBps contracts) : Exec.Checks (trimContracts free bucket maxFeeBps contracts) fun s n =>
    (trimContracts free bucket maxFeeBps contracts).run s = .ok n s := by
  apply checks_of_reads
  intro s t n ran
  induction contracts with
  | zero => exact (Exec.pure_ok.mp ran).2
  | succ contracts ih =>
    simp only [trimContracts, Exec.bind_check] at ran
    obtain ⟨-, -, buffer, -, -, -, ran⟩ := ran
    split at ran
    · exact (Exec.pure_ok.mp ran).2
    · exact ih ran

instance (free bucket maxFeeBps) : Exec.Checks (affordableContracts free bucket maxFeeBps) fun s n =>
    (affordableContracts free bucket maxFeeBps).run s = .ok n s := by
  apply checks_of_reads
  intro s t n ran
  simp only [affordableContracts, Exec.bind_check] at ran
  obtain ⟨reserve, -, ran⟩ := ran
  split at ran
  · exact (Exec.Checks.run_eq_ok.mp ran).2
  · exact (Exec.pure_ok.mp ran).2

end Polyleverage
