import Polyleverage.Invariants.Tokens

/-! # Administration moves nothing

The handlers that set the program up and configure it write accounts that count in none of the three
pairs of ledgers, or create accounts that count nothing yet.
-/

namespace Polyleverage

open Machine

variable {rt : Runtime} {inv : rt.Invocation} {s t : Ledger} {k : Pubkey} {u : Unit}

/-! ### Config, multisig and timelock -/

theorem moved_ensureCreated {payer : Pubkey} {space : ℕ} (genuine : Genuine rt s)
    (ran : (ensureCreated rt inv payer k space).run s = .ok u t) : Moved rt s t 0 := by
  rw [ensureCreated, Exec.run_bind_get] at ran
  split at ran
  · exact (moved_createAccount genuine ran).1
  · obtain ⟨-, rfl⟩ := assertOwned_ok.mp ran
    exact .refl genuine

/-- The first data of an account of the program, whether the account was there or not. -/
theorem moved_initIdle {fresh : AccountData} (genuine : Genuine rt s)
    (ran : (initAccount rt inv k fresh).run s = .ok u t) (idle : fresh.idle = true)
    (fits : Fits rt (s.Listed rt) k fresh) : Moved rt s t 0 :=
  (moved_initAccount genuine ran (weightless_idle idle) fits fun _ => shelved_idle idle).1

theorem moved_processInitProgramConfig {args : InitProgramConfigArgs} (genuine : Genuine rt s)
    (ran : (processInitProgramConfig rt inv args).run s = .ok () t) : Moved rt s t 0 := by
  unfold processInitProgramConfig at ran
  split at ran
  next admin config feeTreasuryAuthority system rest _ =>
    simp only [Exec.bind_check, exists_const] at ran
    obtain ⟨-, -, -, -, bump, ⟨here, -⟩, ran⟩ := ran
    rw [Exec.bind_ok] at ran
    obtain ⟨_, mid, created, inited⟩ := ran
    have first := moved_ensureCreated genuine created
    exact first.then (moved_initIdle first.genuine inited rfl here)
  · cases ran

theorem moved_processSetGlobalPause {paused : Bool} (genuine : Genuine rt s)
    (ran : (processSetGlobalPause rt inv paused).run s = .ok () t) : Moved rt s t 0 := by
  unfold processSetGlobalPause at ran
  split at ran
  · simp only [Exec.bind_check, exists_const] at ran
    obtain ⟨-, -, _, -, ran⟩ := ran
    exact moved_atIdle genuine ran (fun _ => rfl) (fun _ _ _ => rfl) fun _ _ _ fits => fits
  · cases ran

theorem moved_processInitAdminMultisig {args : MultisigArgs} (genuine : Genuine rt s)
    (ran : (processInitAdminMultisig rt inv args).run s = .ok () t) : Moved rt s t 0 := by
  unfold processInitAdminMultisig at ran
  split at ran
  · simp only [Exec.bind_check, exists_const] at ran
    obtain ⟨-, -, -, -, -, -, bump, ⟨here, -⟩, ran⟩ := ran
    rw [Exec.bind_ok] at ran
    obtain ⟨_, mid, created, ran⟩ := ran
    simp only [Exec.bind_check, exists_const] at ran
    have first := moved_ensureCreated genuine created
    exact first.then (moved_initIdle first.genuine ran.2 rfl here)
  · cases ran

theorem moved_processRotateAdminMultisig {args : MultisigArgs} (genuine : Genuine rt s)
    (ran : (processRotateAdminMultisig rt inv args).run s = .ok () t) : Moved rt s t 0 := by
  unfold processRotateAdminMultisig at ran
  split at ran
  · simp only [Exec.bind_check, exists_const] at ran
    obtain ⟨-, -, ran⟩ := ran
    exact moved_atIdle genuine ran (fun _ => rfl) (fun _ _ _ => rfl) fun _ _ _ fits => fits
  · cases ran

theorem moved_processProposeSetAttestationSigner {args : ProposeSetAttestationSignerArgs} (genuine : Genuine rt s)
    (ran : (processProposeSetAttestationSigner rt inv args).run s = .ok () t) : Moved rt s t 0 := by
  unfold processProposeSetAttestationSigner at ran
  split at ran
  · simp only [Exec.bind_check, exists_const] at ran
    obtain ⟨-, -, -, -, -, _, -, bump, ⟨here, -⟩, -, ran⟩ := ran
    rw [Exec.bind_ok] at ran
    obtain ⟨_, mid, created, ran⟩ := ran
    simp only [Exec.bind_check, exists_const] at ran
    obtain ⟨first, rfl⟩ := moved_createAccount genuine created
    obtain ⟨rfl, allowed⟩ := writeData_ok ran.2
    refine first.then ((moved_setData first.genuine allowed (fun _ _ known => ?_) (fun _ => here) fun _ _ => trivial).cast
      (entry_weightless (weightless_idle ?_) (weightless_idle rfl)))
    · simp [Ledger.data, AccountData.fixed] at known
    · simp [Ledger.data, AccountData.idle]
  · cases ran

theorem moved_processExecuteSetAttestationSigner {proposalId : UInt64} (genuine : Genuine rt s)
    (ran : (processExecuteSetAttestationSigner rt inv proposalId).run s = .ok () t) : Moved rt s t 0 := by
  unfold processExecuteSetAttestationSigner at ran
  split at ran
  · simp only [Exec.bind_check, exists_const] at ran
    obtain ⟨-, -, -, -, _, -, tl, -, -, _, -, ran⟩ := ran
    rw [Exec.bind_ok] at ran
    obtain ⟨_, mid, signed, executed⟩ := ran
    have first := moved_atIdle genuine signed (fun _ => rfl) (fun _ _ _ => rfl) fun _ _ _ fits => fits
    refine first.then (moved_atIdle first.genuine executed (fun _ => rfl) (fun _ _ _ => rfl) ?_)
    intro x y moved fits
    rw [Exec.modify_ok] at moved
    exact moved ▸ fits
  · cases ran

theorem moved_processCancelTimelockProposal {proposalId : UInt64} (genuine : Genuine rt s)
    (ran : (processCancelTimelockProposal rt inv proposalId).run s = .ok () t) : Moved rt s t 0 := by
  unfold processCancelTimelockProposal at ran
  split at ran
  · simp only [Exec.bind_check, exists_const] at ran
    obtain ⟨-, -, -, _, -, tl, -, -, -, ran⟩ := ran
    refine moved_atIdle genuine ran (fun _ => rfl) (fun _ _ _ => rfl) ?_
    intro x y moved fits
    rw [Exec.modify_ok] at moved
    exact moved ▸ fits
  · cases ran

/-! ### Registries -/

theorem moved_processInitBucketRegistry {args : BucketRegistryArgs} (genuine : Genuine rt s)
    (ran : (processInitBucketRegistry rt inv args).run s = .ok () t) : Moved rt s t 0 := by
  unfold processInitBucketRegistry at ran
  split at ran
  · simp only [Exec.bind_check, exists_const] at ran
    obtain ⟨-, -, -, -, -, _, -, bump, ⟨here, -⟩, ran⟩ := ran
    rw [Exec.bind_ok] at ran
    obtain ⟨_, mid, created, ran⟩ := ran
    simp only [Exec.bind_check, exists_const] at ran
    have first := moved_ensureCreated genuine created
    exact first.then (moved_initIdle first.genuine ran.2 rfl here)
  · cases ran

theorem moved_processSetBucketRegistry {args : BucketRegistryArgs} (genuine : Genuine rt s)
    (ran : (processSetBucketRegistry rt inv args).run s = .ok () t) : Moved rt s t 0 := by
  unfold processSetBucketRegistry at ran
  split at ran
  · simp only [Exec.bind_check, exists_const] at ran
    obtain ⟨-, -, _, -, ran⟩ := ran
    exact moved_atIdle genuine ran (fun _ => rfl) (fun _ _ _ => rfl) fun _ _ _ fits => fits
  · cases ran

/-- The mint of the wrapped coin belongs to the token program from the start. -/
theorem moved_ensureWusdMint {payer authority : Pubkey} {decimals : ℕ} (genuine : Genuine rt s)
    (ran : (ensureWusdMint rt inv payer k authority decimals).run s = .ok u t) : Moved rt s t 0 := by
  rw [ensureWusdMint, Exec.run_bind_get] at ran
  rcases Exec.when_ok.mp ran with ⟨-, ran⟩ | ⟨-, rfl⟩
  · rw [Exec.bind_ok] at ran
    obtain ⟨_, mid, created, inited⟩ := ran
    obtain ⟨vacant, rfl⟩ := createAccount_ok created
    obtain ⟨-, rfl⟩ := rt.initializeMint_inits (invoke_ok.mp inited)
    have token : rt.tokenProgram ≠ rt.programId := rt.program_ne_token.symm
    have first : Moved rt s (s.set k ⟨rt.tokenProgram, .raw 82⟩) 0 := by
      apply moved_setForeign genuine _ token _ (fun x wrong => by cases wrong)
      · rw [Ledger.owner, vacant]
        exact rt.program_ne_system.symm
      · intro o x found
        rw [vacant] at found
        cases found
    refine first.then (moved_setForeign first.genuine ?_ token ?_ (fun x wrong => by cases wrong))
    · rw [Ledger.owner, Store.get_set_self]
      exact token
    · intro o x found
      rw [Store.get_set_self] at found
      cases found
  · exact .refl genuine

theorem moved_processInitStablecoinRegistry {args : InitStablecoinRegistryArgs} (genuine : Genuine rt s)
    (ran : (processInitStablecoinRegistry rt inv args).run s = .ok () t) : Moved rt s t 0 := by
  unfold processInitStablecoinRegistry at ran
  split at ran
  · simp only [Exec.bind_check, exists_const] at ran
    obtain ⟨-, -, -, -, -, -, -, _, -, bump, ⟨here, -⟩, _, -, _, -, ran⟩ := ran
    rw [Exec.bind_ok] at ran
    obtain ⟨_, mid, created, ran⟩ := ran
    rw [Exec.bind_ok] at ran
    obtain ⟨_, mid', minted, ran⟩ := ran
    simp only [Exec.bind_check, exists_const] at ran
    have first := moved_ensureCreated genuine created
    have second := moved_ensureWusdMint first.genuine minted
    exact first.then (second.then (moved_initIdle second.genuine ran.2.2 rfl here))
  · cases ran

theorem moved_processAddStablecoinMint (genuine : Genuine rt s)
    (ran : (processAddStablecoinMint rt inv).run s = .ok () t) : Moved rt s t 0 := by
  unfold processAddStablecoinMint at ran
  split at ran
  · simp only [Exec.bind_check, exists_const] at ran
    obtain ⟨-, -, -, _, -, m, -, ran⟩ := ran
    exact moved_atIdle genuine ran (fun _ => rfl) (fun _ _ _ => rfl) fun _ _ _ fits => fits
  · cases ran

theorem moved_processRemoveStablecoinMint (genuine : Genuine rt s)
    (ran : (processRemoveStablecoinMint rt inv).run s = .ok () t) : Moved rt s t 0 := by
  unfold processRemoveStablecoinMint at ran
  split at ran
  · simp only [Exec.bind_check, exists_const] at ran
    obtain ⟨-, -, _, -, ran⟩ := ran
    exact moved_atIdle genuine ran (fun _ => rfl) (fun _ _ _ => rfl) fun _ _ _ fits => fits
  · cases ran

/-! ### Sessions -/

theorem moved_processCreateSession {args : CreateSessionArgs} (genuine : Genuine rt s)
    (ran : (processCreateSession rt inv args).run s = .ok () t) : Moved rt s t 0 := by
  unfold processCreateSession at ran
  split at ran
  next owner config session system rest _ =>
    simp only [Exec.bind_check, exists_const] at ran
    obtain ⟨-, -, -, -, -, cfg, -, bump, ⟨here, -⟩, -, ran⟩ := ran
    rw [Exec.bind_ok] at ran
    obtain ⟨_, mid, prepared, ran⟩ := ran
    obtain ⟨rfl, allowed⟩ := writeData_ok ran
    have first : Moved rt s mid 0 := by
      rcases prepareSession_ok prepared with ⟨vacant, rfl⟩ | ⟨_, -, -, -, rfl⟩
      · have blank : Fits rt (s.Listed rt) session (.raw 440) := trivial
        exact (moved_create genuine vacant blank (shelved_idle rfl)).cast
          (entry_weightless (weightless_idle rfl) (weightless_idle rfl))
      · exact .refl genuine
    have held : (mid.data session).fixed = none ∧ (mid.data session).idle = true := by
      rcases prepareSession_ok prepared with ⟨-, rfl⟩ | ⟨x, held, -, -, rfl⟩
      · rw [Ledger.data, Store.get_set_self]
        exact ⟨rfl, rfl⟩
      · rw [held]
        exact ⟨rfl, rfl⟩
    refine first.then ((moved_setData first.genuine allowed (fun _ _ known => ?_) (fun _ => here)
      fun _ _ => trivial).cast (entry_weightless (weightless_idle held.2) (weightless_idle rfl)))
    simp [held.1] at known
  · cases ran

theorem moved_processRevokeSession (genuine : Genuine rt s)
    (ran : (processRevokeSession rt inv).run s = .ok () t) : Moved rt s t 0 := by
  unfold processRevokeSession at ran
  split at ran
  · simp only [Exec.bind_check, exists_const] at ran
    obtain ⟨-, -, -, _, -, ran⟩ := ran
    refine moved_atIdle genuine ran (fun _ => rfl) (fun _ _ _ => rfl) ?_
    intro x y moved fits
    simp only [revokeBy, Exec.bind_check, exists_const, Exec.put_ok] at moved
    obtain ⟨_, rfl, -, rfl⟩ := moved
    exact fits
  · cases ran

/-! ### The wrapped coin -/

theorem moved_processWrapStablecoin {amount : UInt64} (genuine : Genuine rt s)
    (ran : (processWrapStablecoin rt inv amount).run s = .ok () t) : Moved rt s t 0 := by
  rw [processWrapStablecoin, Exec.bind_check] at ran
  obtain ⟨-, -, ran⟩ := ran
  split at ran
  · simp only [Exec.bind_check, exists_const] at ran
    obtain ⟨signed, -, -, -, -, -, -, _, -, _, -, _, -, _, -, ran⟩ := ran
    rw [Exec.bind_ok] at ran
    obtain ⟨_, mid, paid, minted⟩ := ran
    have first := moved_transfer genuine (fun _ => ne_of_signer signed _) paid
    exact first.then (moved_mintTo first.genuine minted)
  · cases ran

theorem moved_processUnwrapStablecoin {amount : UInt64} (genuine : Genuine rt s)
    (ran : (processUnwrapStablecoin rt inv amount).run s = .ok () t) : Moved rt s t 0 := by
  rw [processUnwrapStablecoin, Exec.bind_check] at ran
  obtain ⟨-, -, ran⟩ := ran
  split at ran
  · simp only [Exec.bind_check, exists_const] at ran
    obtain ⟨signed, -, -, -, -, -, -, _, -, _, ⟨authority, -⟩, _, -, _, -, -, ran⟩ := ran
    rw [Exec.bind_ok] at ran
    obtain ⟨_, mid, burned, paid⟩ := ran
    have first := moved_burn genuine (fun _ => ne_of_signer signed _) burned
    refine first.then (moved_transfer first.genuine (fun mint same => ?_) paid)
    have seeds := rt.address_injective _ _ (authority.trans same)
    cases seeds
  · cases ran

end Polyleverage
