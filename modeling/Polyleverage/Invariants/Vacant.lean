import Polyleverage.Exec.Avoiding
import Polyleverage.Invariants.Upkeep

/-! # The address of the wrapped coin

An account is created at the address of its seeds. So nothing but the set-up of the stablecoin registry
creates an account at the address of the wrapped coin's mint.
-/

namespace Polyleverage

variable {rt : Runtime} {inv : rt.Invocation} {s t : Ledger} {k : Pubkey} {elsewhere : List Pubkey}

/-- When none of these accounts is the wrapped coin's mint, the address of this mint stays vacant. -/
def StaysVacant (rt : Runtime) (elsewhere : List Pubkey) (s t : Ledger) : Prop :=
  rt.address .wusdMint ∉ elsewhere → s.get (rt.address .wusdMint) = default → t.get (rt.address .wusdMint) = default

instance : Std.Refl (StaysVacant rt elsewhere) := ⟨fun _ _ => id⟩

instance : IsTrans Ledger (StaysVacant rt elsewhere) :=
  ⟨fun _ _ _ first next apart vacant => next apart (first apart vacant)⟩

theorem staysVacant_of_touches {old new : List AccountKind} (touches : Touches old new s t) (unwritten : AccountKind.raw ∉ old) :
    StaysVacant rt elsewhere s t := by
  intro _ vacant
  rw [touches.get_eq, vacant]
  rw [Ledger.data, vacant]
  exact unwritten

theorem keeping_vacant_of_within {α : Type} {m : LedgerM α} (old new : List AccountKind) [Within old new m]
    (unwritten : AccountKind.raw ∉ old) : Exec.Keeping (StaysVacant rt elsewhere) m where
  keeps := by
    have keeps : Exec.Keeps (Touches old new) m := Within.keeps
    exact keeps.mono fun _ _ touches => staysVacant_of_touches touches unwritten

section Programs

variable {α : Type}

instance (m : MarginM Unit) : Exec.Keeping (StaysVacant rt elsewhere) (atMargin rt inv k m) :=
  keeping_vacant_of_within [.marginAccount] [.marginAccount] (by decide)

instance (m : BookM α) : Exec.Keeping (StaysVacant rt elsewhere) (atBook rt inv k m) :=
  keeping_vacant_of_within [.intentBook] [.intentBook] (by decide)

/-- Writing does not make an account of a vacant address. -/
theorem staysVacant_setData {d : AccountData} (allowed : ¬ Refuses rt inv s k d) : StaysVacant rt elsewhere s (s.setData k d) := by
  intro _ vacant
  by_cases here : rt.address .wusdMint = k
  · subst here
    rcases allowed_of_not_refuses allowed with same | owned
    · rw [Ledger.get_setData_self, same]
      exact vacant
    · rw [Ledger.owner, vacant] at owned
      exact absurd owned.symm rt.program_ne_system
  · rw [Ledger.get_setData_of_ne _ _ here, vacant]

instance {τ : Type} (view : AccountData → Except ProgramError τ) (data : τ → AccountData) (m : Exec ProgramError τ α) :
    Exec.Keeping (StaysVacant rt elsewhere) (atAccount rt inv view data k m) where
  keeps s t left := by
    simp only [Exec.run, atAccount] at left
    split at left
    · cases left
      exact Std.Refl.refl s
    · split at left
      · split at left
        · simp at left
        next allowed =>
          cases left
          exact staysVacant_setData allowed
      · split at left
        · simp at left
        next allowed =>
          cases left
          exact staysVacant_setData allowed
      · simp at left

instance (d : AccountData) : Exec.Keeping (StaysVacant rt elsewhere) (writeData rt inv k d) where
  keeps s t left := by
    rw [writeData, Exec.run_bind_get, Exec.run_bind, Exec.run_abortIf] at left
    split at left
    · simp at left
    next allowed =>
      cases left
      exact staysVacant_setData allowed

instance (fresh : AccountData) : Exec.Keeping (StaysVacant rt elsewhere) (initAccount rt inv k fresh) := by
  unfold initAccount
  infer_instance

/-! ### Creating -/

class Known (k : Pubkey) (keys : List Pubkey) : Prop where
  mem : k ∈ keys

instance (keys : List Pubkey) : Known k (k :: keys) := ⟨List.mem_cons_self⟩

instance (other : Pubkey) (keys : List Pubkey) [Known k keys] : Known k (other :: keys) := ⟨List.mem_cons_of_mem other Known.mem⟩

@[reducible] def Seeds.isWusdMint : Seeds → Bool
  | .wusdMint => true
  | _ => false

instance (payer space owner) [Known k elsewhere] : Exec.Keeping (StaysVacant rt elsewhere) (createAccount rt inv payer k space owner) where
  keeps s t left := by
    rw [createAccount, Exec.run_bind_get, Exec.run_bind, Exec.run_abortIf] at left
    split at left
    · simp at left
    · cases left
      intro apart vacant
      have other : rt.address .wusdMint ≠ k := fun same => apart (same ▸ Known.mem)
      rwa [Store.get_set_of_ne _ _ other]

instance (payer fresh) [Known k elsewhere] : Exec.Keeping (StaysVacant rt elsewhere) (createAndInit rt inv payer k fresh) := by
  unfold createAndInit
  infer_instance

instance (payer space) [Known k elsewhere] : Exec.Keeping (StaysVacant rt elsewhere) (ensureCreated rt inv payer k space) := by
  unfold ensureCreated
  infer_instance

/-- An account at the address of other seeds is elsewhere. -/
theorem keeping_of_here {m : LedgerM α} {seeds : Seeds} (other : seeds.isWusdMint = false) (here : rt.address seeds = k)
    (keeps : Exec.Keeping (StaysVacant rt (k :: elsewhere)) m) : Exec.Keeping (StaysVacant rt elsewhere) m where
  keeps s t left := by
    intro apart
    apply keeps.keeps s t left
    rw [List.mem_cons, not_or]
    refine ⟨?_, apart⟩
    rw [← here]
    intro same
    rw [← rt.address_injective _ _ same] at other
    cases other

/-- Behind the check of its address an account is known to be elsewhere. -/
theorem keeping_bind_assertPda {seeds : Seeds} [other : Exec.IsFalse seeds.isWusdMint] {f : ℕ → LedgerM α}
    (next : ∀ b, Exec.Keeping (StaysVacant rt (k :: elsewhere)) (f b)) :
    Exec.Keeping (StaysVacant rt elsewhere) (assertPda rt seeds k >>= f) where
  keeps s t left := by
    rcases Exec.left_bind_check left with rfl | ⟨b, ⟨here, -⟩, left⟩
    · exact Std.Refl.refl _
    · exact (keeping_of_here other.eq_false here (next b)).keeps s t left

instance (seeds : Seeds) [Exec.IsFalse seeds.isWusdMint] (f : ℕ → LedgerM α)
    [∀ b, Exec.Keeping (StaysVacant rt (k :: elsewhere)) (f b)] :
    Exec.Keeping (StaysVacant rt elsewhere) (assertPda rt seeds k >>= f) := keeping_bind_assertPda inferInstance

end Programs

section Handlers

instance : Exec.Keeping (StaysVacant rt elsewhere) (assertSigner rt inv k) := inferInstanceAs (Exec.Keeping _ (Exec.rejectIf _ _))

instance : Exec.Keeping (StaysVacant rt elsewhere) (assertWritable rt inv k) := inferInstanceAs (Exec.Keeping _ (Exec.rejectIf _ _))

instance : Exec.Keeping (StaysVacant rt elsewhere) (assertSystemProgram k) := inferInstanceAs (Exec.Keeping _ (Exec.rejectIf _ _))

instance : Exec.Keeping (StaysVacant rt elsewhere) (assertTokenOwned rt k) := keeping_vacant_of_within [] [] (by decide)

instance : Exec.Keeping (StaysVacant rt elsewhere) (assertEmpty k) := keeping_vacant_of_within [] [] (by decide)

instance (admin) : Exec.Keeping (StaysVacant rt elsewhere) (assertAdmin k admin) := keeping_vacant_of_within [] [] (by decide)

instance : Exec.Keeping (StaysVacant rt elsewhere) (loadUnpaused k) := keeping_vacant_of_within [] [] (by decide)

instance : Exec.Keeping (StaysVacant rt elsewhere) (authorizeAdminOrMultisig rt inv k) := keeping_vacant_of_within [] [] (by decide)

instance (args rest) : Exec.Keeping (StaysVacant rt elsewhere) (checkRegistry rt args rest) := keeping_vacant_of_within [] [] (by decide)

instance (args) : Exec.Keeping (StaysVacant rt elsewhere) (processInitProgramConfig rt inv args) := by
  unfold processInitProgramConfig
  split <;> (repeat with_reducible first
    | refine keeping_bind_assertPda fun _ => ?_
    | refine Exec.keeping_bind inferInstance fun _ => ?_) <;> infer_instance

instance : Exec.Keeping (StaysVacant rt elsewhere) (processCreateMarginAccount rt inv) := by
  unfold processCreateMarginAccount
  split <;> (repeat with_reducible first
    | refine keeping_bind_assertPda fun _ => ?_
    | refine Exec.keeping_bind inferInstance fun _ => ?_) <;> infer_instance

instance (tiers) : Exec.Keeping (StaysVacant rt elsewhere) (processInitFeeSchedule rt inv tiers) := by
  unfold processInitFeeSchedule
  split <;> (repeat with_reducible first
    | refine keeping_bind_assertPda fun _ => ?_
    | refine Exec.keeping_bind inferInstance fun _ => ?_) <;> infer_instance

instance (args) : Exec.Keeping (StaysVacant rt elsewhere) (processProposeSetAttestationSigner rt inv args) := by
  unfold processProposeSetAttestationSigner
  split <;> (repeat with_reducible first
    | refine keeping_bind_assertPda fun _ => ?_
    | refine Exec.keeping_bind inferInstance fun _ => ?_) <;> infer_instance

instance (args) : Exec.Keeping (StaysVacant rt elsewhere) (processInitAdminMultisig rt inv args) := by
  unfold processInitAdminMultisig
  split <;> (repeat with_reducible first
    | refine keeping_bind_assertPda fun _ => ?_
    | refine Exec.keeping_bind inferInstance fun _ => ?_) <;> infer_instance

instance (args) : Exec.Keeping (StaysVacant rt elsewhere) (processInitBucketRegistry rt inv args) := by
  unfold processInitBucketRegistry
  split <;> (repeat with_reducible first
    | refine keeping_bind_assertPda fun _ => ?_
    | refine Exec.keeping_bind inferInstance fun _ => ?_) <;> infer_instance

instance (owner) [Known k elsewhere] : Exec.Keeping (StaysVacant rt elsewhere) (prepareSession rt inv owner k) := by
  unfold prepareSession
  infer_instance

instance (args) : Exec.Keeping (StaysVacant rt elsewhere) (processCreateSession rt inv args) := by
  unfold processCreateSession
  split <;> (repeat with_reducible first
    | refine keeping_bind_assertPda fun _ => ?_
    | refine Exec.keeping_bind inferInstance fun _ => ?_) <;> infer_instance

instance (payer marketId) : Exec.Keeping (StaysVacant rt elsewhere) (ensureMarketNonce rt inv payer k marketId) := by
  unfold ensureMarketNonce
  infer_instance

instance (payer mint) : Exec.Keeping (StaysVacant rt elsewhere) (ensureFeeTreasury rt inv payer k mint) := by
  unfold ensureFeeTreasury
  infer_instance

instance (payer owner mint) : Exec.Keeping (StaysVacant rt elsewhere) (ensureUserVolume rt inv payer k owner mint) := by
  unfold ensureUserVolume
  infer_instance

instance (ctx r mint perSide) : Exec.Keeping (StaysVacant rt elsewhere) (chargeTaker rt inv ctx r mint perSide) := by
  unfold chargeTaker
  repeat with_reducible refine Exec.keeping_bind inferInstance fun _ => ?_
  infer_instance

instance (ctx : MatchCtx) (r inst) [Known ctx.pmlc elsewhere] : Exec.Keeping (StaysVacant rt elsewhere) (openPmlc rt inv ctx r inst) := by
  unfold openPmlc
  infer_instance

/-- A position goes to the address of its number. -/
theorem keeping_bind_matchInBook {α : Type} {instrument book pmlc : Pubkey} {bucket longId shortId now : ℕ} {f : MatchResult → LedgerM α}
    (next : ∀ r, Exec.Keeping (StaysVacant rt (pmlc :: elsewhere)) (f r)) : Exec.Keeping (StaysVacant rt elsewhere)
      (atBook rt inv book (matchInBook rt instrument pmlc bucket longId shortId now) >>= f) where
  keeps s t left := by
    have first : Exec.Keeping (StaysVacant rt elsewhere) (atBook rt inv book (matchInBook rt instrument pmlc bucket longId shortId now)) :=
      inferInstance
    rcases Exec.left_bind left with ⟨e, failed⟩ | ⟨r, mid, ran, left⟩
    · exact first.keeps.err failed
    · obtain ⟨b, b', -, inner, -⟩ := atBook_ok ran
      have rest := keeping_of_here rfl (matchInBook_address inner) (next r)
      exact Trans.trans (first.keeps.ok ran) (rest.keeps mid t left)

instance (ctx longId shortId) : Exec.Keeping (StaysVacant rt elsewhere) (matchPairCore rt inv ctx longId shortId) := by
  unfold matchPairCore
  refine Exec.keeping_bind inferInstance fun inst => ?_
  refine Exec.keeping_bind inferInstance fun _ => ?_
  refine Exec.keeping_bind inferInstance fun _ => ?_
  exact keeping_bind_matchInBook inferInstance

instance (ctx args long short) : Exec.Keeping (StaysVacant rt elsewhere) (inlineMatchPair rt inv ctx args long short) := by
  unfold inlineMatchPair
  infer_instance

instance (ctx args id) : Exec.Keeping (StaysVacant rt elsewhere) (inlineMatch rt inv ctx args id) := by
  unfold inlineMatch
  split
  · refine Exec.keeping_bind inferInstance fun _ => ?_
    split <;> infer_instance
  · infer_instance

instance (args) : Exec.Keeping (StaysVacant rt elsewhere) (processMatchPair rt inv args) :=
  Exec.keeping_bind (keeping_vacant_of_within [] [] (by decide)) inferInstance

instance : Exec.Keeping (StaysVacant rt elsewhere) (processMatchBestAvailable rt inv) := by
  refine Exec.keeping_bind (keeping_vacant_of_within [] [] (by decide)) fun ctx => ?_
  infer_instance

instance (ctx args) : Exec.Keeping (StaysVacant rt elsewhere) (doPostIntentInner rt inv ctx args) := by
  let kinds : List AccountKind := [.session, .intentBook, .marginAccount]
  have posts : Within kinds kinds (postIntent rt inv ctx args) := within_postIntent ctx args fun _ => by decide
  exact Exec.keeping_bind (keeping_vacant_of_within kinds kinds (by decide)) inferInstance

instance (args) : Exec.Keeping (StaysVacant rt elsewhere) (processPostIntent rt inv args) :=
  Exec.keeping_bind (keeping_vacant_of_within [] [] (by decide)) inferInstance

instance (args) : Exec.Keeping (StaysVacant rt elsewhere) (processPostIntentDelegated rt inv args) :=
  Exec.keeping_bind (keeping_vacant_of_within [] [] (by decide)) inferInstance

instance (args) : Exec.Keeping (StaysVacant rt elsewhere) (processCreateInstrument rt inv args) := by
  unfold processCreateInstrument
  split
  next admin config instrument book mint system nonce rest _ =>
    have seeds : Exec.IsFalse args.seeds.isWusdMint := ⟨rfl⟩
    repeat with_reducible first
      | refine keeping_bind_assertPda fun _ => ?_
      | refine Exec.keeping_bind inferInstance fun _ => ?_
    infer_instance
  · infer_instance

end Handlers

/-- Only the set-up of the stablecoin registry opens the wrapped coin's mint. -/
theorem staysVacant_of_process {instr : Instruction} (other : ∀ args, instr ≠ .initStablecoinRegistry args)
    (ran : (process rt inv instr).run s = .ok () t) : StaysVacant rt [] s t := by
  by_cases creates : AccountKind.raw ∈ instr.writes
  · have keeps : Exec.Keeping (StaysVacant rt []) (process rt inv instr) := by
      cases instr with
      | initProgramConfig args => exact inferInstanceAs (Exec.Keeping _ (processInitProgramConfig rt inv args))
      | createInstrument args => exact inferInstanceAs (Exec.Keeping _ (processCreateInstrument rt inv args))
      | createMarginAccount => exact inferInstanceAs (Exec.Keeping _ (processCreateMarginAccount rt inv))
      | postIntent args => exact inferInstanceAs (Exec.Keeping _ (processPostIntent rt inv args))
      | postIntentDelegated args => exact inferInstanceAs (Exec.Keeping _ (processPostIntentDelegated rt inv args))
      | matchPair args => exact inferInstanceAs (Exec.Keeping _ (processMatchPair rt inv args))
      | matchBestAvailable => exact inferInstanceAs (Exec.Keeping _ (processMatchBestAvailable rt inv))
      | createSession args => exact inferInstanceAs (Exec.Keeping _ (processCreateSession rt inv args))
      | initFeeSchedule tiers => exact inferInstanceAs (Exec.Keeping _ (processInitFeeSchedule rt inv tiers))
      | proposeSetAttestationSigner args =>
        exact inferInstanceAs (Exec.Keeping _ (processProposeSetAttestationSigner rt inv args))
      | initAdminMultisig args => exact inferInstanceAs (Exec.Keeping _ (processInitAdminMultisig rt inv args))
      | initBucketRegistry args => exact inferInstanceAs (Exec.Keeping _ (processInitBucketRegistry rt inv args))
      | initStablecoinRegistry args => exact absurd rfl (other args)
      | _ => exact absurd creates (by simp [Instruction.writes])
    exact keeps.keeps.ok ran
  · exact staysVacant_of_touches ((within_process rt inv instr).keeps.ok ran) creates

end Polyleverage
