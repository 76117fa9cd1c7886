import Polyleverage.Invariants.FailedMatch

/-! # What every instruction keeps

Every instruction keeps the accounts genuine and the terms of the instruments, and none reserves or locks
less than the orders and the positions count. Growing a book may break it, a liquidation may pay out more
than it took, and a match that a post tries may be left half done; every other instruction keeps the books
sound and the three ledgers in agreement.
-/

namespace Polyleverage

open Machine

variable {rt : Runtime} {inv : rt.Invocation} {s t : Ledger} {k : Pubkey} {u : Unit}

namespace Instruction

/-- The instruction grows a book. -/
def expands : Instruction → Bool
  | expandIntentBook _ => true
  | _ => false

/-- The instruction is a post that tries to match. -/
def triesMatch : Instruction → Bool
  | postIntent args => args.tryMatch ≠ 0
  | postIntentDelegated args => args.tryMatch ≠ 0
  | _ => false

def liquidates : Instruction → Bool
  | liquidate _ => true
  | _ => false

end Instruction

/-! ### Posts -/

theorem unpackPostIntent_ok {ctx : PostCtx} (ran : (unpackPostIntent rt inv).run s = .ok ctx t) :
    s = t ∧ inv.isSigner ctx.owner = true ∧ ctx.session = none := by
  unfold unpackPostIntent at ran
  split at ran
  · simp only [Exec.bind_check, exists_const] at ran
    obtain ⟨signed, ran⟩ := ran
    obtain ⟨rfl, rfl⟩ := Exec.pure_ok.mp ran
    exact ⟨rfl, signed, rfl⟩
  · cases ran

/-- A delegate's post is charged to a live session of its owner. -/
theorem unpackPostIntentDelegated_ok {ctx : PostCtx} (ran : (unpackPostIntentDelegated rt inv).run s = .ok ctx t) :
    s = t ∧ ∃ session delegate x, ctx.session = some session ∧ inv.isSigner delegate = true ∧
      s.owner session = rt.programId ∧ s.data session = .session x ∧
      LiveSession rt inv session delegate ctx.instrument ctx.owner x := by
  unfold unpackPostIntentDelegated at ran
  split at ran
  next feePayer delegate config instrument book margin session rest _ =>
    simp only [Exec.bind_check, exists_const] at ran
    obtain ⟨-, -, signed, -, owned, owner, ⟨x, held, alive⟩, ran⟩ := ran
    obtain ⟨rfl, rfl⟩ := Exec.pure_ok.mp ran
    exact ⟨rfl, session, delegate, x, rfl, signed, owned _ (by simp), held, alive⟩
  · cases ran

theorem moved_doPostIntentInner {ctx : PostCtx} {args : PostIntentArgs} (genuine : Genuine rt s)
    (still : args.tryMatch = 0) (ran : (doPostIntentInner rt inv ctx args).run s = .ok u t) : Moved rt s t 0 := by
  rw [doPostIntentInner, Exec.bind_ok] at ran
  obtain ⟨id, mid, posted, matched⟩ := ran
  rcases Exec.when_ok.mp matched with ⟨tries, -⟩ | ⟨-, rfl⟩
  · exact absurd still tries
  · exact (moved_postIntent genuine posted).1

theorem kept_doPostIntentInner {ctx : PostCtx} {args : PostIntentArgs} (genuine : Genuine rt s)
    (ran : (doPostIntentInner rt inv ctx args).run s = .ok u t) : Kept rt s t 0 := by
  rw [doPostIntentInner, Exec.bind_ok] at ran
  obtain ⟨id, mid, posted, matched⟩ := ran
  obtain ⟨moved, instrument, book⟩ := moved_postIntent genuine posted
  rcases Exec.when_ok.mp matched with ⟨-, matched⟩ | ⟨-, rfl⟩
  · exact moved.kept.then (kept_inlineMatch moved.genuine (moved.owned _ instrument) (moved.owned _ book) matched)
  · exact moved.kept

/-! ### Closing a position and growing a book -/

/-- A position that is over is given back. -/
theorem processClosePmlc_ok (ran : (processClosePmlc rt inv).run s = .ok () t) :
    ∃ pmlc p, Instruction.pmlcOf .closePmlc inv.accounts = some pmlc ∧ s.owner pmlc = rt.programId ∧
      s.data pmlc = .pmlc p ∧ p.status ∈ [PMLC_STATUS_CLOSED, PMLC_STATUS_LIQUIDATED, PMLC_STATUS_RESOLVED] ∧
      t = s.set pmlc ⟨systemProgram, .raw 304⟩ := by
  unfold processClosePmlc at ran
  split at ran
  next recipient pmlc rest accounts =>
    simp only [Exec.bind_check, exists_const, not_not] at ran
    obtain ⟨-, -, -, owned, p, held, ended, ran⟩ := ran
    simp only [closeAccount, Exec.bind_check, Exec.put_ok, exists_const, exists_eq_left'] at ran
    obtain ⟨-, rfl⟩ := ran
    refine ⟨pmlc, p, by rw [accounts]; rfl, owned _ (by simp), held, ended, ?_⟩
    rw [held]
    rfl
  · cases ran

theorem steady_processExpandIntentBook {additionalNodes : UInt32} (genuine : Genuine rt s)
    (ran : (processExpandIntentBook rt inv additionalNodes).run s = .ok () t) : Steady rt s t 0 := by
  simp only [processExpandIntentBook, Exec.bind_check, exists_const] at ran
  obtain ⟨-, ran⟩ := ran
  split at ran
  · simp only [Exec.bind_check, exists_const] at ran
    obtain ⟨-, -, -, -, -, inst, -, -, -, -, ran⟩ := ran
    exact steady_atBook genuine ran
  · cases ran

/-! ### Every instruction -/

/-- What a call of this instruction keeps. -/
structure Upkeep (rt : Runtime) (instr : Instruction) (s t : Ledger) : Prop where
  genuine : Genuine rt t
  fixed : ∀ k x, s.fixed rt k = some x → t.fixed rt k = some x
  books : instr.expands = false → Books rt s → Books rt t
  backing : instr.triesMatch = false → instr.liquidates = false →
    ∀ mint, s.gap rt (.backing mint) ≤ t.gap rt (.backing mint)
  lock : instr.triesMatch = false → ∀ owner mint, t.gap rt (.lock owner mint) = s.gap rt (.lock owner mint)
  reserve : instr.triesMatch = false → instr.expands = false → Books rt s →
    ∀ owner mint, t.gap rt (.reserve owner mint) = s.gap rt (.reserve owner mint)
  lock_le : ∀ owner mint, s.gap rt (.lock owner mint) ≤ t.gap rt (.lock owner mint)
  reserve_le : instr.expands = false → Books rt s →
    ∀ owner mint, s.gap rt (.reserve owner mint) ≤ t.gap rt (.reserve owner mint)

variable {instr : Instruction}

theorem Moved.upkeep (moved : Moved rt s t 0) : Upkeep rt instr s t where
  genuine := moved.genuine
  fixed := moved.fixed
  books _ := moved.books
  backing _ _ mint := by simpa using moved.backing mint
  lock _ owner mint := by simpa using moved.lock owner mint
  reserve _ _ books owner mint := by simpa using moved.reserve books owner mint
  lock_le owner mint := by simpa using (moved.lock owner mint).ge
  reserve_le _ books owner mint := by simpa using (moved.reserve books owner mint).ge

/-- A liquidation may move the backing. -/
theorem Moved.upkeep_of_liquidates {mint : Pubkey} {amount : ℤ} (moved : Moved rt s t (backingEntry mint amount))
    (liquidates : instr.liquidates = true) : Upkeep rt instr s t where
  genuine := moved.genuine
  fixed := moved.fixed
  books _ := moved.books
  backing _ none := by simp [liquidates] at none
  lock _ owner mint := by simpa [backingEntry] using moved.lock owner mint
  reserve _ _ books owner mint := by simpa [backingEntry] using moved.reserve books owner mint
  lock_le owner mint := by simpa [backingEntry] using (moved.lock owner mint).ge
  reserve_le _ books owner mint := by simpa [backingEntry] using (moved.reserve books owner mint).ge

/-- Growing a book may break it. -/
theorem Steady.upkeep_of_expands (steady : Steady rt s t 0) (expands : instr.expands = true) : Upkeep rt instr s t where
  genuine := steady.genuine
  fixed := steady.fixed
  books none := by simp [expands] at none
  backing _ _ mint := by simpa using steady.backing mint
  lock _ owner mint := by simpa using steady.lock owner mint
  reserve _ none := by simp [expands] at none
  lock_le owner mint := by simpa using (steady.lock owner mint).ge
  reserve_le none := by simp [expands] at none

/-- A match that is tried may be left half done. -/
theorem Kept.upkeep_of_triesMatch (kept : Kept rt s t 0) (tries : instr.triesMatch = true) : Upkeep rt instr s t where
  genuine := kept.genuine
  fixed := kept.fixed
  books _ := kept.books
  backing none := by simp [tries] at none
  lock none := by simp [tries] at none
  reserve none := by simp [tries] at none
  lock_le owner mint := by simpa using kept.lock owner mint
  reserve_le _ books owner mint := by simpa using kept.reserve books owner mint

/-- An account is given back that counted nothing. -/
theorem holdings_released {a : Account} {μ : AccountData → ℕ} (mine : s.owner k = rt.programId)
    (foreign : a.owner ≠ rt.programId) (zero : μ (s.data k) = 0) :
    Ledger.holdings rt (s.set k a) μ = s.holdings rt μ := by
  apply Store.total_congr (fun _ => Ledger.count_default rt μ) (fun _ => Ledger.count_default rt μ)
  intro j
  by_cases here : j = k
  · subst here
    have old : (s.get j).owner = rt.programId := mine
    rw [Store.get_set_self, if_neg foreign, if_pos old]
    exact zero.symm
  · rw [Store.get_set_of_ne s a here]

theorem upkeep_processClosePmlc (genuine : Genuine rt s) (ran : (processClosePmlc rt inv).run s = .ok () t) :
    Upkeep rt .closePmlc s t := by
  obtain ⟨pmlc, p, -, owned, held, ended, rfl⟩ := processClosePmlc_ok ran
  have foreign : systemProgram ≠ rt.programId := rt.program_ne_system.symm
  have closed : p.status ≠ PMLC_STATUS_LIVE := by
    intro live
    rw [live] at ended
    exact absurd ended (by decide)
  have owner_ne : ∀ j, j ≠ pmlc →
      Ledger.owner (s.set pmlc ⟨systemProgram, .raw 304⟩) j = s.owner j := fun j other =>
    congrArg Account.owner (Store.get_set_of_ne s _ other)
  have data_ne : ∀ j, j ≠ pmlc →
      Ledger.data (s.set pmlc ⟨systemProgram, .raw 304⟩) j = s.data j := fun j other =>
    congrArg Account.data (Store.get_set_of_ne s _ other)
  have given : Ledger.owner (s.set pmlc ⟨systemProgram, .raw 304⟩) pmlc = systemProgram :=
    congrArg Account.owner (Store.get_set_self s _ _)
  have fixed : Ledger.fixed rt (s.set pmlc ⟨systemProgram, .raw 304⟩) = s.fixed rt := by
    funext j
    by_cases here : j = pmlc
    · subst here
      rw [Ledger.fixed, Ledger.fixed, given, if_neg foreign, if_pos owned, held]
      rfl
    · rw [Ledger.fixed, Ledger.fixed, owner_ne j here, data_ne j here]
  have listed : Ledger.Listed rt (s.set pmlc ⟨systemProgram, .raw 304⟩) = s.Listed rt := by
    funext j c
    rw [Ledger.Listed, Ledger.Listed, fixed]
  have mints : Ledger.mintOf rt (s.set pmlc ⟨systemProgram, .raw 304⟩) = s.mintOf rt := by
    funext j
    rw [Ledger.mintOf, Ledger.mintOf, fixed]
  have counts : ∀ μ : AccountData → ℕ, μ (.pmlc p) = 0 →
      Ledger.holdings rt (s.set pmlc ⟨systemProgram, .raw 304⟩) μ = s.holdings rt μ := fun μ zero =>
    holdings_released owned foreign (by rw [held]; exact zero)
  have nothing : ∀ owner mint, (AccountData.pmlc p).held owner mint = 0 := by
    intro owner mint
    simp [AccountData.held, Pmlc.lockedFor, closed]
  have vaults : ∀ mint, Ledger.vaultBalance rt (s.set pmlc ⟨systemProgram, .raw 304⟩) mint = s.vaultBalance rt mint := by
    apply vaultBalance_congr
    intro j token
    by_cases here : j = pmlc
    · subst here
      rw [owned, given] at token
      rcases token with token | token
      · exact absurd token rt.program_ne_token
      · exact absurd token.symm rt.token_ne_system
    · exact Store.get_set_of_ne s _ here
  have lock : ∀ owner mint, Ledger.gap rt (s.set pmlc ⟨systemProgram, .raw 304⟩) (.lock owner mint) =
      s.gap rt (.lock owner mint) := by
    intro owner mint
    rw [Ledger.gap, Ledger.gap, counts _ rfl, counts _ (nothing owner mint)]
  have reserve : ∀ owner mint, Ledger.gap rt (s.set pmlc ⟨systemProgram, .raw 304⟩) (.reserve owner mint) =
      s.gap rt (.reserve owner mint) := by
    intro owner mint
    rw [Ledger.gap, Ledger.gap, mints, counts _ rfl, counts _ rfl]
  refine ⟨⟨fun j mine => ?_, fun j o a seeds found => ?_⟩, fun j x known => ?_, fun _ books j mine => ?_,
    fun _ _ mint => ?_, fun _ => lock, fun _ _ _ => reserve, fun owner mint => (lock owner mint).ge,
    fun _ _ owner mint => (reserve owner mint).ge⟩
  · have other : j ≠ pmlc := by
      rintro rfl
      exact foreign (given.symm.trans mine)
    rw [owner_ne j other] at mine
    rw [listed, data_ne j other]
    exact genuine.fits j mine
  · by_cases here : j = pmlc
    · subst here
      rw [Store.get_set_self] at found
      cases found
    · rw [Store.get_set_of_ne s _ here] at found
      exact genuine.no_delegate j o a seeds found
  · rw [fixed]
    exact known
  · have other : j ≠ pmlc := by
      rintro rfl
      exact foreign (given.symm.trans mine)
    rw [owner_ne j other] at mine
    rw [listed, data_ne j other]
    exact books j mine
  · rw [Ledger.gap, Ledger.gap, vaults, counts _ rfl]

/-- A post that does not try to match moves nothing. -/
theorem upkeep_post {ctx : PostCtx} {args : PostIntentArgs} (genuine : Genuine rt s)
    (tries : instr.triesMatch = (args.tryMatch ≠ 0 : Bool)) (ran : (doPostIntentInner rt inv ctx args).run s = .ok u t) :
    Upkeep rt instr s t := by
  by_cases still : args.tryMatch = 0
  · exact (moved_doPostIntentInner genuine still ran).upkeep
  · exact (kept_doPostIntentInner genuine ran).upkeep_of_triesMatch (by simp [tries, still])

theorem upkeep_process (genuine : Genuine rt s) (ran : (process rt inv instr).run s = .ok () t) : Upkeep rt instr s t := by
  cases instr with
  | initProgramConfig args => exact (moved_processInitProgramConfig genuine ran).upkeep
  | setGlobalPause paused => exact (moved_processSetGlobalPause genuine ran).upkeep
  | createInstrument args => exact (moved_processCreateInstrument genuine ran).upkeep
  | pauseInstrument => exact (moved_processSetInstrumentStatus genuine ran).upkeep
  | resumeInstrument => exact (moved_processSetInstrumentStatus genuine ran).upkeep
  | expandIntentBook additionalNodes => exact (steady_processExpandIntentBook genuine ran).upkeep_of_expands rfl
  | createMarginAccount => exact (moved_processCreateMarginAccount genuine ran).upkeep
  | deposit amount => exact (moved_processDeposit genuine ran).upkeep
  | withdraw amount => exact (moved_processWithdraw genuine ran).upkeep
  | postIntent args =>
    rw [process, processPostIntent, Exec.bind_ok] at ran
    obtain ⟨ctx, _, unpacked, ran⟩ := ran
    obtain ⟨rfl, -⟩ := unpackPostIntent_ok unpacked
    exact upkeep_post genuine rfl ran
  | cancelIntent intentId => exact (moved_processCancelIntent genuine ran).upkeep
  | matchPair args => exact (moved_processMatchPair genuine ran).upkeep
  | matchBestAvailable => exact (moved_processMatchBestAvailable genuine ran).upkeep
  | pruneExpired => exact (moved_processPruneExpired genuine ran).upkeep
  | createSession args => exact (moved_processCreateSession genuine ran).upkeep
  | revokeSession => exact (moved_processRevokeSession genuine ran).upkeep
  | postIntentDelegated args =>
    rw [process, processPostIntentDelegated, Exec.bind_ok] at ran
    obtain ⟨ctx, _, unpacked, ran⟩ := ran
    obtain ⟨rfl, -⟩ := unpackPostIntentDelegated_ok unpacked
    exact upkeep_post genuine rfl ran
  | cancelIntentDelegated intentId => exact (moved_processCancelIntentDelegated genuine ran).upkeep
  | liquidate offset =>
    obtain ⟨mint, amount, moved⟩ := moved_processLiquidate genuine ran
    exact moved.upkeep_of_liquidates rfl
  | resolve offset => exact (moved_processResolve genuine ran).upkeep
  | closeMutual offset => exact (moved_processCloseMutual genuine ran).upkeep
  | claimReentry args => exact (moved_processClaimReentry genuine ran).upkeep
  | novate side => exact (moved_processNovate genuine ran).upkeep
  | matchSubstitute args => exact (moved_doSubstitute genuine ran).upkeep
  | matchSubstituteWithSettle args => exact (moved_doSubstitute genuine ran).upkeep
  | closePmlc => exact upkeep_processClosePmlc genuine ran
  | initFeeSchedule tiers => exact (moved_processInitFeeSchedule genuine ran).upkeep
  | setFeeSchedule tiers => exact (moved_processSetFeeSchedule genuine ran).upkeep
  | sweepFees amount => exact (moved_processSweepFees genuine ran).upkeep
  | proposeSetAttestationSigner args => exact (moved_processProposeSetAttestationSigner genuine ran).upkeep
  | executeSetAttestationSigner proposalId => exact (moved_processExecuteSetAttestationSigner genuine ran).upkeep
  | cancelTimelockProposal proposalId => exact (moved_processCancelTimelockProposal genuine ran).upkeep
  | initAdminMultisig args => exact (moved_processInitAdminMultisig genuine ran).upkeep
  | rotateAdminMultisig args => exact (moved_processRotateAdminMultisig genuine ran).upkeep
  | initBucketRegistry args => exact (moved_processInitBucketRegistry genuine ran).upkeep
  | setBucketRegistry args => exact (moved_processSetBucketRegistry genuine ran).upkeep
  | initStablecoinRegistry args => exact (moved_processInitStablecoinRegistry genuine ran).upkeep
  | addStablecoinMint => exact (moved_processAddStablecoinMint genuine ran).upkeep
  | removeStablecoinMint => exact (moved_processRemoveStablecoinMint genuine ran).upkeep
  | wrapStablecoin amount => exact (moved_processWrapStablecoin genuine ran).upkeep
  | unwrapStablecoin amount => exact (moved_processUnwrapStablecoin genuine ran).upkeep

/-! ### Runs -/

variable {allowed : Instruction → Prop}

/-- Every reachable ledger is genuine. -/
theorem genuine_of_reachable (reached : Reachable rt allowed s) : Genuine rt s :=
  reached.induct (fun _ => genuine_genesis) fun _ _ _ _ genuine _ ran => (upkeep_process genuine ran).genuine

/-- As long as no book grows, all books are sound. -/
theorem books_of_reachable (plain : ∀ instr, allowed instr → instr.expands = false) (reached : Reachable rt allowed s) :
    Books rt s := by
  have step : ∀ s t inv instr, Genuine rt s ∧ Books rt s → allowed instr → (process rt inv instr).run s = .ok () t →
      Genuine rt t ∧ Books rt t := by
    rintro s t inv instr ⟨genuine, books⟩ may ran
    have kept := upkeep_process genuine ran
    exact ⟨kept.genuine, kept.books (plain instr may) books⟩
  exact (reached.induct (P := fun s => Genuine rt s ∧ Books rt s)
    (fun _ gen => ⟨genuine_genesis gen, books_genesis gen⟩) step).2

/-- What holds of one ledger and is kept by every call that returns holds after a run. -/
theorem runCalls_induct {P : Ledger → Prop} {calls : List (Call rt)}
    (step : ∀ c ∈ calls, ∀ s t, P s → (process rt c.inv c.instruction).run s = .ok () t → P t) {s : Ledger} (start : P s) :
    P (runCalls rt calls s) := by
  induction calls generalizing s with
  | nil => exact start
  | cons c rest ih =>
    apply ih
    · intro c' member
      exact step c' (List.mem_cons_of_mem c member)
    · change P (execute rt c s)
      rcases execute_eq_or_ok c s with same | ran
      · rwa [same]
      · exact step c List.mem_cons_self _ _ start ran

end Polyleverage
