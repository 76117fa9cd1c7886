import Polyleverage.Processor.Admin
import Polyleverage.Processor.Instrument
import Polyleverage.Processor.Margin
import Polyleverage.Processor.Position
import Polyleverage.Processor.Session
import Polyleverage.Processor.Wusd

/-! # The program

One instruction runs its handler on the ledger. An instruction that returns an error or aborts changes
nothing.
-/

namespace Polyleverage

variable (rt : Runtime)

def process (inv : rt.Invocation) : Instruction → LedgerM Unit
  | .initProgramConfig args => processInitProgramConfig rt inv args
  | .setGlobalPause paused => processSetGlobalPause rt inv paused
  | .createInstrument args => processCreateInstrument rt inv args
  | .pauseInstrument => processSetInstrumentStatus rt inv true
  | .resumeInstrument => processSetInstrumentStatus rt inv false
  | .expandIntentBook additionalNodes => processExpandIntentBook rt inv additionalNodes
  | .createMarginAccount => processCreateMarginAccount rt inv
  | .deposit amount => processDeposit rt inv amount
  | .withdraw amount => processWithdraw rt inv amount
  | .postIntent args => processPostIntent rt inv args
  | .cancelIntent intentId => processCancelIntent rt inv intentId
  | .matchPair args => processMatchPair rt inv args
  | .matchBestAvailable => processMatchBestAvailable rt inv
  | .pruneExpired => processPruneExpired rt inv
  | .createSession args => processCreateSession rt inv args
  | .revokeSession => processRevokeSession rt inv
  | .postIntentDelegated args => processPostIntentDelegated rt inv args
  | .cancelIntentDelegated intentId => processCancelIntentDelegated rt inv intentId
  | .liquidate offset => processLiquidate rt inv offset
  | .resolve offset => processResolve rt inv offset
  | .closeMutual offset => processCloseMutual rt inv offset
  | .claimReentry args => processClaimReentry rt inv args
  | .novate side => processNovate rt inv side
  | .matchSubstitute args => processMatchSubstitute rt inv args
  | .matchSubstituteWithSettle args => processMatchSubstituteWithSettle rt inv args
  | .closePmlc => processClosePmlc rt inv
  | .initFeeSchedule tiers => processInitFeeSchedule rt inv tiers
  | .setFeeSchedule tiers => processSetFeeSchedule rt inv tiers
  | .sweepFees amount => processSweepFees rt inv amount
  | .proposeSetAttestationSigner args => processProposeSetAttestationSigner rt inv args
  | .executeSetAttestationSigner proposalId => processExecuteSetAttestationSigner rt inv proposalId
  | .cancelTimelockProposal proposalId => processCancelTimelockProposal rt inv proposalId
  | .initAdminMultisig args => processInitAdminMultisig rt inv args
  | .rotateAdminMultisig args => processRotateAdminMultisig rt inv args
  | .initBucketRegistry args => processInitBucketRegistry rt inv args
  | .setBucketRegistry args => processSetBucketRegistry rt inv args
  | .initStablecoinRegistry args => processInitStablecoinRegistry rt inv args
  | .addStablecoinMint => processAddStablecoinMint rt inv
  | .removeStablecoinMint => processRemoveStablecoinMint rt inv
  | .wrapStablecoin amount => processWrapStablecoin rt inv amount
  | .unwrapStablecoin amount => processUnwrapStablecoin rt inv amount

/-- One call: its surroundings and its instruction. -/
structure Call where
  inv : rt.Invocation
  instruction : Instruction

/-- The ledger after a call. -/
def execute (c : Call rt) (s : Ledger) : Ledger :=
  match (process rt c.inv c.instruction).run s with
  | .ok _ t => t
  | .err _ _ => s
  | .abort => s

/-- The ledger after some calls. -/
def runCalls (calls : List (Call rt)) (s : Ledger) : Ledger := calls.foldl (fun s c => execute rt c s) s

@[simp] theorem runCalls_nil (s : Ledger) : runCalls rt [] s = s := rfl

@[simp] theorem runCalls_cons (c : Call rt) (calls : List (Call rt)) (s : Ledger) :
    runCalls rt (c :: calls) s = runCalls rt calls (execute rt c s) := rfl

/-- The ledger before the program was ever called: it owns nothing, nothing lies at an address that it
derives, and nobody may draw on what these addresses hold of a token. -/
structure Genesis (s : Ledger) : Prop where
  not_owned : ∀ k, s.owner k ≠ rt.programId
  vacant : ∀ seeds, s.get (rt.address seeds) = default
  no_delegate : ∀ k o a seeds, s.get k = ⟨o, .token a⟩ → a.owner = rt.address seeds → a.delegate = none

/-- The ledgers that calls of some kind lead to. -/
inductive Reachable (allowed : Instruction → Prop) : Ledger → Prop where
  | genesis {s : Ledger} : Genesis rt s → Reachable allowed s
  | call {s : Ledger} (c : Call rt) : Reachable allowed s → allowed c.instruction → Reachable allowed (execute rt c s)

variable {rt} {allowed : Instruction → Prop}

/-- A call leaves the ledger alone or is a run of its handler that returns. -/
theorem execute_eq_or_ok (c : Call rt) (s : Ledger) :
    execute rt c s = s ∨ (process rt c.inv c.instruction).run s = .ok () (execute rt c s) := by
  unfold execute
  split
  next ran => exact .inr ran
  · exact .inl rfl
  · exact .inl rfl

/-- A call whose handler returns. -/
def Call.returns (c : Call rt) (s : Ledger) : Bool :=
  match (process rt c.inv c.instruction).run s with
  | .ok _ _ => true
  | _ => false

theorem Call.ran {c : Call rt} {s : Ledger} (returns : c.returns s = true) :
    (process rt c.inv c.instruction).run s = .ok () (execute rt c s) := by
  unfold Call.returns at returns
  unfold execute
  split at returns
  next ran => rw [ran]
  · cases returns

theorem Call.returns_of_ran {c : Call rt} {s t : Ledger} {u : Unit}
    (ran : (process rt c.inv c.instruction).run s = .ok u t) : c.returns s = true := by
  rw [Call.returns, ran]

/-- A call that does not return changes nothing. -/
theorem execute_of_not_returns {c : Call rt} {s : Ledger} (failed : c.returns s = false) : execute rt c s = s := by
  unfold Call.returns at failed
  unfold execute
  split at failed
  · cases failed
  next other =>
    split
    next ran => exact absurd ran (other _ _)
    · rfl
    · rfl

/-- What holds at the start, and is kept by every handler that returns, holds in every reachable
ledger. -/
theorem Reachable.induct {P : Ledger → Prop} (start : ∀ s, Genesis rt s → P s)
    (step : ∀ s t inv instr, P s → allowed instr → (process rt inv instr).run s = .ok () t → P t) {s : Ledger}
    (reached : Reachable rt allowed s) : P s := by
  induction reached with
  | genesis gen => exact start _ gen
  | @call s c _ may ih =>
    rcases execute_eq_or_ok c s with same | ran
    · rwa [same]
    · exact step _ _ c.inv c.instruction ih may ran

/-- Fewer kinds of calls reach fewer ledgers. -/
theorem Reachable.mono {wider : Instruction → Prop} (le : ∀ i, allowed i → wider i) {s : Ledger}
    (reached : Reachable rt allowed s) : Reachable rt wider s := by
  induction reached with
  | genesis gen => exact .genesis gen
  | call c _ may ih => exact .call c ih (le _ may)

/-- A run of calls of the right kind stays reachable. -/
theorem Reachable.runCalls {calls : List (Call rt)} (may : ∀ c ∈ calls, allowed c.instruction) {s : Ledger}
    (reached : Reachable rt allowed s) : Reachable rt allowed (runCalls rt calls s) := by
  induction calls generalizing s with
  | nil => exact reached
  | cons c rest ih =>
    apply ih
    · intro c' member
      exact may c' (List.mem_cons_of_mem c member)
    · exact .call c reached (may c List.mem_cons_self)

end Polyleverage
