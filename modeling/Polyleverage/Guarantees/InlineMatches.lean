import Polyleverage.Exec.GivingUp
import Polyleverage.Invariants.Cancels
import Polyleverage.Invariants.Matches
import Polyleverage.Sample

/-! # A match that a post tries is a match of its own

A post that tries a match does what the same post without a match does, and then what the permissionless match of
the pair does. So what runs reach in which every match that a post tries would be accepted on its own, they reach
without a match in a post.
-/

namespace Polyleverage

open Machine

variable {rt : Runtime} {inv : rt.Invocation} {s t : Ledger}

/-! ### The two calls that a post is split into -/

/-- A post without its match; any other instruction as it is. -/
def Instruction.withoutMatch : Instruction → Instruction
  | .postIntent args => .postIntent { args with tryMatch := 0 }
  | .postIntentDelegated args => .postIntentDelegated { args with tryMatch := 0 }
  | instr => instr

theorem Instruction.withoutMatch_of_triesMatch {i : Instruction} (still : i.triesMatch = false) :
    i.withoutMatch = i := by
  cases i with
  | postIntent args =>
    have none : args.tryMatch = 0 := by simpa [triesMatch] using still
    rw [withoutMatch, ← none]
  | postIntentDelegated args =>
    have none : args.tryMatch = 0 := by simpa [triesMatch] using still
    rw [withoutMatch, ← none]
  | _ => rfl

@[simp] theorem Instruction.triesMatch_withoutMatch (i : Instruction) : i.withoutMatch.triesMatch = false := by
  cases i with
  | _ => rfl

/-- The invocation with other accounts. -/
def Runtime.Invocation.giving (inv : rt.Invocation) (accounts : List Pubkey) : rt.Invocation := { inv with accounts }

/-- The accounts of a match in the order in which its instructions take them. -/
def MatchCtx.accounts (ctx : MatchCtx) : List Pubkey :=
  [ctx.payer, ctx.instrument, ctx.book, ctx.longMargin, ctx.shortMargin, ctx.pmlc, systemProgram, ctx.feeSchedule,
    ctx.takerVolume, ctx.makerVolume, ctx.feeTreasury]

namespace Call

/-- The call without the match that it tries as a post. -/
def plain (c : Call rt) : Call rt := { c with instruction := c.instruction.withoutMatch }

/-- An instruction with the accounts of a match, in the transaction of the call. -/
def standalone (c : Call rt) (ctx : MatchCtx) (instruction : Instruction) : Call rt where
  inv := c.inv.giving ctx.accounts
  instruction

end Call

/-! ### A match with other accounts -/

section Giving

variable {accounts : List Pubkey} (system : systemProgram ∈ accounts)
include system

/-- Without the system program among the accounts nothing is created. -/
theorem givesUp_createAccount (payer target : Pubkey) (space : ℕ) (owner : Pubkey) :
    Exec.GivesUp (createAccount rt inv payer target space owner)
      (createAccount rt (inv.giving accounts) payer target space owner) := by
  refine Exec.GivesUp.after _ fun s => Exec.GivesUp.bind (Exec.GivesUp.abortIf ?_) fun _ => Exec.GivesUp.refl _
  rintro (missing | others)
  · exact absurd system missing
  · exact .inr others

theorem givesUp_createAndInit (payer target : Pubkey) (fresh : AccountData) :
    Exec.GivesUp (createAndInit rt inv payer target fresh) (createAndInit rt (inv.giving accounts) payer target fresh) :=
  (givesUp_createAccount system _ _ _ _).bind fun _ => Exec.GivesUp.refl _

theorem givesUp_ensureFeeTreasury (payer treasury mint : Pubkey) :
    Exec.GivesUp (ensureFeeTreasury rt inv payer treasury mint) (ensureFeeTreasury rt (inv.giving accounts) payer treasury mint) :=
  .after _ fun _ => .after _ fun _ => .ite _ (.refl _) (givesUp_createAndInit system _ _ _)

theorem givesUp_ensureUserVolume (payer volume owner mint : Pubkey) :
    Exec.GivesUp (ensureUserVolume rt inv payer volume owner mint)
      (ensureUserVolume rt (inv.giving accounts) payer volume owner mint) :=
  .after _ fun _ => .after _ fun _ => .ite _ (.refl _) (givesUp_createAndInit system _ _ _)

theorem givesUp_chargeTaker (ctx : MatchCtx) (r : MatchResult) (mint : Pubkey) (perSide : ℕ) :
    Exec.GivesUp (chargeTaker rt inv ctx r mint perSide) (chargeTaker rt (inv.giving accounts) ctx r mint perSide) :=
  (givesUp_ensureFeeTreasury system _ _ _).bind fun _ =>
    (givesUp_ensureUserVolume system _ _ _ _).bind fun _ =>
      (givesUp_ensureUserVolume system _ _ _ _).bind fun _ => .refl _

theorem givesUp_openPmlc (ctx : MatchCtx) (r : MatchResult) (inst : InstrumentConfig) :
    Exec.GivesUp (openPmlc rt inv ctx r inst) (openPmlc rt (inv.giving accounts) ctx r inst) :=
  (givesUp_createAccount system _ _ _ _).bind fun _ => .refl _

/-- A match needs its accounts' list only for the system program. -/
theorem givesUp_matchPairCore (ctx : MatchCtx) (longId shortId : ℕ) :
    Exec.GivesUp (matchPairCore rt inv ctx longId shortId) (matchPairCore rt (inv.giving accounts) ctx longId shortId) := by
  refine .after _ fun inst => .after _ fun _ => .after _ fun _ => .after _ fun r => .after _ fun _ =>
    .after _ fun _ => ?_
  refine (givesUp_chargeTaker system _ _ _ _).bind fun fee => .after _ fun _ => .after _ fun _ => ?_
  exact givesUp_openPmlc system _ _ _

end Giving

/-- A match with the accounts in their order is that match. -/
theorem unpackMatchAccounts_giving {ctx ctx' : MatchCtx}
    (ran : (unpackMatchAccounts rt (inv.giving ctx.accounts)).run s = .ok ctx' t) : ctx' = ctx ∧ s = t := by
  simp only [unpackMatchAccounts, Runtime.Invocation.giving, MatchCtx.accounts, Exec.bind_check, exists_const] at ran
  obtain ⟨-, -, -, -, -, -, -, -, -, -, -, _, -, ran⟩ := ran
  obtain ⟨rfl, rfl⟩ := Exec.pure_ok.mp ran
  exact ⟨rfl, rfl⟩

/-- What a match leaves that a post tried, when the match alone would have been accepted. -/
theorem Call.execute_standalone {c : Call rt} {ctx : MatchCtx} {args : MatchPairArgs} {caught : Option ProgramError}
    (accepted : (c.standalone ctx (.matchPair args)).returns s = true)
    (tried : (Exec.swallow (matchPairCore rt c.inv ctx args.longIntentId.toNat args.shortIntentId.toNat)).run s = .ok caught t) :
    t = execute rt (c.standalone ctx (.matchPair args)) s := by
  have alone := Call.ran accepted
  change (processMatchPair rt (c.inv.giving ctx.accounts) args).run s = _ at alone
  rw [processMatchPair, Exec.bind_ok] at alone
  obtain ⟨ctx', _, unpacked, alone⟩ := alone
  obtain ⟨rfl, rfl⟩ := unpackMatchAccounts_giving unpacked
  have goes_on : (matchPairCore rt c.inv ctx' args.longIntentId.toNat args.shortIntentId.toNat).run s ≠ .abort := by
    intro aborts
    rw [Exec.run_swallow, aborts] at tried
    cases tried
  have system : systemProgram ∈ ctx'.accounts := by simp [MatchCtx.accounts]
  rw [Exec.run_swallow, (givesUp_matchPairCore system ctx' _ _).run_eq goes_on] at tried
  change (matchPairCore rt (c.inv.giving ctx'.accounts) ctx' _ _).run s = _ at alone
  rw [alone] at tried
  cases tried
  rfl

/-! ### Splitting a post -/

/-- A post writes the book last. -/
theorem postIntent_writes_book {post : PostCtx} {args : PostIntentArgs} {id : ℕ}
    (ran : (postIntent rt inv post args).run s = .ok id t) : ∃ u b, t = Ledger.setData u post.book (.intentBook b) := by
  simp only [postIntent, Exec.bind_check, exists_const] at ran
  obtain ⟨-, -, -, cfg, -, -, inst, -, -, -, bump, -, -, -, -, -, collateralReserve, -, b, -, feeBuffer, -, totalReserve, -,
    ran⟩ := ran
  split at ran
  next session _ =>
    simp only [Exec.bind_ok] at ran
    obtain ⟨_, _, -, refund, _, -, _, u, -, posted⟩ := ran
    obtain ⟨_, b', -, -, rfl⟩ := atBook_ok posted
    exact ⟨u, b', rfl⟩
  next =>
    simp only [Exec.bind_ok] at ran
    obtain ⟨refund, _, -, _, u, -, posted⟩ := ran
    obtain ⟨_, b', -, -, rfl⟩ := atBook_ok posted
    exact ⟨u, b', rfl⟩

/-- Looking at the book that was written last changes nothing. -/
theorem look_eq {α : Type} {k : Pubkey} {m : BookM α} {a : α} (looks : Exec.Keeps Eq m)
    (written : ∃ u b, s = Ledger.setData u k (.intentBook b)) (ran : (atBook rt inv k m).run s = .ok a t) : t = s := by
  obtain ⟨u, b, rfl⟩ := written
  obtain ⟨x, y, held, inner, rfl⟩ := atBook_ok ran
  rw [Ledger.data_setData_self] at held
  cases held
  rw [← looks.ok inner, Ledger.setData_setData]

/-- A post without a match is the start of the post with one. Then the match is tried, if there is one. -/
theorem doPostIntentInner_split {post : PostCtx} {args : PostIntentArgs} {u : Unit} (tries : args.tryMatch ≠ 0)
    (ran : (doPostIntentInner rt inv post args).run s = .ok u t) :
    ∃ mid, (doPostIntentInner rt inv post { args with tryMatch := 0 }).run s = .ok () mid ∧
      (t = mid ∨ ∃ ctx longId shortId caught, TriesMatch inv post args s ctx longId shortId mid ∧
        (Exec.swallow (matchPairCore rt inv ctx longId shortId)).run mid = .ok caught t) := by
  rw [doPostIntentInner, Exec.bind_ok] at ran
  obtain ⟨id, mid, posted, matched⟩ := ran
  have still : (doPostIntentInner rt inv post { args with tryMatch := 0 }).run s = .ok () mid := by
    have plainly : (postIntent rt inv post { args with tryMatch := 0 }).run s = .ok id mid := posted
    rw [doPostIntentInner, Exec.run_bind_of_ok plainly]
    exact Exec.when_ok.mpr (.inr ⟨not_not.mpr rfl, rfl⟩)
  refine ⟨mid, still, ?_⟩
  rcases Exec.when_ok.mp matched with ⟨-, matched⟩ | ⟨impossible, -⟩
  swap
  · exact absurd tries impossible
  unfold inlineMatch at matched
  split at matched
  next counterpartyMargin pmlc system sched takerVolume makerVolume treasury rest given =>
    rw [Exec.bind_ok] at matched
    obtain ⟨counterparty, v, looked, matched⟩ := matched
    have same : v = mid := look_eq (keeps_findOverlapOnSide _ _ _ _) (postIntent_writes_book posted) looked
    rw [same] at looked matched
    split at matched
    next other =>
      simp only [Exec.bind_ok, Exec.pure_ok] at matched
      obtain ⟨caught, _, swallowed, -, rfl⟩ := matched
      refine .inr ⟨inlineMatchCtx post args counterpartyMargin pmlc sched takerVolume makerVolume treasury,
        if args.side.toNat = SIDE_LONG then id else other, if args.side.toNat = SIDE_LONG then other else id, caught,
        ⟨tries, id, mid, other, counterpartyMargin, pmlc, system, sched, takerVolume, makerVolume, treasury, rest, posted,
          given, looked, rfl, ?_⟩, ?_⟩
      · split
        · rfl
        · rfl
      · unfold inlineMatchPair at swallowed
        split at swallowed
        next long => simpa only [if_pos long] using swallowed
        next short => simpa only [if_neg short] using swallowed
    next => exact .inl (Exec.pure_ok.mp matched).2.symm
  next => exact .inl (Exec.pure_ok.mp matched).2.symm

/-- A match is tried from what the post leaves without it. -/
theorem TriesMatch.run_plain {post : PostCtx} {args : PostIntentArgs} {ctx : MatchCtx} {longId shortId : ℕ} {v : Ledger}
    (tries : TriesMatch inv post args s ctx longId shortId v) :
    (doPostIntentInner rt inv post { args with tryMatch := 0 }).run s = .ok () v := by
  obtain ⟨-, id, mid, _, _, _, _, _, _, _, _, _, posted, -, looked, -, -⟩ := tries
  have same : v = mid := look_eq (keeps_findOverlapOnSide _ _ _ _) (postIntent_writes_book posted) looked
  rw [same]
  have plainly : (postIntent rt inv post { args with tryMatch := 0 }).run s = .ok id mid := posted
  rw [doPostIntentInner, Exec.run_bind_of_ok plainly]
  exact Exec.when_ok.mpr (.inr ⟨not_not.mpr rfl, rfl⟩)

namespace Call

variable {c : Call rt} {ctx : MatchCtx} {longId shortId : ℕ} {v : Ledger}

/-- A call that tries a match as a post runs its post, with the match and without. -/
theorem Matches.of_post (tries : c.instruction.triesMatch = true) (matching : c.Matches s ctx longId shortId v) :
    ∃ post args, TriesMatch c.inv post args s ctx longId shortId v ∧
      (process rt c.inv c.instruction).run s = (doPostIntentInner rt c.inv post args).run s ∧
      (process rt c.inv c.plain.instruction).run s = (doPostIntentInner rt c.inv post { args with tryMatch := 0 }).run s := by
  obtain ⟨inv, instr⟩ := c
  cases instr with
  | postIntent args =>
    obtain ⟨post, u, unpacked, matching⟩ := matching
    obtain ⟨rfl, -⟩ := unpackPostIntent_ok unpacked
    exact ⟨post, args, matching, Exec.run_bind_of_ok unpacked, Exec.run_bind_of_ok unpacked⟩
  | postIntentDelegated args =>
    obtain ⟨post, u, unpacked, matching⟩ := matching
    obtain ⟨rfl, -⟩ := unpackPostIntentDelegated_ok unpacked
    exact ⟨post, args, matching, Exec.run_bind_of_ok unpacked, Exec.run_bind_of_ok unpacked⟩
  | _ => cases tries

theorem Matches.eq_plain (tries : c.instruction.triesMatch = true) (matching : c.Matches s ctx longId shortId v) :
    v = execute rt c.plain s := by
  obtain ⟨post, args, matching, -, plainly⟩ := matching.of_post tries
  exact (execute_of_ran (plainly.trans matching.run_plain)).symm

/-- A post that returns does what it does without a match. Then the match is tried, if there is one. -/
theorem split (tries : c.instruction.triesMatch = true) (returns : c.returns s = true) :
    execute rt c s = execute rt c.plain s ∨
      ∃ ctx longId shortId caught, c.Matches s ctx longId shortId (execute rt c.plain s) ∧
        (Exec.swallow (matchPairCore rt c.inv ctx longId shortId)).run (execute rt c.plain s) =
          .ok caught (execute rt c s) := by
  have ran := c.ran returns
  obtain ⟨inv, instr⟩ := c
  cases instr with
  | postIntent args =>
    have some_match : args.tryMatch ≠ 0 := of_decide_eq_true tries
    change (processPostIntent rt inv args).run s = _ at ran
    rw [processPostIntent, Exec.bind_ok] at ran
    obtain ⟨post, u, unpacked, ran⟩ := ran
    obtain ⟨mid, still, rest⟩ := doPostIntentInner_split some_match ran
    have here : execute rt (plain ⟨inv, .postIntent args⟩) s = mid := by
      apply execute_of_ran (u := ())
      change (processPostIntent rt inv { args with tryMatch := 0 }).run s = _
      rw [processPostIntent, Exec.run_bind_of_ok unpacked, still]
    rw [here]
    refine rest.imp_right ?_
    rintro ⟨ctx, longId, shortId, caught, matching, tried⟩
    exact ⟨ctx, longId, shortId, caught, ⟨post, u, unpacked, matching⟩, tried⟩
  | postIntentDelegated args =>
    have some_match : args.tryMatch ≠ 0 := of_decide_eq_true tries
    change (processPostIntentDelegated rt inv args).run s = _ at ran
    rw [processPostIntentDelegated, Exec.bind_ok] at ran
    obtain ⟨post, u, unpacked, ran⟩ := ran
    obtain ⟨mid, still, rest⟩ := doPostIntentInner_split some_match ran
    have here : execute rt (plain ⟨inv, .postIntentDelegated args⟩) s = mid := by
      apply execute_of_ran (u := ())
      change (processPostIntentDelegated rt inv { args with tryMatch := 0 }).run s = _
      rw [processPostIntentDelegated, Exec.run_bind_of_ok unpacked, still]
    rw [here]
    refine rest.imp_right ?_
    rintro ⟨ctx, longId, shortId, caught, matching, tried⟩
    exact ⟨ctx, longId, shortId, caught, ⟨post, u, unpacked, matching⟩, tried⟩
  | _ => cases tries

end Call

/-! ### Runs -/

/-- Whatever match the call tries as a post leaves no trace or would be accepted on its own. -/
def Call.Clears (c : Call rt) (s : Ledger) : Prop :=
  c.returns s = true → c.instruction.triesMatch = true → ∀ ctx longId shortId v, c.Matches s ctx longId shortId v →
    execute rt c s = v ∨ ∃ args : MatchPairArgs, args.longIntentId.toNat = longId ∧ args.shortIntentId.toNat = shortId ∧
      (c.standalone ctx (.matchPair args)).returns v = true

/-- A call that clears is its post and then its match, as two calls. -/
theorem Call.Clears.runCalls_eq {c : Call rt} (clears : c.Clears s) :
    ∃ calls, (∀ d ∈ calls, d.instruction = c.instruction.withoutMatch ∨ ∃ args, d.instruction = .matchPair args) ∧
      execute rt c s = runCalls rt calls s := by
  by_cases returns : c.returns s = true
  swap
  · exact ⟨[], by simp, execute_of_not_returns (Bool.eq_false_of_not_eq_true returns)⟩
  by_cases tries : c.instruction.triesMatch = true
  swap
  · have still := c.instruction.withoutMatch_of_triesMatch (Bool.eq_false_of_not_eq_true tries)
    exact ⟨[c], by simp [still], rfl⟩
  have posted : ∃ calls, (∀ d ∈ calls, d.instruction = c.instruction.withoutMatch ∨ ∃ args, d.instruction = .matchPair args) ∧
      execute rt c.plain s = runCalls rt calls s := ⟨[c.plain], by simp [plain], rfl⟩
  rcases Call.split tries returns with same | ⟨ctx, longId, shortId, caught, matching, tried⟩
  · rwa [same]
  · rcases clears returns tries _ _ _ _ matching with same | ⟨args, rfl, rfl, accepted⟩
    · rwa [same]
    · exact ⟨[c.plain, c.standalone ctx (.matchPair args)], by simp [plain, standalone],
        Call.execute_standalone accepted tried⟩

/-- The ledgers that calls of some kind lead to, when every match that a post tries clears. -/
inductive Cleared (rt : Runtime) (allowed : Instruction → Prop) : Ledger → Prop where
  | genesis {s : Ledger} : Genesis rt s → Cleared rt allowed s
  | call {s : Ledger} (c : Call rt) : Cleared rt allowed s → allowed c.instruction → c.Clears s →
      Cleared rt allowed (execute rt c s)

/-- Matches that posts try add nothing: as long as each of them leaves no trace or would be accepted on its own, the
program comes to exactly the ledgers that it comes to when posts do not match. -/
theorem cleared_iff_reachable {allowed : Instruction → Prop} (still : ∀ i, allowed i → allowed i.withoutMatch)
    (pairs : ∀ args, allowed (.matchPair args)) :
    Cleared rt allowed s ↔ Reachable rt (fun i => allowed i ∧ i.triesMatch = false) s := by
  constructor
  · intro cleared
    induction cleared with
    | genesis start => exact .genesis start
    | @call s c _ may clears ih =>
      obtain ⟨calls, kinds, same⟩ := clears.runCalls_eq
      rw [same]
      refine Reachable.runCalls (fun d member => ?_) ih
      rcases kinds d member with kind | ⟨args, kind⟩
      · rw [kind]
        exact ⟨still _ may, Instruction.triesMatch_withoutMatch _⟩
      · rw [kind]
        exact ⟨pairs args, rfl⟩
  · intro reached
    induction reached with
    | genesis start => exact .genesis start
    | @call s c _ may ih =>
      refine .call c ih may.1 fun _ tries => ?_
      rw [may.2] at tries
      cases tries

namespace Sample

/-- Bob has posted a short intent. -/
def offering : List (Call Runtime.sample) := launch 100 ++ [openMarket poly, post poly bob 1 1]

/-- Alice posts a long one, and has it matched against his. -/
def postCrossing : Call Runtime.sample :=
  call (.postIntent ⟨0, 500000000000000000, 1, 100, 0, 1⟩) [alice]
    [alice, config, instrument poly, book poly, marginOf alice, marginOf bob, pmlc poly 3, systemProgram, feeSchedule,
      volumeOf alice, volumeOf bob, treasury]

theorem clears_postCrossing : postCrossing.Clears (runCalls Runtime.sample offering genesis) := by
  intro _ tries ctx longId shortId v matching
  have plainly := matching.eq_plain tries
  obtain ⟨post, u, unpacked, -, id, mid, other, _, _, _, _, _, _, _, _, posted, given, looked, rfl, ids⟩ := matching
  obtain ⟨rfl, -⟩ := unpackPostIntent_ok unpacked
  have which : ((unpackPostIntent Runtime.sample postCrossing.inv).run (runCalls Runtime.sample offering genesis)).value? =
      some ⟨alice, alice, config, instrument poly, book poly, marginOf alice, none, 5⟩ := by decide +kernel
  rw [unpacked] at which
  cases which
  have numbered : ((postIntent Runtime.sample postCrossing.inv
      ⟨alice, alice, config, instrument poly, book poly, marginOf alice, none, 5⟩
      ⟨0, 500000000000000000, 1, 100, 0, 1⟩).run (runCalls Runtime.sample offering genesis)).value? = some 2 := by decide +kernel
  rw [posted] at numbered
  cases numbered
  cases given
  have same : v = mid := look_eq (keeps_findOverlapOnSide _ _ _ _) (postIntent_writes_book posted) looked
  rw [← same, plainly] at looked
  change (atBook Runtime.sample postCrossing.inv (book poly) (Book.findOverlapOnSide SIDE_SHORT 500000000000000000 1 2)).run _ = _
    at looked
  have found : ((atBook Runtime.sample postCrossing.inv (book poly) (Book.findOverlapOnSide SIDE_SHORT 500000000000000000 1 2)).run
      (execute Runtime.sample postCrossing.plain (runCalls Runtime.sample offering genesis))).value? = some (some 1) := by
    decide +kernel
  rw [looked] at found
  cases found
  cases ids
  rw [plainly]
  refine .inr ⟨⟨2, 1, 1⟩, rfl, rfl, ?_⟩
  decide +kernel

end Sample

/-- Alice's post and its match come to a ledger that posts without matches come to as well. -/
theorem cleared_iff_reachable_crossing :
    Reachable Runtime.sample (fun i => i.expands = false ∧ i.triesMatch = false)
      (execute Runtime.sample Sample.postCrossing (runCalls Runtime.sample Sample.offering Sample.genesis)) ∧
    Sample.postCrossing.returns (runCalls Runtime.sample Sample.offering Sample.genesis) = true := by
  have still : ∀ i : Instruction, i.expands = false → i.withoutMatch.expands = false := by
    intro i plain
    cases i with
    | expandIntentBook _ => cases plain
    | _ => rfl
  have pairs : ∀ args, (Instruction.matchPair args).expands = false := fun _ => rfl
  have offered :
      Cleared Runtime.sample (fun i => i.expands = false) (runCalls Runtime.sample Sample.offering Sample.genesis) :=
    (cleared_iff_reachable still pairs).mpr (Sample.reachable (by decide +kernel))
  refine ⟨(cleared_iff_reachable still pairs).mp ?_, by decide +kernel⟩
  exact offered.call Sample.postCrossing rfl Sample.clears_postCrossing

end Polyleverage
