import Polyleverage.Guarantees.Positions
import Polyleverage.Guarantees.Sessions
import Polyleverage.Invariants.Intake
import Polyleverage.Invariants.Issued

/-! # The pause

While the program is paused no position may appear or change hands or status, and no intent may enter a
book. Posts, novations, re-entries and settlements check the pause. Matches and substitutions do not.
-/

namespace Polyleverage

variable {rt : Runtime} {inv : rt.Invocation} {s t : Ledger} {k : Pubkey} {u : Unit}

/-- The configuration says that the program is paused. -/
def Ledger.Paused (rt : Runtime) (s : Ledger) : Prop :=
  ∃ k c, s.get k = ⟨rt.programId, .programConfig c⟩ ∧ c.globalPause ≠ 0

/-- Every position and every intent was there before, with its owners, its status and its id. -/
structure Frozen (rt : Runtime) (s t : Ledger) : Prop where
  pmlcs : ∀ k p', t.get k = ⟨rt.programId, .pmlc p'⟩ → ∃ p, s.get k = ⟨rt.programId, .pmlc p⟩ ∧
    p'.longOwner = p.longOwner ∧ p'.shortOwner = p.shortOwner ∧ p'.status = p.status
  intents : ∀ k b', t.get k = ⟨rt.programId, .intentBook b'⟩ → ∀ (i : ℕ) node', b'.nodes[i]? = some (.intent node') →
    ∃ (b : IntentBook) (j : ℕ) (node : IntentNode), s.get k = ⟨rt.programId, .intentBook b⟩ ∧
      b.nodes[j]? = some (.intent node) ∧ node.id = node'.id

/-- The book holds the two intents of the pair, of two traders. -/
def TwoTraders (inv : rt.Invocation) (s : Ledger) (args : MatchPairArgs) : Prop :=
  ∃ book b pair, inv.accounts[2]? = some book ∧ s.data book = .intentBook b ∧
    Book.findPair args.longIntentId.toNat args.shortIntentId.toNat inv.slot b = .ok pair ∧
    b.trader pair.long.ownerSeat ≠ b.trader pair.short.ownerSeat

/-- A call that opens a position or hands one over without asking for the pause: every match, and every
substitution between two traders. -/
def Call.Unguarded (c : Call rt) (s : Ledger) : Prop :=
  match c.instruction with
  | .matchPair _ => True
  | .matchBestAvailable => True
  | .matchSubstitute args => TwoTraders c.inv s args
  | .matchSubstituteWithSettle args => TwoTraders c.inv s args
  | _ => False

/-- The instruction is for a running program only. -/
def Instruction.needsRunning : Instruction → Bool
  | postIntent _ => true
  | postIntentDelegated _ => true
  | createSession _ => true
  | liquidate _ => true
  | resolve _ => true
  | closeMutual _ => true
  | claimReentry _ => true
  | novate _ => true
  | _ => false

/-! ### Guarded instructions -/

/-- A configuration of the program that is not paused. -/
def Running (rt : Runtime) (s : Ledger) : Prop :=
  ∃ k c, s.owner k = rt.programId ∧ s.data k = .programConfig c ∧ c.globalPause = 0

/-- There is one configuration, and it is paused or not. -/
theorem Genuine.not_running (genuine : Genuine rt s) (paused : s.Paused rt) : ¬ Running rt s := by
  obtain ⟨k, c, held, on⟩ := paused
  rintro ⟨k', c', owned, held', off⟩
  have here := genuine.fits k (congrArg Account.owner held)
  have here' := genuine.fits k' owned
  rw [Ledger.data, held] at here
  rw [held'] at here'
  obtain rfl : k = k' := here.symm.trans here'
  rw [Ledger.data, held] at held'
  cases held'
  exact on off

theorem Settling.isRunning {index type : ℕ} (x : Settling rt inv s index type) : Running rt s :=
  ⟨x.config, x.cfg, x.owned _ (by simp), x.config_eq, x.running⟩

theorem running_of_postIntent {ctx : PostCtx} {args : PostIntentArgs} {id : ℕ}
    (ran : (postIntent rt inv ctx args).run s = .ok id t) : Running rt s := by
  simp only [postIntent, Exec.bind_check, exists_const, ne_eq, not_not] at ran
  obtain ⟨-, -, owned, cfg, held, running, -⟩ := ran
  exact ⟨ctx.config, cfg, owned _ (by simp), held, running⟩

/-- The guarded instructions ask for the pause. -/
theorem running_of_process {instr : Instruction} (needs : instr.needsRunning = true)
    (ran : (process rt inv instr).run s = .ok () t) : Running rt s := by
  cases instr with
  | postIntent args =>
    simp only [process, processPostIntent, doPostIntentInner, Exec.bind_ok] at ran
    obtain ⟨ctx, s1, unpacked, id, s2, posted, -⟩ := ran
    obtain ⟨rfl, -⟩ := unpackPostIntent_ok unpacked
    exact running_of_postIntent posted
  | postIntentDelegated args =>
    obtain ⟨ctx, id, mid, -, -, -, -, -, -, -, -, -, -, -, -, posted, -⟩ := processPostIntentDelegated_ok ran
    exact running_of_postIntent posted
  | createSession args =>
    simp only [process] at ran
    unfold processCreateSession at ran
    split at ran
    · simp only [Exec.bind_check, exists_const] at ran
      obtain ⟨-, -, -, owned, -, cfg, ⟨held, running⟩, -⟩ := ran
      exact ⟨_, cfg, owned _ (by simp), held, running⟩
    · cases ran
  | liquidate offset =>
    obtain ⟨x, -⟩ := processLiquidate_ok ran
    exact x.isRunning
  | resolve offset =>
    obtain ⟨x, -⟩ := processResolve_ok ran
    exact x.isRunning
  | closeMutual offset =>
    obtain ⟨x, -⟩ := processCloseMutual_ok ran
    exact x.isRunning
  | claimReentry args =>
    simp only [process] at ran
    unfold processClaimReentry at ran
    split at ran
    · simp only [Exec.bind_check, exists_const] at ran
      obtain ⟨-, -, -, -, owned, cfg, ⟨held, running⟩, -⟩ := ran
      exact ⟨_, cfg, owned _ (by simp), held, running⟩
    · cases ran
  | novate side =>
    simp only [process] at ran
    unfold processNovate at ran
    split at ran
    · simp only [Exec.bind_check, exists_const] at ran
      obtain ⟨-, -, -, -, -, owned, cfg, ⟨held, running⟩, -⟩ := ran
      exact ⟨_, cfg, owned _ (by simp), held, running⟩
    · cases ran
  | _ => cases needs

/-! ### What stays frozen -/

theorem Frozen.refl (rt : Runtime) (s : Ledger) : Frozen rt s s where
  pmlcs _ p held := ⟨p, held, rfl, rfl, rfl⟩
  intents _ b held i node slot := ⟨b, i, node, held, slot, rfl⟩

/-- The intents of a ledger whose books took in none. -/
theorem intents_of_shelves (shelves : Shelves NoNewIntents s t) {b' : IntentBook} {i : ℕ} {node' : IntentNode}
    (held : t.get k = ⟨rt.programId, .intentBook b'⟩) (slot : b'.nodes[i]? = some (.intent node')) :
    ∃ (b : IntentBook) (j : ℕ) (node : IntentNode), s.get k = ⟨rt.programId, .intentBook b⟩ ∧
      b.nodes[j]? = some (.intent node) ∧ node.id = node'.id := by
  obtain ⟨b, before, old⟩ := shelves.back held
  obtain ⟨node, slot', same⟩ := old i node' slot
  exact ⟨b, i, node, before, slot', same⟩

/-- An instruction that leaves no position and takes no intent into a book. -/
theorem frozen_of_shelves {instr : Instruction} (unleft : AccountKind.pmlc ∉ instr.leaves)
    (ran : (process rt inv instr).run s = .ok () t) (shelves : Shelves NoNewIntents s t) : Frozen rt s t where
  pmlcs k p' held := by
    have same := same_of_touches ((within_process rt inv instr).keeps.ok ran) unleft held
    exact ⟨p', same ▸ held, rfl, rfl, rfl⟩
  intents _ _ held _ _ slot := intents_of_shelves shelves held slot

/-- A new book has no intents. -/
theorem frozen_processCreateInstrument {args : CreateInstrumentArgs}
    (ran : (processCreateInstrument rt inv args).run s = .ok () t) : Frozen rt s t where
  pmlcs k p' held := by
    have touches := (within_process rt inv (.createInstrument args)).keeps.ok ran
    have same := same_of_touches touches (by simp [Instruction.leaves]) held
    exact ⟨p', same ▸ held, rfl, rfl, rfl⟩
  intents k b' held i node' slot := by
    rcases books_of_createInstrument ran held with before | ⟨instrument, capacity, bump, -, -, rfl⟩
    · exact ⟨b', i, node', before, slot, rfl⟩
    · simp [IntentBook.initIntentBook, List.getElem?_replicate] at slot

/-- The instruction opens positions or hands them over. -/
def Instruction.fills : Instruction → Bool
  | matchPair _ => true
  | matchBestAvailable => true
  | matchSubstitute _ => true
  | matchSubstituteWithSettle _ => true
  | _ => false

theorem frozen_of_process {instr : Instruction} (free : instr.needsRunning = false) (filled : instr.fills = false)
    (ran : (process rt inv instr).run s = .ok () t) : Frozen rt s t := by
  have unleft : AccountKind.pmlc ∉ instr.leaves := by
    cases instr <;> simp_all [Instruction.needsRunning, Instruction.fills, Instruction.leaves, Instruction.writes]
  by_cases creates : instr.creates = true
  · cases instr with
    | createInstrument args => exact frozen_processCreateInstrument ran
    | _ => cases creates
  apply frozen_of_shelves unleft ran
  by_cases unwritten : AccountKind.intentBook ∈ instr.writes
  · have keeps : Exec.Keeping (Shelves NoNewIntents) (process rt inv instr) := by
      cases instr with
      | cancelIntent id => exact inferInstanceAs (Exec.Keeping _ (processCancelIntent rt inv id))
      | cancelIntentDelegated id => exact inferInstanceAs (Exec.Keeping _ (processCancelIntentDelegated rt inv id))
      | pruneExpired => exact inferInstanceAs (Exec.Keeping _ (processPruneExpired rt inv))
      | expandIntentBook n => exact inferInstanceAs (Exec.Keeping _ (processExpandIntentBook rt inv n))
      | _ => simp_all [Instruction.needsRunning, Instruction.fills, Instruction.writes]
    exact keeps.keeps.ok ran
  · exact shelves_of_touches ((within_process rt inv instr).keeps.ok ran) unwritten
      (Instruction.intentBook_notMem_leaves (by simpa using creates) unwritten)

/-! ### Matches -/

/-- A match puts a position where none was. -/
theorem matchPairCore_opens {ctx : MatchCtx} {longId shortId : ℕ} (ran : (matchPairCore rt inv ctx longId shortId).run s = .ok u t) :
    ∃ p', t.get ctx.pmlc = ⟨rt.programId, .pmlc p'⟩ ∧ (s.data ctx.pmlc).kind ≠ .pmlc := by
  simp only [matchPairCore, Exec.bind_check, exists_const] at ran
  obtain ⟨inst, -, -, -, ran⟩ := ran
  rw [Exec.bind_ok] at ran
  obtain ⟨r, s1, matched, ran⟩ := ran
  simp only [Exec.bind_check, exists_const] at ran
  obtain ⟨-, -, ran⟩ := ran
  simp only [Exec.bind_ok] at ran
  obtain ⟨fee, s2, charged, _, s3, long, _, s4, short, opened⟩ := ran
  let kinds : List AccountKind := [.intentBook, .marginAccount, .userVolume, .feeTreasury, .raw]
  have first : Touches kinds kinds s s1 := Within.keeps.ok matched
  have second : Touches kinds kinds s1 s2 := Within.keeps.ok charged
  have third : Touches kinds kinds s2 s3 := Within.keeps.ok long
  have fourth : Touches kinds kinds s3 s4 := Within.keeps.ok short
  have before := Trans.trans first (Trans.trans second (Trans.trans third fourth))
  simp only [openPmlc, Exec.bind_ok] at opened
  obtain ⟨_, s5, created, notional, _, notional_eq, sizeFp, _, sizeFp_eq, wrote⟩ := opened
  obtain ⟨-, rfl⟩ := Exec.ofExcept_ok.mp notional_eq
  obtain ⟨-, rfl⟩ := Exec.ofExcept_ok.mp sizeFp_eq
  obtain ⟨vacant, rfl⟩ := createAccount_ok created
  obtain ⟨rfl, -⟩ := writeData_ok wrote
  refine ⟨_, by rw [Ledger.get_setData_self, Ledger.owner, Store.get_set_self], fun position => ?_⟩
  rw [before.get_eq (by simp [kinds, position])] at vacant
  rw [Ledger.data, vacant] at position
  cases position

theorem not_frozen_of_opens {p' : Pmlc} (after : t.get k = ⟨rt.programId, .pmlc p'⟩) (before : (s.data k).kind ≠ .pmlc) :
    ¬ Frozen rt s t := by
  intro frozen
  obtain ⟨p, held, -⟩ := frozen.pmlcs k p' after
  rw [Ledger.data, held] at before
  exact before rfl

theorem not_frozen_processMatchPair {args : MatchPairArgs} (ran : (processMatchPair rt inv args).run s = .ok () t) :
    ¬ Frozen rt s t := by
  simp only [processMatchPair, Exec.bind_ok] at ran
  obtain ⟨ctx, _, unpacked, matched⟩ := ran
  obtain ⟨rfl, -⟩ := unpackMatchAccounts_ok unpacked
  obtain ⟨p', after, before⟩ := matchPairCore_opens matched
  exact not_frozen_of_opens after before

theorem not_frozen_processMatchBestAvailable (ran : (processMatchBestAvailable rt inv).run s = .ok () t) : ¬ Frozen rt s t := by
  simp only [processMatchBestAvailable, Exec.bind_ok, Exec.orErr_ok] at ran
  obtain ⟨ctx, _, unpacked, pair, s1, scanned, ⟨longId, shortId⟩, _, ⟨-, rfl⟩, matched⟩ := ran
  obtain ⟨rfl, -⟩ := unpackMatchAccounts_ok unpacked
  obtain ⟨p', after, before⟩ := matchPairCore_opens matched
  have looked : Touches [.intentBook] [.intentBook] s s1 := Within.keeps.ok scanned
  apply not_frozen_of_opens after
  intro position
  rw [Ledger.data, looked.get_eq (by simp [position])] at before
  exact before position

/-! ### Substitutions -/

/-- Handing a side over changes no owner exactly when the side was the new owner's. -/
theorem Pmlc.handedOver_owners {p : Pmlc} {side : ℕ} {owner : Pubkey} {nowSlot : ℕ} :
    (p.handedOver side owner nowSlot).longOwner = p.longOwner ∧ (p.handedOver side owner nowSlot).shortOwner = p.shortOwner ↔
      owner = p.owner side := by
  unfold Pmlc.handedOver Pmlc.setOwner Pmlc.owner
  split <;> simp

theorem Pmlc.handedOver_status (p : Pmlc) (side : ℕ) (owner : Pubkey) (nowSlot : ℕ) :
    (p.handedOver side owner nowSlot).status = p.status := by
  unfold Pmlc.handedOver Pmlc.setOwner
  split <;> rfl

/-- The side a substitution hands over, and to whom. -/
theorem doSubstitute_ok {args : MatchPairArgs} {withSettle : Bool} (ran : (doSubstitute rt inv args withSettle).run s = .ok () t) :
    ∃ pmlc p side owner, s.get pmlc = ⟨rt.programId, .pmlc p⟩ ∧
      t.get pmlc = ⟨rt.programId, .pmlc (p.handedOver side owner inv.slot)⟩ ∧
      (∀ j o q, j ≠ pmlc → t.get j = ⟨o, .pmlc q⟩ → t.get j = s.get j) ∧ (owner = p.owner side ↔ ¬ TwoTraders inv s args) := by
  unfold doSubstitute at ran
  split at ran
  next substitutor instrument book pmlc substitutorMargin counterpartyMargin rest accounts =>
    simp only [Exec.bind_check, exists_const, ne_eq, not_not, Pmlc.requireLive_ok] at ran
    obtain ⟨-, -, -, -, -, owned, inst, -, -, -, p, held, live, -, -, ran⟩ := ran
    rw [Exec.bind_ok] at ran
    obtain ⟨c, s1, substituted, ran⟩ := ran
    simp only [Exec.bind_check] at ran
    obtain ⟨delta, -, _, -, _, -, ran⟩ := ran
    simp only [Exec.bind_ok] at ran
    obtain ⟨_, s2, left, _, s3, entered, handed⟩ := ran
    have first : Touches [.intentBook, .marginAccount] [.intentBook, .marginAccount] s s1 := Within.keeps.ok substituted
    have second : Touches [.intentBook, .marginAccount] [.intentBook, .marginAccount] s1 s2 := Within.keeps.ok left
    have third : Touches [.intentBook, .marginAccount] [.intentBook, .marginAccount] s2 s3 := Within.keeps.ok entered
    have before := get_eq_of_data (owned _ (by simp)) held
    obtain ⟨after, others⟩ := updatePmlc_after (Trans.trans first (Trans.trans second third)) (by simp) before handed
    refine ⟨pmlc, p, c.pmlcSide, c.newPmlcOwner, before, after, fun j o q other now => others j o q other (.inr now), ?_⟩
    obtain ⟨b, b', at_book, inner, -⟩ := atBook_ok substituted
    have book_at : inv.accounts[2]? = some book := by rw [accounts]; rfl
    simp only [substituteInBook, Exec.bind_check, exists_const, ne_eq, not_not] at inner
    obtain ⟨pair, found, -, longSeat, long, shortSeat, short, party, mine, ⟨filled, longRelease, shortRelease⟩, -, inner⟩ := inner
    rw [Exec.bind_ok] at inner
    obtain ⟨_, b1, -, inner⟩ := inner
    obtain ⟨rfl, -⟩ := Exec.pure_ok.mp inner
    have longTrader := IntentBook.trader_of_seat (IntentBook.seat_eq_ok.mp long)
    have shortTrader := IntentBook.trader_of_seat (IntentBook.seat_eq_ok.mp short)
    have two : TwoTraders inv s args ↔ longSeat.trader ≠ shortSeat.trader := by
      constructor
      · rintro ⟨book', b', pair', book_at', at_book', found', apart⟩
        rw [book_at] at book_at'
        cases book_at'
        rw [at_book] at at_book'
        cases at_book'
        rw [found] at found'
        cases found'
        rw [longTrader, shortTrader] at apart
        simpa using apart
      · intro apart
        exact ⟨book, b, pair, book_at, at_book, found, by simpa [longTrader, shortTrader] using apart⟩
    rw [two, ne_eq, not_not]
    dsimp only at mine ⊢
    rw [mine]
    by_cases isLong : longSeat.trader = substitutor
    · rw [if_pos isLong, isLong, eq_comm]
    · rw [if_neg isLong]
      simp only [not_and, not_not] at party
      rw [party isLong]
  · cases ran

theorem frozen_doSubstitute {args : MatchPairArgs} {withSettle : Bool} (ran : (doSubstitute rt inv args withSettle).run s = .ok () t) :
    Frozen rt s t ↔ ¬ TwoTraders inv s args := by
  obtain ⟨pmlc, p, side, owner, before, after, others, same⟩ := doSubstitute_ok ran
  rw [← same]
  constructor
  · intro frozen
    obtain ⟨p', before', long, short, -⟩ := frozen.pmlcs pmlc _ after
    rw [before] at before'
    cases before'
    exact Pmlc.handedOver_owners.mp ⟨long, short⟩
  · intro kept
    have shelves : Shelves NoNewIntents s t := Exec.Keeping.keeps.ok ran
    obtain ⟨long, short⟩ := Pmlc.handedOver_owners.mpr kept
    constructor
    · intro k p' held
      by_cases here : k = pmlc
      · subst here
        rw [after] at held
        cases held
        exact ⟨p, before, long, short, p.handedOver_status side owner inv.slot⟩
      · exact ⟨p', others k _ p' here held ▸ held, rfl, rfl, rfl⟩
    · intro k b' held i node' slot
      exact intents_of_shelves shelves held slot

/-! ### What a pause freezes -/

/-- While the program is paused, a call that returns leaves positions and intents frozen exactly when it
is no match and no substitution between two traders; and a guarded one does not return. -/
theorem pause_freezes_iff {allowed : Instruction → Prop} (reached : Reachable rt allowed s) (paused : s.Paused rt) (c : Call rt) :
    (c.returns s = false → execute rt c s = s) ∧ (c.instruction.needsRunning = true → c.returns s = false) ∧
      (c.returns s = true → (Frozen rt s (execute rt c s) ↔ ¬ c.Unguarded s)) := by
  have genuine := genuine_of_reachable reached
  have guarded : c.returns s = true → c.instruction.needsRunning = false := by
    intro returns
    cases needs : c.instruction.needsRunning with
    | false => rfl
    | true => exact absurd (running_of_process needs (c.ran returns)) (genuine.not_running paused)
  refine ⟨execute_of_not_returns, fun needs => ?_, fun returns => ?_⟩
  · cases returns : c.returns s with
    | false => rfl
    | true => simp [guarded returns] at needs
  · have ran := c.ran returns
    have free := guarded returns
    obtain ⟨inv, instr⟩ := c
    cases instr with
    | matchPair args => simp [Call.Unguarded, not_frozen_processMatchPair ran]
    | matchBestAvailable => simp [Call.Unguarded, not_frozen_processMatchBestAvailable ran]
    | matchSubstitute args => exact frozen_doSubstitute ran
    | matchSubstituteWithSettle args => exact frozen_doSubstitute ran
    | _ => simp [Call.Unguarded, frozen_of_process free rfl ran]

namespace Sample

/-- Alice and Bob have crossing intents in the book when the admin pauses the program. -/
def pausing : List (Call Runtime.sample) :=
  launch 0 ++ [openMarket poly, post poly alice 0 1, post poly bob 1 1,
    call (.setGlobalPause true) [admin] [admin, config]]

def paused : Ledger := runCalls Runtime.sample pausing genesis

/-- Carol matches the two intents. -/
def pausedFill : Call Runtime.sample := fill poly alice bob 1 2 3

theorem paused_paused : paused.Paused Runtime.sample := by
  have owned : paused.owner config = Runtime.sample.programId := by decide +kernel
  have on : AccountData.loadProgramConfig (paused.data config) =
      .ok ⟨1, 255, admin, admin, oracle, 60⟩ := by decide +kernel
  rw [AccountData.loadProgramConfig_ok] at on
  exact ⟨config, _, get_eq_of_data owned on, by decide⟩

theorem pausedFill_returns : pausedFill.returns paused = true := by decide +kernel

end Sample

/-- A position is opened while the program is paused. -/
theorem pause_lets_matches_through : Reachable Runtime.sample (fun _ => True) Sample.paused ∧
    Sample.paused.Paused Runtime.sample ∧ ¬ Frozen Runtime.sample Sample.paused (execute Runtime.sample Sample.pausedFill Sample.paused) :=
  ⟨Sample.reachable fun _ _ => trivial, Sample.paused_paused,
    not_frozen_processMatchPair (Sample.pausedFill.ran Sample.pausedFill_returns)⟩

theorem pause_freezes_iff_paused : ¬ Frozen Runtime.sample Sample.paused (execute Runtime.sample Sample.pausedFill Sample.paused) ∧
    Frozen Runtime.sample Sample.paused
      (execute Runtime.sample (Sample.call (.cancelIntent 1) [Sample.alice]
        [Sample.alice, Sample.instrument Sample.poly, Sample.book Sample.poly, Sample.marginOf Sample.alice]) Sample.paused) := by
  have reached : Reachable Runtime.sample (fun _ => True) Sample.paused := Sample.reachable fun _ _ => trivial
  constructor
  · intro frozen
    exact ((pause_freezes_iff reached Sample.paused_paused Sample.pausedFill).2.2 Sample.pausedFill_returns).mp frozen trivial
  · exact ((pause_freezes_iff reached Sample.paused_paused _).2.2 (by decide +kernel)).mpr fun unguarded => unguarded

end Polyleverage
