import Polyleverage.Guarantees.Positions
import Polyleverage.Invariants.History
import Mathlib.Data.Nat.Bitwise

/-! # Re-entry rights

A position takes the re-entry flags of the two intents that it was opened from. A flag stands until the
owner of its side claims it, and no side is claimed twice. Whoever closes the account of a position that
is over takes the flags away with it, and anybody may close it.
-/

namespace Polyleverage

open Machine

variable {rt : Runtime} {inv : rt.Invocation} {s t : Ledger} {k : Pubkey} {side : ℕ} {c : Call rt}

/-! ### Flags -/

/-- The intent of a pair on this side. -/
def Book.Pair.intentOn (pair : Book.Pair) (side : ℕ) : IntentNode := if side = SIDE_LONG then pair.long else pair.short

theorem and_two (n : ℕ) : n &&& 2 = n / 2 % 2 * 2 := by
  calc n &&& 2 = n &&& 2 ^ 1 := rfl
    _ = (n.testBit 1).toNat * 2 ^ 1 := Nat.and_two_pow n 1
    _ = n / 2 % 2 * 2 := by rw [Nat.toNat_testBit, pow_one]

theorem reentryFlag_eq (isSide : side ∈ [SIDE_LONG, SIDE_SHORT]) :
    side = SIDE_LONG ∧ reentryFlag side = 1 ∨ side = SIDE_SHORT ∧ reentryFlag side = 2 := by
  rcases List.mem_pair.mp isSide with rfl | rfl
  · exact .inl ⟨rfl, rfl⟩
  · exact .inr ⟨rfl, rfl⟩

/-- A match hands on the re-entry flags of its two intents. -/
theorem matchInBook_flags {instrument pmlc : Pubkey} {bucket longId shortId nowSlot : ℕ} {b b' : IntentBook} {r : MatchResult}
    (ran : (matchInBook rt instrument pmlc bucket longId shortId nowSlot).run b = .ok r b') :
    ∃ pair, Book.findPair longId shortId nowSlot b = .ok pair ∧ ∀ side ∈ [SIDE_LONG, SIDE_SHORT],
      (r.flags &&& reentryFlag side ≠ 0 ↔ (pair.intentOn side).flags &&& INTENT_FLAG_REENTRY ≠ 0) := by
  simp only [matchInBook, Exec.bind_ok, Exec.rejectIf_ok, Exec.gets_ok, Exec.ofExcept_ok, Exec.pure_ok, not_not] at ran
  obtain ⟨pair, _, ⟨found, rfl⟩, _, _, ⟨_, rfl⟩, _, b1, written, id, b2, numbered, _, _, ⟨-, rfl⟩, _, _, ⟨_, rfl⟩, _, _, ⟨_, rfl⟩,
    rfl, rfl⟩ := ran
  refine ⟨pair, found, fun side isSide => ?_⟩
  rw [MatchResult.flags]
  rcases reentryFlag_eq isSide with ⟨rfl, flag⟩ | ⟨rfl, flag⟩
  · rw [flag]
    by_cases long : pair.long.flags &&& INTENT_FLAG_REENTRY = 0 <;>
      by_cases short : pair.short.flags &&& INTENT_FLAG_REENTRY = 0 <;> simp [Book.Pair.intentOn, long, short] <;> decide
  · rw [flag]
    have other : SIDE_SHORT ≠ SIDE_LONG := by decide
    by_cases long : pair.long.flags &&& INTENT_FLAG_REENTRY = 0 <;>
      by_cases short : pair.short.flags &&& INTENT_FLAG_REENTRY = 0 <;> simp [Book.Pair.intentOn, long, short, other] <;> decide

namespace Pmlc

@[simp] theorem flags_handedOver (p : Pmlc) (side : ℕ) (owner : Pubkey) (nowSlot : ℕ) :
    (p.handedOver side owner nowSlot).flags = p.flags := by
  unfold handedOver setOwner
  split <;> rfl

theorem flag_clearFlags_self (p : Pmlc) (isSide : side ∈ [SIDE_LONG, SIDE_SHORT]) :
    (p.clearFlags (reentryFlag side)).flags &&& reentryFlag side = 0 := by
  rcases reentryFlag_eq isSide with ⟨-, flag⟩ | ⟨-, flag⟩
  · simp only [flag, clearFlags, Nat.and_one_is_mod]
    omega
  · simp only [flag, clearFlags, and_two]
    omega

theorem flag_clearFlags_of_ne (p : Pmlc) {other : ℕ} (isSide : side ∈ [SIDE_LONG, SIDE_SHORT])
    (otherSide : other ∈ [SIDE_LONG, SIDE_SHORT]) (ne : other ≠ side) :
    (p.clearFlags (reentryFlag other)).flags &&& reentryFlag side = p.flags &&& reentryFlag side := by
  rcases reentryFlag_eq isSide with ⟨rfl, flag⟩ | ⟨rfl, flag⟩
  · rcases reentryFlag_eq otherSide with ⟨rfl, flag'⟩ | ⟨rfl, flag'⟩
    · exact absurd rfl ne
    · simp only [flag, flag', clearFlags, Nat.and_one_is_mod, and_two]
      omega
  · rcases reentryFlag_eq otherSide with ⟨rfl, flag'⟩ | ⟨rfl, flag'⟩
    · simp only [flag, flag', clearFlags, Nat.and_one_is_mod, and_two]
      omega
    · exact absurd rfl ne

end Pmlc

/-! ### Claiming and closing -/

/-- The side may still be claimed: its position is there, with the flag set. -/
def MayReenter (rt : Runtime) (s : Ledger) (k : Pubkey) (side : ℕ) : Prop :=
  ∃ p, s.get k = ⟨rt.programId, .pmlc p⟩ ∧ p.flags &&& reentryFlag side ≠ 0

/-- The call claims the side, whether there are contracts to post or not. -/
def Claims (s : Ledger) (c : Call rt) (k : Pubkey) (side : ℕ) : Prop :=
  WorksOn s c k ∧ ∃ args, c.instruction = .claimReentry args ∧ args.side.toNat = side

/-- The owner of the side signs a claim, or closes the account itself. -/
def GivesUp (s : Ledger) (c : Call rt) (k : Pubkey) (side : ℕ) : Prop :=
  ∃ p, s.get k = ⟨rt.programId, .pmlc p⟩ ∧ c.inv.isSigner (p.owner side) = true ∧
    (Claims s c k side ∨ WorksOn s c k ∧ c.instruction = .closePmlc)

/-- The call asks for the account of the position, for a recipient that signs. -/
def Call.Closes (c : Call rt) (k : Pubkey) : Prop :=
  c.instruction = .closePmlc ∧ ∃ recipient rest, c.inv.accounts = recipient :: k :: rest ∧
    c.inv.isSigner recipient = true ∧ c.inv.isWritable recipient = true ∧ c.inv.isWritable k = true

/-- In the run after `s` the side is claimed at most once, by its owner, and it may be claimed until the owner
gives it up. -/
structure ReentryKept (rt : Runtime) (calls : List (Call rt)) (s : Ledger) (k : Pubkey) (side : ℕ) : Prop where
  once : ∀ before c between c' after, calls = before ++ c :: (between ++ c' :: after) →
    Claims (runCalls rt before s) c k side → ¬ Claims (runCalls rt between (execute rt c (runCalls rt before s))) c' k side
  owned : ∀ before c after p, calls = before ++ c :: after → Claims (runCalls rt before s) c k side →
    (runCalls rt before s).get k = ⟨rt.programId, .pmlc p⟩ → c.inv.isSigner (p.owner side) = true
  stands : ∀ before after, calls = before ++ after →
    (∀ earlier c later, before = earlier ++ c :: later → ¬ GivesUp (runCalls rt earlier s) c k side) →
    MayReenter rt (runCalls rt before s) k side

/-- A claim is the owner's, of a side that may be claimed, and clears the flag. -/
theorem processClaimReentry_ok {args : ClaimReentryArgs} (ran : (processClaimReentry rt inv args).run s = .ok () t) :
    args.side.toNat ∈ [SIDE_LONG, SIDE_SHORT] ∧ ∃ pmlc p, inv.accounts[2]? = some pmlc ∧ s.data pmlc = .pmlc p ∧
      p.flags &&& reentryFlag args.side.toNat ≠ 0 ∧ inv.isSigner (p.owner args.side.toNat) = true := by
  unfold processClaimReentry at ran
  split at ran
  next owner config pmlc instrument book margin rest accounts =>
    simp only [Exec.bind_check, exists_const, ne_eq, not_not] at ran
    obtain ⟨signed, -, -, -, -, -, -, isSide, p, held, -, flagged, mine, -⟩ := ran
    refine ⟨?_, pmlc, p, by rw [accounts]; rfl, held, flagged, ?_⟩
    · simp only [List.mem_cons, List.not_mem_nil, or_false]
      tauto
    · rw [mine]
      exact signed
  · cases ran

theorem Claims.ran (claims : Claims s c k side) :
    side ∈ [SIDE_LONG, SIDE_SHORT] ∧ ∃ p, s.get k = ⟨rt.programId, .pmlc p⟩ ∧
      p.flags &&& reentryFlag side ≠ 0 ∧ c.inv.isSigner (p.owner side) = true := by
  obtain ⟨works, args, instruction, rfl⟩ := claims
  obtain ⟨p, held, -⟩ := pmlc_of_given works.given (Call.ran works.returns)
  have ran := Call.ran works.returns
  have given := works.given
  rw [instruction] at ran given
  obtain ⟨isSide, pmlc, p', given', held', flagged, signed⟩ := processClaimReentry_ok ran
  cases given.symm.trans given'
  rw [Ledger.data, held] at held'
  cases held'
  exact ⟨isSide, p, held, flagged, signed⟩

/-- The account of a position that is over is given back to whoever asks for it. -/
theorem Call.Closes.works {p : Pmlc} (closes : c.Closes k) (held : s.get k = ⟨rt.programId, .pmlc p⟩)
    (ended : p.status ∈ PMLC_STATUSES_OVER) : WorksOn s c k := by
  obtain ⟨instruction, recipient, rest, accounts, signed, writable, writable'⟩ := closes
  have ran : (process rt c.inv c.instruction).run s = .ok () (s.set k ⟨systemProgram, .raw (s.data k).length⟩) := by
    have owned : s.owner k = rt.programId := by rw [Ledger.owner, held]
    have data : s.data k = .pmlc p := by rw [Ledger.data, held]
    rw [instruction, process]
    unfold processClosePmlc
    rw [accounts]
    simp only [Exec.bind_check, exists_const, closeAccount]
    refine ⟨signed, writable, writable', ?_, p, data, ?_, ?_⟩
    · simpa using owned
    · exact not_not.mpr ended
    · simp [writable', owned]
  exact ⟨Call.returns_of_ran ran, by rw [instruction, Instruction.pmlcOf, accounts]; rfl⟩

theorem WorksOn.closes (works : WorksOn s c k) (instruction : c.instruction = .closePmlc) : c.Closes k := by
  refine ⟨instruction, ?_⟩
  have ran := Call.ran works.returns
  have given := works.given
  rw [instruction] at ran given
  rw [process] at ran
  unfold processClosePmlc at ran
  split at ran
  next recipient pmlc rest accounts =>
    simp only [Exec.bind_check, exists_const] at ran
    obtain ⟨signed, writable, writable', -⟩ := ran
    rw [Instruction.pmlcOf, accounts] at given
    cases given
    exact ⟨recipient, rest, accounts, signed, writable, writable'⟩
  · cases ran

/-! ### Steps -/

theorem Claims.mayReenter (claims : Claims s c k side) : MayReenter rt s k side := by
  obtain ⟨-, p, held, flagged, -⟩ := claims.ran
  exact ⟨p, held, flagged⟩

theorem PmlcAfter.claimed {args : ClaimReentryArgs} {slot : ℕ} {p : Pmlc} {a : Account}
    (after : PmlcAfter rt (.claimReentry args) slot p a) :
    a = ⟨rt.programId, .pmlc (p.clearFlags (reentryFlag args.side.toNat))⟩ := by
  cases after with
  | settled settles => cases settles
  | handedOver hands => cases hands
  | reentered claims =>
    cases claims
    rfl
  | released closes => cases closes

theorem PmlcAfter.gone {slot : ℕ} {p : Pmlc} {a : Account} (after : PmlcAfter rt .closePmlc slot p a) :
    a = ⟨systemProgram, .raw 304⟩ := by
  cases after with
  | settled settles => cases settles
  | handedOver hands => cases hands
  | reentered claims => cases claims
  | released => rfl

/-- A claim uses the right up. -/
theorem Claims.uses (claims : Claims s c k side) : ¬ MayReenter rt (execute rt c s) k side := by
  obtain ⟨isSide, p, held, -, -⟩ := claims.ran
  obtain ⟨works, args, instruction, rfl⟩ := claims
  rintro ⟨q, held', flagged⟩
  have after := works.after held
  rw [instruction] at after
  have cleared := held'.symm.trans after.claimed
  cases congrArg Account.data cleared
  exact flagged (p.flag_clearFlags_self isSide)

/-- A right ends with the account. -/
theorem WorksOn.loses (works : WorksOn s c k) (closes : c.instruction = .closePmlc) :
    ¬ MayReenter rt (execute rt c s) k side := by
  rintro ⟨q, held', -⟩
  obtain ⟨p, held, after⟩ := pmlc_of_given works.given (Call.ran works.returns)
  rw [closes] at after
  cases congrArg Account.data (held'.symm.trans after.gone)

theorem GivesUp.loses (gives : GivesUp s c k side) : ¬ MayReenter rt (execute rt c s) k side := by
  obtain ⟨p, -, -, claims | ⟨works, closes⟩⟩ := gives
  · exact claims.uses
  · exact works.loses closes

/-- Nothing but a claim of the side or the closing of the account takes the right away. -/
theorem MayReenter.execute (may : MayReenter rt s k side) (isSide : side ∈ [SIDE_LONG, SIDE_SHORT])
    (unclaimed : ¬ Claims s c k side) (kept : ¬ (WorksOn s c k ∧ c.instruction = .closePmlc)) :
    MayReenter rt (execute rt c s) k side := by
  obtain ⟨p, held, flagged⟩ := may
  rcases pmlc_of_execute held c with same | ⟨works, after⟩
  · exact ⟨p, same.trans held, flagged⟩
  · generalize left : (Polyleverage.execute rt c s).get k = a at after
    cases after with
    | settled settles live ended => exact ⟨_, left, flagged⟩
    | handedOver hands live =>
      refine ⟨_, left, ?_⟩
      rwa [Pmlc.flags_handedOver]
    | @reentered args claimed ended =>
      refine ⟨_, left, ?_⟩
      -- The other side was claimed.
      have other : args.side.toNat ≠ side := fun same => unclaimed ⟨works, args, claimed, same⟩
      have otherSide := (Claims.ran ⟨works, args, claimed, rfl⟩).1
      rwa [p.flag_clearFlags_of_ne isSide otherSide other]
    | released closes ended => exact absurd ⟨works, closes⟩ kept

/-- A right that was used up or lost does not come back. -/
theorem Tracks.mayReenter {p : Pmlc} (tracks : Tracks rt k p s) (isSide : side ∈ [SIDE_LONG, SIDE_SHORT])
    (may : MayReenter rt (Polyleverage.execute rt c s) k side) : MayReenter rt s k side := by
  rcases execute_eq_or_ok c s with same | ran
  · rwa [same] at may
  obtain ⟨q, held', flagged⟩ := may
  obtain ⟨p', held⟩ := tracks.before ran held'
  refine ⟨p', held, ?_⟩
  rcases pmlc_of_process held ran with same | ⟨given, after⟩
  · rw [held', held] at same
    cases congrArg Account.data same
    exact flagged
  · rw [held'] at after
    generalize left : (⟨rt.programId, .pmlc q⟩ : Account) = a at after
    cases after with
    | settled settles live ended =>
      cases congrArg Account.data left
      exact flagged
    | handedOver hands live =>
      cases congrArg Account.data left
      rwa [Pmlc.flags_handedOver] at flagged
    | @reentered args claimed ended =>
      cases congrArg Account.data left
      have works : WorksOn s c k := ⟨Call.returns_of_ran ran, given⟩
      have otherSide := (Claims.ran ⟨works, args, claimed, rfl⟩).1
      by_cases same : args.side.toNat = side
      · rw [same] at flagged
        exact absurd (p'.flag_clearFlags_self isSide) flagged
      · rwa [p'.flag_clearFlags_of_ne isSide otherSide same] at flagged
    | released closes ended => cases congrArg Account.data left

theorem Tracks.mayReenter_runCalls {p : Pmlc} {calls : List (Call rt)} (tracks : Tracks rt k p s)
    (isSide : side ∈ [SIDE_LONG, SIDE_SHORT]) (may : MayReenter rt (Polyleverage.runCalls rt calls s) k side) :
    MayReenter rt s k side := by
  induction calls generalizing s with
  | nil => exact may
  | cons c rest ih => exact tracks.mayReenter isSide (ih (tracks.execute c) may)

/-- The owner of a side that may be claimed. -/
def AccountData.claimant (side : ℕ) : AccountData → Option Pubkey
  | .pmlc p => if p.flags &&& reentryFlag side = 0 then none else some (p.owner side)
  | _ => none

theorem claimant_eq_some {d : AccountData} {owner : Pubkey} : d.claimant side = some owner ↔
    ∃ p, d = .pmlc p ∧ p.flags &&& reentryFlag side ≠ 0 ∧ p.owner side = owner := by
  cases d with
  | pmlc p =>
    rw [AccountData.claimant]
    split
    next none => simp [none]
    next flagged => simp [flagged]
  | _ => simp [AccountData.claimant]

theorem MayReenter.claimant (may : MayReenter rt s k side) : (s.data k).claimant side ≠ none := by
  obtain ⟨p, held, flagged⟩ := may
  rw [Option.ne_none_iff_exists']
  exact ⟨p.owner side, claimant_eq_some.mpr ⟨p, by rw [Ledger.data, held], flagged, rfl⟩⟩

namespace Sample

/-- Alice posts a long intent of one contract that is enrolled in re-entry. -/
def postEnrolled : Call Runtime.sample :=
  call (.postIntent ⟨0, 500000000000000000, 1, 100, 1, 0⟩) [alice]
    [alice, config, instrument poly, book poly, marginOf alice]

/-- Alice's position was opened from that intent, and is over. -/
def enrolling : List (Call Runtime.sample) :=
  launch 0 ++ [openMarket poly, postEnrolled, post poly bob 1 1, fill poly alice bob 1 2 3,
    resolve poly alice bob 3 (outcome 1 10000)]

def enrolled : Ledger := runCalls Runtime.sample enrolling genesis

/-- This wallet asks for the account of the position. -/
def close (recipient : Pubkey) : Call Runtime.sample := call .closePmlc [recipient] [recipient, pmlc poly 3]

/-- Alice claims her side. -/
def claim : Call Runtime.sample :=
  call (.claimReentry ⟨0, 100⟩) [alice] [alice, config, pmlc poly 3, instrument poly, book poly, marginOf alice]

theorem enrolled_pmlc : ∃ p, enrolled.get (pmlc poly 3) = ⟨Runtime.sample.programId, .pmlc p⟩ ∧
    p.flags &&& reentryFlag SIDE_LONG ≠ 0 ∧ p.owner SIDE_LONG = alice := by
  have owned : enrolled.owner (pmlc poly 3) = Runtime.sample.programId := by decide +kernel
  obtain ⟨p, held, flagged, owner⟩ := claimant_eq_some.mp
    (by decide +kernel : (enrolled.data (pmlc poly 3)).claimant SIDE_LONG = some alice)
  exact ⟨p, get_eq_of_data owned held, flagged, owner⟩

end Sample

/-! ### Runs -/

/-- The right is the owner's, and is used at most once; and it stands until the owner gives it up if and only if
nobody asks for the account of the settled position without the owner's signature before that. -/
theorem reentry_kept_iff {p : Pmlc} (reached : Reachable rt (fun _ => True) s) (held : s.get k = ⟨rt.programId, .pmlc p⟩)
    (isSide : side ∈ [SIDE_LONG, SIDE_SHORT]) (flagged : p.flags &&& reentryFlag side ≠ 0) (calls : List (Call rt)) :
    ReentryKept rt calls s k side ↔
      ∀ before c after q, calls = before ++ c :: after → (runCalls rt before s).get k = ⟨rt.programId, .pmlc q⟩ →
        q.status ∈ PMLC_STATUSES_OVER → q.flags &&& reentryFlag side ≠ 0 → c.Closes k →
        c.inv.isSigner (q.owner side) = true := by
  have tracks := tracks_of_reachable reached held
  constructor
  · intro kept before c after q split held' ended flagged' closes
    have works := closes.works held' ended
    by_contra unsigned
    have loses : ∀ side, ¬ MayReenter rt (execute rt c _) k side := fun _ => works.loses closes.1
    apply loses side
    rw [← runCalls_concat]
    apply kept.stands (before ++ [c]) after (by simp [split])
    -- The owner gave the right up neither with this call nor with an earlier one.
    rintro earlier c' later divided gives
    rcases later.eq_nil_or_concat with rfl | ⟨later, last, rfl⟩
    · obtain ⟨rfl, same⟩ := List.append_inj' divided rfl
      cases same
      obtain ⟨r, there, signed, -⟩ := gives
      cases congrArg Account.data (there.symm.trans held')
      exact unsigned signed
    · obtain ⟨rfl, -⟩ := List.append_inj' (divided.trans (by simp) : before ++ [c] = (earlier ++ c' :: later) ++ [last]) rfl
      rw [runCalls_append, runCalls_cons] at held'
      have tracked := (tracks.runCalls earlier).execute c'
      exact gives.loses (tracked.mayReenter_runCalls isSide ⟨q, held', flagged'⟩)
  · intro asked
    constructor
    · intro before c between c' after _ claims again
      have tracked := (tracks.runCalls before).execute c
      exact claims.uses (tracked.mayReenter_runCalls isSide again.mayReenter)
    · intro before c after q _ claims held'
      obtain ⟨-, r, there, -, signed⟩ := claims.ran
      cases congrArg Account.data (there.symm.trans held')
      exact signed
    · intro before
      induction before using List.reverseRecOn with
      | nil => exact fun _ _ _ => ⟨p, held, flagged⟩
      | append_singleton before c ih =>
        intro after split kept
        have may := ih (c :: after) (by simp [split]) fun earlier c' later divided =>
          kept earlier c' (later ++ [c]) (by simp [divided])
        obtain ⟨q, held', flagged'⟩ := may
        rw [runCalls_concat]
        apply MayReenter.execute ⟨q, held', flagged'⟩ isSide
        · intro claims
          obtain ⟨-, r, there, -, signed⟩ := claims.ran
          exact kept before c [] rfl ⟨r, there, signed, .inl claims⟩
        · rintro ⟨works, closes⟩
          have ended := (works.after held').of_closes closes
          have signed := asked before c after q (by simp [split]) held' ended flagged' (works.closes closes)
          exact kept before c [] rfl ⟨q, held', signed, .inr ⟨works, closes⟩⟩

/-- Alice claims her side before the account is closed. -/
theorem reentry_kept_iff_claimed :
    ReentryKept Runtime.sample [Sample.claim, Sample.close Sample.carol] Sample.enrolled (Sample.pmlc Sample.poly 3) SIDE_LONG := by
  obtain ⟨p, held, flagged, -⟩ := Sample.enrolled_pmlc
  have reached : Reachable Runtime.sample (fun _ => True) Sample.enrolled := Sample.reachable fun _ _ => trivial
  have isSide : SIDE_LONG ∈ [SIDE_LONG, SIDE_SHORT] := List.mem_cons_self
  refine (reentry_kept_iff reached held isSide flagged [Sample.claim, Sample.close Sample.carol]).mpr ?_
  intro before c after q split held' _ flagged' closes
  have claimed : ((runCalls Runtime.sample [Sample.claim] Sample.enrolled).data (Sample.pmlc Sample.poly 3)).claimant SIDE_LONG = none := by
    decide +kernel
  cases before with
  | nil =>
    obtain ⟨rfl, -⟩ := List.cons.inj split
    cases closes.1
  | cons c' rest =>
    obtain ⟨rfl, tail⟩ := List.cons.inj split
    obtain ⟨rfl, -⟩ | ⟨-, impossible⟩ := List.append_eq_singleton_iff.mp tail.symm
    · exact absurd claimed (MayReenter.claimant ⟨q, held', flagged'⟩)
    · cases impossible

/-- Carol closes the account of Alice's position before Alice claims her side. -/
theorem reentry_lost : Reachable Runtime.sample (fun _ => True) Sample.enrolled ∧
    (∃ p, Sample.enrolled.get (Sample.pmlc Sample.poly 3) = ⟨Runtime.sample.programId, .pmlc p⟩ ∧
      p.flags &&& reentryFlag SIDE_LONG ≠ 0 ∧ p.owner SIDE_LONG = Sample.alice) ∧
    ¬ ReentryKept Runtime.sample [Sample.close Sample.carol] Sample.enrolled (Sample.pmlc Sample.poly 3) SIDE_LONG := by
  refine ⟨Sample.reachable fun _ _ => trivial, Sample.enrolled_pmlc, fun kept => ?_⟩
  have closed : ((runCalls Runtime.sample [Sample.close Sample.carol] Sample.enrolled).data (Sample.pmlc Sample.poly 3)).claimant
      SIDE_LONG = none := by decide +kernel
  refine (kept.stands [Sample.close Sample.carol] [] rfl ?_).claimant closed
  rintro earlier c later divided ⟨r, there, signed, -⟩
  obtain ⟨p, held, -, owner⟩ := Sample.enrolled_pmlc
  obtain ⟨rfl, same⟩ | ⟨-, impossible⟩ := List.append_eq_singleton_iff.mp divided.symm
  · cases same
    rw [runCalls_nil] at there
    cases congrArg Account.data (there.symm.trans held)
    rw [owner] at signed
    exact absurd signed (by decide)
  · cases impossible

end Polyleverage
