import Polyleverage.Invariants.Issued
import Polyleverage.Sample

/-! # Positions are settled once

A position is live until it is liquidated, resolved or closed by both owners, and then it is over for
good. Until its account is given back, only its owners and its re-entries change, and its number is never
used again.
-/

namespace Polyleverage

open Machine

variable {rt : Runtime} {inv : rt.Invocation} {s t u : Ledger} {k : Pubkey}

/-! ### What an instruction does to its position -/

namespace Instruction

/-- The instruction settles a position. -/
def settles (instr : Instruction) : Bool := instr.attestation.isSome

/-- The instruction hands a side of a position to another owner. -/
def handsOver : Instruction → Bool
  | novate _ => true
  | matchSubstitute _ => true
  | matchSubstituteWithSettle _ => true
  | _ => false

end Instruction

/-- The statuses of a position that is over. -/
def PMLC_STATUSES_OVER : List ℕ := [PMLC_STATUS_CLOSED, PMLC_STATUS_LIQUIDATED, PMLC_STATUS_RESOLVED]

/-- What an instruction may leave of the position that it was given. -/
inductive PmlcAfter (rt : Runtime) (instr : Instruction) (slot : ℕ) (p : Pmlc) : Account → Prop where
  | settled {status closeReason : ℕ} (settles : instr.settles = true) (live : p.status = PMLC_STATUS_LIVE)
      (ended : status ∈ PMLC_STATUSES_OVER) :
      PmlcAfter rt instr slot p ⟨rt.programId, .pmlc (p.close status closeReason slot)⟩
  | handedOver {side : ℕ} {owner : Pubkey} (hands : instr.handsOver = true) (live : p.status = PMLC_STATUS_LIVE) :
      PmlcAfter rt instr slot p ⟨rt.programId, .pmlc (p.handedOver side owner slot)⟩
  | reentered {args : ClaimReentryArgs} (claims : instr = .claimReentry args) (ended : p.status ≠ PMLC_STATUS_LIVE) :
      PmlcAfter rt instr slot p ⟨rt.programId, .pmlc (p.clearFlags (reentryFlag args.side.toNat))⟩
  | released (closes : instr = .closePmlc) (ended : p.status ∈ PMLC_STATUSES_OVER) :
      PmlcAfter rt instr slot p ⟨systemProgram, .raw 304⟩

/-- The positions elsewhere were not touched, and none appeared. -/
def OtherPmlcs (s t : Ledger) (k : Pubkey) : Prop :=
  ∀ j o q, j ≠ k → s.get j = ⟨o, .pmlc q⟩ ∨ t.get j = ⟨o, .pmlc q⟩ → t.get j = s.get j

/-- One position was written at `k`. -/
structure WritesPmlc (rt : Runtime) (inv : rt.Invocation) (instr : Instruction) (s t : Ledger) (k : Pubkey) : Prop where
  given : instr.pmlcOf inv.accounts = some k
  after : ∃ p, s.get k = ⟨rt.programId, .pmlc p⟩ ∧ PmlcAfter rt instr inv.slot p (t.get k)
  others : OtherPmlcs s t k

/-- A position is written after writes that leave positions alone. -/
theorem updatePmlc_after {kinds : List AccountKind} {f : Pmlc → Pmlc} {p : Pmlc} {x : Unit}
    (touches : Touches kinds kinds s u) (none : AccountKind.pmlc ∉ kinds) (held : s.get k = ⟨rt.programId, .pmlc p⟩)
    (ran : (updateAccount rt inv AccountData.loadPmlc .pmlc k f).run u = .ok x t) :
    t.get k = ⟨rt.programId, .pmlc (f p)⟩ ∧ OtherPmlcs s t k := by
  obtain ⟨p', held', rfl⟩ := updateAccount_eq ran
  have same : u.get k = ⟨rt.programId, .pmlc p⟩ := by
    rw [← held]
    apply touches.get_eq
    rwa [Ledger.data, held]
  rw [Ledger.data, same] at held'
  cases held'
  constructor
  · rw [Ledger.get_setData_self, Ledger.owner, same]
  · intro j o q other both
    rw [Ledger.get_setData_of_ne _ _ other] at both ⊢
    rcases both with before | after
    · apply touches.get_eq
      rwa [Ledger.data, before]
    · apply touches.get_eq'
      rwa [Ledger.data, after]

theorem writesPmlc_of_settles {instr : Instruction} {index type : ℕ} (attests : instr.attestation = some (index, type))
    (ran : (process rt inv instr).run s = .ok () t) : ∃ k, WritesPmlc rt inv instr s t k := by
  obtain ⟨x, n, status, closeReason, given, -, ended, settled⟩ := settled_of_process attests ran
  refine ⟨x.pmlc, given, ⟨x.p, get_eq_of_data x.owner_pmlc x.pmlc_eq, ?_⟩, fun j o q other both => ?_⟩
  · rw [settled.get_pmlc]
    exact .settled (by simp [Instruction.settles, attests]) x.live ended
  · have nonce : j ≠ x.nonce := by
      rintro rfl
      rcases both with before | after
      · have kept := x.nonce_eq
        rw [Ledger.data, before] at kept
        cases kept
      · rw [settled.get_nonce] at after
        cases after
    rcases both with before | after
    · exact settled.get_other other nonce (by simp [Ledger.data, before])
    · rw [settled.margins.get_eq' (by simp [Ledger.data, after]), Ledger.get_setData_of_ne _ _ other,
        Ledger.get_setData_of_ne _ _ nonce]

theorem writesPmlc_processNovate {side : UInt8} (ran : (processNovate rt inv side).run s = .ok () t) :
    ∃ k, WritesPmlc rt inv (.novate side) s t k := by
  unfold processNovate at ran
  split at ran
  next currentOwner newOwner config instrument pmlc currentMargin newMargin rest accounts =>
    simp only [Exec.bind_check, exists_const, ne_eq, not_not, Pmlc.requireLive_ok] at ran
    obtain ⟨-, -, -, -, -, owned, -, -, -, p, held, live, -, inst, -, -, -, _, -, _, -, ran⟩ := ran
    simp only [Exec.bind_ok] at ran
    obtain ⟨_, s1, unlocked, _, s2, locked, handed⟩ := ran
    have first : Touches [.marginAccount] [.marginAccount] s s1 := Within.keeps.ok unlocked
    have second : Touches [.marginAccount] [.marginAccount] s1 s2 := Within.keeps.ok locked
    have before := get_eq_of_data (owned _ (by simp)) held
    obtain ⟨after, others⟩ := updatePmlc_after (Trans.trans first second) (by simp) before handed
    refine ⟨pmlc, by rw [accounts]; rfl, ⟨p, before, ?_⟩, others⟩
    rw [after]
    exact .handedOver rfl live
  · cases ran

theorem writesPmlc_doSubstitute {args : MatchPairArgs} {withSettle : Bool} {instr : Instruction}
    (substitutes : instr = if withSettle then .matchSubstituteWithSettle args else .matchSubstitute args)
    (ran : (doSubstitute rt inv args withSettle).run s = .ok () t) : ∃ k, WritesPmlc rt inv instr s t k := by
  have index : instr.pmlcIndex = some 3 ∧ instr.handsOver = true := by
    rw [substitutes]
    cases withSettle <;> exact ⟨rfl, rfl⟩
  unfold doSubstitute at ran
  split at ran
  next substitutor instrument book pmlc substitutorMargin counterpartyMargin rest accounts =>
    simp only [Exec.bind_check, exists_const, ne_eq, not_not, Pmlc.requireLive_ok] at ran
    obtain ⟨-, -, -, -, -, owned, inst, -, -, -, p, held, live, -, -, ran⟩ := ran
    rw [Exec.bind_ok] at ran
    obtain ⟨c, s1, substituted, ran⟩ := ran
    simp only [Exec.bind_check] at ran
    obtain ⟨delta, -, _, -, _, -, ran⟩ := ran
    simp only [Exec.bind_ok] at ran
    obtain ⟨_, s2, left, _, s3, entered, handed⟩ := ran
    have first : Touches [.intentBook, .marginAccount] [.intentBook, .marginAccount] s s1 := Within.keeps.ok substituted
    have second : Touches [.intentBook, .marginAccount] [.intentBook, .marginAccount] s1 s2 := Within.keeps.ok left
    have third : Touches [.intentBook, .marginAccount] [.intentBook, .marginAccount] s2 s3 := Within.keeps.ok entered
    have before := get_eq_of_data (owned _ (by simp)) held
    obtain ⟨after, others⟩ := updatePmlc_after (Trans.trans first (Trans.trans second third)) (by simp) before handed
    refine ⟨pmlc, by rw [Instruction.pmlcOf, index.1, accounts]; rfl, ⟨p, before, ?_⟩, others⟩
    rw [after]
    exact .handedOver index.2 live
  · cases ran

theorem writesPmlc_processClaimReentry {args : ClaimReentryArgs} (ran : (processClaimReentry rt inv args).run s = .ok () t) :
    ∃ k, WritesPmlc rt inv (.claimReentry args) s t k := by
  unfold processClaimReentry at ran
  split at ran
  next owner config pmlc instrument book margin rest accounts =>
    simp only [Exec.bind_check, exists_const, ne_eq, not_not] at ran
    obtain ⟨-, -, -, -, owned, -, -, -, p, held, ended, -, -, -, inst, -, -, -, -, -, -, _, -, m, -, -, -, ran⟩ := ran
    have before := get_eq_of_data (owned _ (by simp)) held
    -- However many contracts are posted again, the re-entry of the position is used up last.
    obtain ⟨v, touches, cleared⟩ : ∃ v, Touches [.intentBook, .marginAccount] [.intentBook, .marginAccount] s v ∧
        (clearReentry rt inv pmlc args.side.toNat).run v = .ok () t := by
      split at ran
      · exact ⟨s, Std.Refl.refl s, ran⟩
      · simp only [Exec.bind_check] at ran
        obtain ⟨b, -, contracts, -, ran⟩ := ran
        split at ran
        · exact ⟨s, Std.Refl.refl s, ran⟩
        · simp only [reenter, Exec.bind_check] at ran
          obtain ⟨reserve, -, ran⟩ := ran
          simp only [Exec.bind_ok] at ran
          obtain ⟨_, s1, reserves, id, s2, posted, cleared⟩ := ran
          have first : Touches [.intentBook, .marginAccount] [.intentBook, .marginAccount] s s1 := Within.keeps.ok reserves
          have second : Touches [.intentBook, .marginAccount] [.intentBook, .marginAccount] s1 s2 := Within.keeps.ok posted
          exact ⟨s2, Trans.trans first second, cleared⟩
    obtain ⟨after, others⟩ := updatePmlc_after touches (by simp) before cleared
    refine ⟨pmlc, by rw [accounts]; rfl, ⟨p, before, ?_⟩, others⟩
    rw [after]
    exact .reentered rfl ended
  · cases ran

theorem writesPmlc_processClosePmlc (ran : (processClosePmlc rt inv).run s = .ok () t) :
    ∃ k, WritesPmlc rt inv .closePmlc s t k := by
  obtain ⟨pmlc, p, given, owned, held, ended, rfl⟩ := processClosePmlc_ok ran
  refine ⟨pmlc, given, ⟨p, get_eq_of_data owned held, ?_⟩, fun j o q other _ => Store.get_set_of_ne s _ other⟩
  rw [Store.get_set_self]
  exact .released rfl ended

/-- An instruction that is about a position writes that position. -/
theorem writesPmlc_of_process {instr : Instruction} (about : instr.pmlcIndex ≠ none)
    (ran : (process rt inv instr).run s = .ok () t) : ∃ k, WritesPmlc rt inv instr s t k := by
  cases instr with
  | liquidate offset => exact writesPmlc_of_settles rfl ran
  | resolve offset => exact writesPmlc_of_settles rfl ran
  | closeMutual offset => exact writesPmlc_of_settles rfl ran
  | claimReentry args => exact writesPmlc_processClaimReentry ran
  | novate side => exact writesPmlc_processNovate ran
  | matchSubstitute args =>
    have plain : Instruction.matchSubstitute args = if false then .matchSubstituteWithSettle args else .matchSubstitute args :=
      rfl
    exact writesPmlc_doSubstitute plain ran
  | matchSubstituteWithSettle args =>
    have settling : Instruction.matchSubstituteWithSettle args =
        if true then .matchSubstituteWithSettle args else .matchSubstitute args := rfl
    exact writesPmlc_doSubstitute settling ran
  | closePmlc => exact writesPmlc_processClosePmlc ran
  | _ => exact absurd rfl about

/-- What a call does to a position: nothing, or the call was given this position and wrote it. -/
theorem pmlc_of_process {instr : Instruction} {p : Pmlc} (held : s.get k = ⟨rt.programId, .pmlc p⟩)
    (ran : (process rt inv instr).run s = .ok () t) :
    t.get k = s.get k ∨ instr.pmlcOf inv.accounts = some k ∧ PmlcAfter rt instr inv.slot p (t.get k) := by
  by_cases about : instr.pmlcIndex = none
  · left
    apply get_eq_of_process ran
    rw [Ledger.data, held]
    cases instr <;> simp [Instruction.writes, Instruction.pmlcIndex] at about ⊢
  · obtain ⟨j, writes⟩ := writesPmlc_of_process about ran
    by_cases here : k = j
    · subst here
      obtain ⟨p', held', after⟩ := writes.after
      rw [held] at held'
      cases congrArg Account.data held'
      exact .inr ⟨writes.given, after⟩
    · exact .inl (writes.others k _ p here (.inl held))

/-- A call that returns and was given a position had it as the program's, and wrote it. -/
theorem pmlc_of_given {instr : Instruction} (given : instr.pmlcOf inv.accounts = some k)
    (ran : (process rt inv instr).run s = .ok () t) :
    ∃ p, s.get k = ⟨rt.programId, .pmlc p⟩ ∧ PmlcAfter rt instr inv.slot p (t.get k) := by
  have about : instr.pmlcIndex ≠ none := by
    intro none
    rw [Instruction.pmlcOf, none] at given
    cases given
  obtain ⟨j, writes⟩ := writesPmlc_of_process about ran
  cases given.symm.trans writes.given
  exact writes.after

/-- Where a position comes from: it was there under its number, or its number was issued meanwhile. -/
theorem pmlc_before_process {instr : Instruction} {q : Pmlc} (genuine : Genuine rt s)
    (ran : (process rt inv instr).run s = .ok () t) (held : t.get k = ⟨rt.programId, .pmlc q⟩) :
    (∃ p, s.get k = ⟨rt.programId, .pmlc p⟩) ∨
      ¬ Issued rt q.instrument q.id s ∧ Issued rt q.instrument q.id t := by
  by_cases about : instr.pmlcIndex = none
  · rcases opens_of_process genuine about ran k q held with same | fresh
    · exact .inl ⟨q, same.symm.trans held⟩
    · exact .inr fresh
  · left
    obtain ⟨j, writes⟩ := writesPmlc_of_process about ran
    by_cases here : k = j
    · subst here
      obtain ⟨p, before, -⟩ := writes.after
      exact ⟨p, before⟩
    · exact ⟨q, (writes.others k _ q here (.inr held)).symm.trans held⟩

/-! ### How a position evolves -/

/-- What a position may become: its economics are fixed, and it is settled at most once. -/
structure Pmlc.Evolves (p q : Pmlc) : Prop where
  id : q.id = p.id
  instrument : q.instrument = p.instrument
  collateralMint : q.collateralMint = p.collateralMint
  marketId : q.marketId = p.marketId
  collateralPerSide : q.collateralPerSide = p.collateralPerSide
  leverageBps : q.leverageBps = p.leverageBps
  entryPriceFp : q.entryPriceFp = p.entryPriceFp
  notionalAtoms : q.notionalAtoms = p.notionalAtoms
  sizeFp : q.sizeFp = p.sizeFp
  status : q.status = p.status ∨ p.status = PMLC_STATUS_LIVE ∧ q.status ∈ PMLC_STATUSES_OVER
  owners : p.status ≠ PMLC_STATUS_LIVE → q.longOwner = p.longOwner ∧ q.shortOwner = p.shortOwner

theorem not_live_of_over {status : ℕ} (ended : status ∈ PMLC_STATUSES_OVER) : status ≠ PMLC_STATUS_LIVE := by
  rintro rfl
  exact absurd ended (by decide)

namespace Pmlc.Evolves

variable {p q r : Pmlc}

theorem refl (p : Pmlc) : p.Evolves p := ⟨rfl, rfl, rfl, rfl, rfl, rfl, rfl, rfl, rfl, .inl rfl, fun _ => ⟨rfl, rfl⟩⟩

/-- A position that is over keeps its status. -/
theorem status_of_over (evolves : p.Evolves q) (ended : p.status ≠ PMLC_STATUS_LIVE) : q.status = p.status :=
  evolves.status.resolve_right fun both => ended both.1

theorem trans (first : p.Evolves q) (next : q.Evolves r) : p.Evolves r where
  id := next.id.trans first.id
  instrument := next.instrument.trans first.instrument
  collateralMint := next.collateralMint.trans first.collateralMint
  marketId := next.marketId.trans first.marketId
  collateralPerSide := next.collateralPerSide.trans first.collateralPerSide
  leverageBps := next.leverageBps.trans first.leverageBps
  entryPriceFp := next.entryPriceFp.trans first.entryPriceFp
  notionalAtoms := next.notionalAtoms.trans first.notionalAtoms
  sizeFp := next.sizeFp.trans first.sizeFp
  status := by
    rcases first.status with same | ⟨live, ended⟩
    · rw [← same]
      exact next.status
    · rw [next.status_of_over (not_live_of_over ended)]
      exact .inr ⟨live, ended⟩
  owners ended := by
    have still : q.status ≠ PMLC_STATUS_LIVE := by rwa [first.status_of_over ended]
    obtain ⟨long, short⟩ := first.owners ended
    obtain ⟨long', short'⟩ := next.owners still
    exact ⟨long'.trans long, short'.trans short⟩

end Pmlc.Evolves

theorem PmlcAfter.evolves {instr : Instruction} {slot : ℕ} {p q : Pmlc} {a : Account}
    (after : PmlcAfter rt instr slot p a) (held : a = ⟨rt.programId, .pmlc q⟩) : p.Evolves q := by
  cases after with
  | settled settles live ended =>
    cases congrArg Account.data held
    exact ⟨rfl, rfl, rfl, rfl, rfl, rfl, rfl, rfl, rfl, .inr ⟨live, ended⟩, fun closed => absurd live closed⟩
  | @handedOver side owner hands live =>
    cases congrArg Account.data held
    unfold Pmlc.handedOver Pmlc.setOwner
    split <;> exact ⟨rfl, rfl, rfl, rfl, rfl, rfl, rfl, rfl, rfl, .inl rfl, fun closed => absurd live closed⟩
  | reentered claims ended =>
    cases congrArg Account.data held
    exact ⟨rfl, rfl, rfl, rfl, rfl, rfl, rfl, rfl, rfl, .inl rfl, fun _ => ⟨rfl, rfl⟩⟩
  | released closes ended => cases congrArg Account.data held

/-- While a position stays the program's, it evolves. -/
theorem evolves_of_process {instr : Instruction} {p q : Pmlc} (ran : (process rt inv instr).run s = .ok () t)
    (held : s.get k = ⟨rt.programId, .pmlc p⟩) (held' : t.get k = ⟨rt.programId, .pmlc q⟩) : p.Evolves q := by
  rcases pmlc_of_process held ran with same | ⟨-, after⟩
  · rw [held', held] at same
    cases congrArg Account.data same
    exact .refl p
  · exact after.evolves held'

/-! ### Numbers -/

/-- Every position has a number that its book has handed out. -/
theorem issued_of_reachable (reached : Reachable rt (fun _ => True) s) :
    ∀ k p, s.get k = ⟨rt.programId, .pmlc p⟩ → Issued rt p.instrument p.id s := by
  have step : ∀ s t inv instr, (Genuine rt s ∧ ∀ k p, s.get k = ⟨rt.programId, .pmlc p⟩ → Issued rt p.instrument p.id s) →
      True → (process rt inv instr).run s = .ok () t →
      Genuine rt t ∧ ∀ k p, t.get k = ⟨rt.programId, .pmlc p⟩ → Issued rt p.instrument p.id t := by
    rintro s t inv instr ⟨genuine, issued⟩ - ran
    refine ⟨(upkeep_process genuine ran).genuine, fun k q held => ?_⟩
    rcases pmlc_before_process genuine ran held with ⟨p, before⟩ | ⟨-, now⟩
    · have evolves := evolves_of_process ran before held
      rw [evolves.instrument, evolves.id]
      exact (booksGrow_of_process ran).issued (issued k p before)
    · exact now
  refine (reached.induct (P := fun s => Genuine rt s ∧ ∀ k p, s.get k = ⟨rt.programId, .pmlc p⟩ →
    Issued rt p.instrument p.id s) (fun _ gen => ⟨genuine_genesis gen, fun k p held => ?_⟩) step).2
  exact absurd (congrArg Account.owner held) (gen.not_owned k)

/-- The number of `p` was issued, and whatever position lies at its address evolved from `p`. -/
structure Tracks (rt : Runtime) (k : Pubkey) (p : Pmlc) (s : Ledger) : Prop where
  genuine : Genuine rt s
  address : rt.address (.pmlc p.instrument p.id) = k
  issued : Issued rt p.instrument p.id s
  evolves : ∀ q, s.get k = ⟨rt.programId, .pmlc q⟩ → p.Evolves q

/-- A position with this number lies at its address. -/
theorem Tracks.here {j : Pubkey} {p q : Pmlc} (tracks : Tracks rt k p s) (held : s.get j = ⟨rt.programId, .pmlc q⟩)
    (instrument : q.instrument = p.instrument) (id : q.id = p.id) : j = k := by
  have there := (tracks.genuine.pmlc_ok (congrArg Account.owner held) (congrArg Account.data held)).1
  rw [← there, instrument, id, tracks.address]

/-- A position at the address of an issued number was there before. -/
theorem Tracks.before {instr : Instruction} {p q : Pmlc} (tracks : Tracks rt k p s)
    (ran : (process rt inv instr).run s = .ok () t) (held : t.get k = ⟨rt.programId, .pmlc q⟩) :
    ∃ q', s.get k = ⟨rt.programId, .pmlc q'⟩ := by
  rcases pmlc_before_process tracks.genuine ran held with before | ⟨fresh, -⟩
  · exact before
  · have genuine := (upkeep_process tracks.genuine ran).genuine
    have there := (genuine.pmlc_ok (congrArg Account.owner held) (congrArg Account.data held)).1
    obtain ⟨instrument, id⟩ : q.instrument = p.instrument ∧ q.id = p.id := by
      simpa using rt.address_injective _ _ (there.trans tracks.address.symm)
    rw [instrument, id] at fresh
    exact absurd tracks.issued fresh

theorem Tracks.process {instr : Instruction} {p : Pmlc} (tracks : Tracks rt k p s)
    (ran : (process rt inv instr).run s = .ok () t) : Tracks rt k p t where
  genuine := (upkeep_process tracks.genuine ran).genuine
  address := tracks.address
  issued := (booksGrow_of_process ran).issued tracks.issued
  evolves q held := by
    obtain ⟨q', before⟩ := tracks.before ran held
    exact (tracks.evolves q' before).trans (evolves_of_process ran before held)

theorem Tracks.execute {p : Pmlc} (tracks : Tracks rt k p s) (c : Call rt) : Tracks rt k p (execute rt c s) := by
  rcases execute_eq_or_ok c s with same | ran
  · rwa [same]
  · exact tracks.process ran

theorem Tracks.runCalls {p : Pmlc} (tracks : Tracks rt k p s) (calls : List (Call rt)) :
    Tracks rt k p (runCalls rt calls s) :=
  runCalls_induct (fun _ _ _ _ tracks ran => tracks.process ran) tracks

theorem tracks_of_reachable {p : Pmlc} (reached : Reachable rt (fun _ => True) s) (held : s.get k = ⟨rt.programId, .pmlc p⟩) :
    Tracks rt k p s where
  genuine := genuine_of_reachable reached
  address := ((genuine_of_reachable reached).pmlc_ok (congrArg Account.owner held) (congrArg Account.data held)).1
  issued := issued_of_reachable reached k p held
  evolves q held' := by
    rw [held] at held'
    cases congrArg Account.data held'
    exact .refl p

/-! ### Runs -/

/-- The call returns and was given the position at `k`. -/
structure WorksOn (s : Ledger) (c : Call rt) (k : Pubkey) : Prop where
  returns : c.returns s = true
  given : c.instruction.pmlcOf c.inv.accounts = some k

/-- What a call may do to the position `p` at `k`, by its status. -/
structure PmlcRules (s : Ledger) (c : Call rt) (k : Pubkey) (p : Pmlc) : Prop where
  settles : WorksOn s c k → c.instruction.settles = true → p.status = PMLC_STATUS_LIVE ∧
    ∃ q, (execute rt c s).get k = ⟨rt.programId, .pmlc q⟩ ∧ q.status ∈ PMLC_STATUSES_OVER
  hands : WorksOn s c k → c.instruction.handsOver = true → p.status = PMLC_STATUS_LIVE
  closes : WorksOn s c k → c.instruction = .closePmlc → p.status ∈ PMLC_STATUSES_OVER
  status : ∀ q, (execute rt c s).get k = ⟨rt.programId, .pmlc q⟩ → q.status ≠ p.status →
    WorksOn s c k ∧ c.instruction.settles = true
  owners : ∀ q, (execute rt c s).get k = ⟨rt.programId, .pmlc q⟩ →
    ¬ (q.longOwner = p.longOwner ∧ q.shortOwner = p.shortOwner) → WorksOn s c k ∧ c.instruction.handsOver = true

namespace PmlcAfter

variable {instr : Instruction} {slot : ℕ} {p q : Pmlc} {a : Account} (after : PmlcAfter rt instr slot p a)
include after

/-- Only closing gives a position back. -/
theorem kept (other : instr ≠ .closePmlc) : ∃ q, a = ⟨rt.programId, .pmlc q⟩ := by
  cases after with
  | settled settles live ended => exact ⟨_, rfl⟩
  | handedOver hands live => exact ⟨_, rfl⟩
  | reentered claims ended => exact ⟨_, rfl⟩
  | released closes ended => exact absurd closes other

theorem of_settles (settles : instr.settles = true) :
    p.status = PMLC_STATUS_LIVE ∧ ∃ q, a = ⟨rt.programId, .pmlc q⟩ ∧ q.status ∈ PMLC_STATUSES_OVER := by
  cases after with
  | settled _ live ended => exact ⟨live, _, rfl, ended⟩
  | handedOver hands live => cases instr <;> simp [Instruction.handsOver, Instruction.settles, Instruction.attestation] at hands settles
  | reentered claims ended => simp [claims, Instruction.settles, Instruction.attestation] at settles
  | released closes ended => simp [closes, Instruction.settles, Instruction.attestation] at settles

theorem of_handsOver (hands : instr.handsOver = true) : p.status = PMLC_STATUS_LIVE := by
  cases after with
  | settled _ live ended => exact live
  | handedOver _ live => exact live
  | reentered claims ended => simp [claims, Instruction.handsOver] at hands
  | released closes ended => simp [closes, Instruction.handsOver] at hands

theorem of_closes (closes : instr = .closePmlc) : p.status ∈ PMLC_STATUSES_OVER := by
  cases after with
  | settled settles live ended => simp [closes, Instruction.settles, Instruction.attestation] at settles
  | handedOver hands live => simp [closes, Instruction.handsOver] at hands
  | reentered claims ended => simp [closes] at claims
  | released _ ended => exact ended

/-- Only a settlement changes the status. -/
theorem settles_of_status (held : a = ⟨rt.programId, .pmlc q⟩) (changed : q.status ≠ p.status) : instr.settles = true := by
  cases after with
  | settled settles live ended => exact settles
  | @handedOver side owner hands live =>
    cases congrArg Account.data held
    refine absurd ?_ changed
    unfold Pmlc.handedOver Pmlc.setOwner
    split <;> rfl
  | reentered claims ended =>
    cases congrArg Account.data held
    exact absurd rfl changed
  | released closes ended => cases congrArg Account.data held

/-- Only a side that changes hands gets another owner. -/
theorem handsOver_of_owners (held : a = ⟨rt.programId, .pmlc q⟩)
    (changed : ¬ (q.longOwner = p.longOwner ∧ q.shortOwner = p.shortOwner)) : instr.handsOver = true := by
  cases after with
  | settled settles live ended =>
    cases congrArg Account.data held
    exact absurd ⟨rfl, rfl⟩ changed
  | handedOver hands live => exact hands
  | reentered claims ended =>
    cases congrArg Account.data held
    exact absurd ⟨rfl, rfl⟩ changed
  | released closes ended => cases congrArg Account.data held

end PmlcAfter

theorem WorksOn.after {c : Call rt} {p : Pmlc} (works : WorksOn s c k) (held : s.get k = ⟨rt.programId, .pmlc p⟩) :
    PmlcAfter rt c.instruction c.inv.slot p ((execute rt c s).get k) := by
  obtain ⟨p', held', after⟩ := pmlc_of_given works.given (Call.ran works.returns)
  rw [held] at held'
  cases congrArg Account.data held'
  exact after

/-- What a call does to a position: nothing, or it works on it. -/
theorem pmlc_of_execute {p : Pmlc} (held : s.get k = ⟨rt.programId, .pmlc p⟩) (c : Call rt) :
    (execute rt c s).get k = s.get k ∨ WorksOn s c k ∧ PmlcAfter rt c.instruction c.inv.slot p ((execute rt c s).get k) := by
  by_cases returns : c.returns s = true
  · rcases pmlc_of_process held (Call.ran returns) with same | ⟨given, after⟩
    · exact .inl same
    · exact .inr ⟨⟨returns, given⟩, after⟩
  · rw [execute_of_not_returns (Bool.not_eq_true _ ▸ returns)]
    exact .inl rfl

theorem pmlcRules {p : Pmlc} (held : s.get k = ⟨rt.programId, .pmlc p⟩) (c : Call rt) : PmlcRules s c k p where
  settles works settles := (works.after held).of_settles settles
  hands works hands := (works.after held).of_handsOver hands
  closes works closes := (works.after held).of_closes closes
  status q held' changed := by
    rcases pmlc_of_execute held c with same | ⟨works, after⟩
    · rw [held', held] at same
      cases congrArg Account.data same
      exact absurd rfl changed
    · exact ⟨works, after.settles_of_status held' changed⟩
  owners q held' changed := by
    rcases pmlc_of_execute held c with same | ⟨works, after⟩
    · rw [held', held] at same
      cases congrArg Account.data same
      exact absurd ⟨rfl, rfl⟩ changed
    · exact ⟨works, after.handsOver_of_owners held' changed⟩

/-- A position stays the program's until a call closes it. -/
theorem kept_or_closed {p : Pmlc} (held : s.get k = ⟨rt.programId, .pmlc p⟩) (calls : List (Call rt)) :
    (∃ q, (runCalls rt calls s).get k = ⟨rt.programId, .pmlc q⟩) ∨
      ∃ before c after, calls = before ++ c :: after ∧ WorksOn (runCalls rt before s) c k ∧ c.instruction = .closePmlc := by
  induction calls generalizing s p with
  | nil => exact .inl ⟨p, held⟩
  | cons c rest ih =>
    -- The call may close the position; otherwise the rest of the run decides.
    have next : (∃ q, (execute rt c s).get k = ⟨rt.programId, .pmlc q⟩) ∨ WorksOn s c k ∧ c.instruction = .closePmlc := by
      rcases pmlc_of_execute held c with same | ⟨works, after⟩
      · exact .inl ⟨p, same.trans held⟩
      · by_cases closes : c.instruction = .closePmlc
        · exact .inr ⟨works, closes⟩
        · exact .inl (after.kept closes)
    rcases next with ⟨q, held'⟩ | closed
    · rcases ih held' with kept | ⟨before, c', after, rfl, closed⟩
      · exact .inl kept
      · exact .inr ⟨c :: before, c', after, rfl, closed⟩
    · exact .inr ⟨[], c, rest, rfl, closed⟩

/-- A position is settled at most once and its economics never change: until a call closes it, it is what
it evolved into and the calls obey the rules for its status; after a settlement nothing settles it or
hands it over; and no call opens a position under its number again. -/
theorem position_settles_once {p : Pmlc} (reached : Reachable rt (fun _ => True) s)
    (held : s.get k = ⟨rt.programId, .pmlc p⟩) (later : List (Call rt)) :
    ((∃ q, (runCalls rt later s).get k = ⟨rt.programId, .pmlc q⟩) ∨
      ∃ before c after, later = before ++ c :: after ∧ WorksOn (runCalls rt before s) c k ∧ c.instruction = .closePmlc) ∧
    (∀ q, (runCalls rt later s).get k = ⟨rt.programId, .pmlc q⟩ →
      p.Evolves q ∧ ∀ c : Call rt, PmlcRules (runCalls rt later s) c k q) ∧
    (∀ (c : Call rt) (between : List (Call rt)) (c' : Call rt), WorksOn (runCalls rt later s) c k →
      c.instruction.settles = true → WorksOn (runCalls rt between (execute rt c (runCalls rt later s))) c' k →
      c'.instruction.settles = false ∧ c'.instruction.handsOver = false) ∧
    ∀ (c : Call rt) (j : Pubkey) (q : Pmlc), (execute rt c (runCalls rt later s)).get j = ⟨rt.programId, .pmlc q⟩ →
      q.instrument = p.instrument → q.id = p.id →
      j = k ∧ ∃ q', (runCalls rt later s).get k = ⟨rt.programId, .pmlc q'⟩ := by
  have tracks := (tracks_of_reachable reached held).runCalls later
  refine ⟨kept_or_closed held later, fun q held' => ⟨tracks.evolves q held', pmlcRules held'⟩, ?_, ?_⟩
  · intro c between c' works settles works'
    obtain ⟨p1, held1, after⟩ := pmlc_of_given works.given (Call.ran works.returns)
    obtain ⟨live, p2, held2, ended⟩ := after.of_settles settles
    -- Whatever lies there later evolved from a position that is over.
    have reached' : Reachable rt (fun _ => True) (execute rt c (runCalls rt later s)) :=
      .call c (reached.runCalls fun _ _ => trivial) trivial
    obtain ⟨p3, held3, after3⟩ := pmlc_of_given works'.given (Call.ran works'.returns)
    have evolves := ((tracks_of_reachable reached' held2).runCalls between).evolves p3 held3
    have still : p3.status ≠ PMLC_STATUS_LIVE := by
      rw [evolves.status_of_over (not_live_of_over ended)]
      exact not_live_of_over ended
    constructor
    · rw [← Bool.not_eq_true]
      exact fun again => still (after3.of_settles again).1
    · rw [← Bool.not_eq_true]
      exact fun again => still (after3.of_handsOver again)
  · intro c j q held' instrument id
    obtain rfl := (tracks.execute c).here held' instrument id
    refine ⟨rfl, ?_⟩
    rcases execute_eq_or_ok c (runCalls rt later s) with same | ran
    · exact ⟨q, same ▸ held'⟩
    · exact tracks.before ran held'

/-- The sample's position is resolved, and cannot be resolved again. -/
theorem position_settles_once_traded :
    ¬ WorksOn (runCalls Runtime.sample Sample.again (execute Runtime.sample
          (Sample.resolve Sample.poly Sample.alice Sample.bob 3 (Sample.outcome 1 10000)) Sample.traded))
      (Sample.resolve Sample.poly Sample.alice Sample.bob 3 (Sample.outcome 2 10000)) (Sample.pmlc Sample.poly 3) := by
  intro again
  obtain ⟨p, held, -⟩ := Ledger.live_of_isLive
    (by decide +kernel : Sample.traded.isLive (Sample.pmlc Sample.poly 3) (Sample.instrument Sample.poly) = true)
  have owned : Sample.traded.owner (Sample.pmlc Sample.poly 3) = Runtime.sample.programId := by decide +kernel
  have reached : Reachable Runtime.sample (fun _ => True) Sample.traded := Sample.reachable fun _ _ => trivial
  have once := (position_settles_once reached (get_eq_of_data owned held) []).2.2.1
  rw [runCalls_nil] at once
  have works : WorksOn Sample.traded (Sample.resolve Sample.poly Sample.alice Sample.bob 3 (Sample.outcome 1 10000))
      (Sample.pmlc Sample.poly 3) := ⟨by decide +kernel, rfl⟩
  exact absurd (once _ Sample.again _ works rfl again).1 (by decide)

end Polyleverage
