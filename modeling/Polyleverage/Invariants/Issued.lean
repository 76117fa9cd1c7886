import Polyleverage.Invariants.Shelves

/-! # Numbers are issued once

The counter of a book numbers intents and positions. No instruction sets it back, also when a book grows
or an inner match is left half done, and every position that appears takes a number that was not issued
before.
-/

namespace Polyleverage

open Machine

variable {rt : Runtime} {inv : rt.Invocation} {s t : Ledger} {j k : Pubkey} {u : Unit}

/-! ### Books only grow -/

/-- Every book stays a book of its instrument at its account, and only grows. -/
def BooksGrow (s t : Ledger) : Prop :=
  ∀ k o b, s.get k = ⟨o, .intentBook b⟩ → ∃ b', t.get k = ⟨o, .intentBook b'⟩ ∧ Grows b b'

instance {α : Type} (m : LedgerM α) [Exec.Keeping (Shelves Grows) m] : Exec.Keeping BooksGrow m where
  keeps := by
    have keeps : Exec.Keeps (Shelves Grows) m := Exec.Keeping.keeps
    exact keeps.mono fun _ _ shelves => shelves.kept

namespace Instruction

/-- The instruction makes an instrument and its book. -/
def creates : Instruction → Bool
  | createInstrument _ => true
  | _ => false

/-- Only an instruction that writes books, or makes one, leaves one. -/
theorem intentBook_notMem_leaves {instr : Instruction} (created : instr.creates = false)
    (unwritten : AccountKind.intentBook ∉ instr.writes) : AccountKind.intentBook ∉ instr.leaves := by
  cases instr <;> simp_all [creates, writes, leaves]

end Instruction

/-- Every instruction but the creation of an instrument works on the books that are there. -/
theorem shelves_of_process {instr : Instruction} (created : instr.creates = false)
    (ran : (process rt inv instr).run s = .ok () t) : Shelves Grows s t := by
  by_cases unwritten : AccountKind.intentBook ∈ instr.writes
  · have keeps : Exec.Keeping (Shelves Grows) (process rt inv instr) := by
      cases instr with
      | postIntent args => exact inferInstanceAs (Exec.Keeping _ (processPostIntent rt inv args))
      | postIntentDelegated args => exact inferInstanceAs (Exec.Keeping _ (processPostIntentDelegated rt inv args))
      | matchPair args => exact inferInstanceAs (Exec.Keeping _ (processMatchPair rt inv args))
      | matchBestAvailable => exact inferInstanceAs (Exec.Keeping _ (processMatchBestAvailable rt inv))
      | cancelIntent id => exact inferInstanceAs (Exec.Keeping _ (processCancelIntent rt inv id))
      | cancelIntentDelegated id => exact inferInstanceAs (Exec.Keeping _ (processCancelIntentDelegated rt inv id))
      | pruneExpired => exact inferInstanceAs (Exec.Keeping _ (processPruneExpired rt inv))
      | claimReentry args => exact inferInstanceAs (Exec.Keeping _ (processClaimReentry rt inv args))
      | matchSubstitute args => exact inferInstanceAs (Exec.Keeping _ (doSubstitute rt inv args false))
      | matchSubstituteWithSettle args => exact inferInstanceAs (Exec.Keeping _ (doSubstitute rt inv args true))
      | expandIntentBook n => exact inferInstanceAs (Exec.Keeping _ (processExpandIntentBook rt inv n))
      | _ => simp [Instruction.writes] at unwritten
    exact keeps.keeps.ok ran
  · exact shelves_of_touches ((within_process rt inv instr).keeps.ok ran) unwritten
      (Instruction.intentBook_notMem_leaves created unwritten)

/-- No instruction sets a book back. -/
theorem booksGrow_of_process {instr : Instruction} (ran : (process rt inv instr).run s = .ok () t) : BooksGrow s t := by
  cases created : instr.creates with
  | false => exact (shelves_of_process created ran).kept
  | true =>
    have unwritten : AccountKind.intentBook ∉ instr.writes := by
      cases instr <;> simp_all [Instruction.creates, Instruction.writes]
    intro k o b held
    exact ⟨b, kept_of_touches ((within_process rt inv instr).keeps.ok ran) unwritten held, Std.Refl.refl b⟩

/-! ### Issued numbers -/

/-- The book of the instrument has handed out this number. -/
def Issued (rt : Runtime) (instrument : Pubkey) (id : ℕ) (s : Ledger) : Prop :=
  ∃ b, s.get (rt.address (.book instrument)) = ⟨rt.programId, .intentBook b⟩ ∧ id < b.header.nextIntentId

theorem BooksGrow.issued {instrument : Pubkey} {id : ℕ} (grow : BooksGrow s t) (issued : Issued rt instrument id s) :
    Issued rt instrument id t := by
  obtain ⟨b, held, lt⟩ := issued
  obtain ⟨b', held', grown⟩ := grow _ _ b held
  exact ⟨b', held', lt_of_lt_of_le lt grown.ids⟩

/-- A match numbers its position with the next number of the book. -/
theorem matchInBook_issues {instrument pmlc : Pubkey} {bucket longId shortId nowSlot : ℕ} {b b' : IntentBook}
    {r : MatchResult} (ran : (matchInBook rt instrument pmlc bucket longId shortId nowSlot).run b = .ok r b') :
    b.header.nextIntentId ≤ r.pmlcId ∧ r.pmlcId < b'.header.nextIntentId := by
  simp only [matchInBook, Exec.bind_ok, Exec.rejectIf_ok, Exec.gets_ok, Exec.ofExcept_ok, Exec.pure_ok, not_not] at ran
  obtain ⟨_, _, ⟨_, rfl⟩, _, _, ⟨_, rfl⟩, _, b1, written, id, b2, numbered, _, _, ⟨-, rfl⟩, _, _, ⟨_, rfl⟩, _, _, ⟨_, rfl⟩,
    rfl, rfl⟩ := ran
  have grown : Grows b b1 := Exec.Keeping.keeps.ok written
  obtain ⟨rfl, rfl⟩ := IntentBook.nextIntentId_ok numbered
  exact ⟨grown.ids, Nat.lt_succ_self _⟩

/-- Every position that was not there before has a number that was issued meanwhile. -/
def Opens (rt : Runtime) (s t : Ledger) : Prop :=
  ∀ k p, t.get k = ⟨rt.programId, .pmlc p⟩ →
    t.get k = s.get k ∨ ¬ Issued rt p.instrument p.id s ∧ Issued rt p.instrument p.id t

/-- However opening a position ends, it leaves no other position than the one that was asked for. -/
theorem pmlc_of_openPmlc {ctx : MatchCtx} {r : MatchResult} {inst : InstrumentConfig} {p : Pmlc} {o : Pubkey}
    (left : t ∈ ((openPmlc rt inv ctx r inst).run s).state?) (held : t.get k = ⟨o, .pmlc p⟩) :
    t.get k = s.get k ∨ p.instrument = ctx.instrument ∧ p.id = r.pmlcId := by
  rw [openPmlc] at left
  rcases Exec.left_bind left with ⟨_, failed⟩ | ⟨_, s1, created, left⟩
  · exact absurd failed createAccount_ne_err
  obtain ⟨-, rfl⟩ := createAccount_ok created
  have blank : Touches [.raw] [.raw] s (s.set ctx.pmlc ⟨rt.programId, .raw 304⟩) :=
    (inferInstance : Within [.raw] [.raw] (createAccount rt inv ctx.payer ctx.pmlc 304 rt.programId)).keeps.ok created
  have kept : t = s.set ctx.pmlc ⟨rt.programId, .raw 304⟩ → t.get k = s.get k := by
    rintro rfl
    apply blank.get_eq'
    simp [Ledger.data, held]
  rcases Exec.left_bind_check left with rfl | ⟨notional, -, left⟩
  · exact .inl (kept rfl)
  rcases Exec.left_bind_check left with rfl | ⟨sizeFp, -, left⟩
  · exact .inl (kept rfl)
  rw [writeData, Exec.run_bind_get, Exec.run_bind, Exec.run_abortIf] at left
  split at left
  · simp at left
  · cases left
    by_cases here : k = ctx.pmlc
    · subst here
      rw [Ledger.get_setData_self] at held
      cases congrArg Account.data held
      exact .inr ⟨rfl, rfl⟩
    · rw [Ledger.get_setData_of_ne _ _ here, Store.get_set_of_ne s _ here]
      exact .inl rfl

/-- A match opens a position under a fresh number, however it ends. -/
theorem opens_matchPairCore {ctx : MatchCtx} {longId shortId : ℕ} (genuine : Genuine rt s)
    (owned_instrument : s.owner ctx.instrument = rt.programId) (owned_book : s.owner ctx.book = rt.programId)
    (left : t ∈ ((matchPairCore rt inv ctx longId shortId).run s).state?) : Opens rt s t := by
  intro k p held
  rw [matchPairCore] at left
  rcases Exec.left_bind_check left with rfl | ⟨inst, found, left⟩
  · exact .inl rfl
  have listed : s.Listed rt ctx.instrument inst.listing := listed_of_load owned_instrument found
  rcases Exec.left_bind_check left with rfl | ⟨_, -, left⟩
  · exact .inl rfl
  rcases Exec.left_bind_check left with rfl | ⟨_, same, left⟩
  · exact .inl rfl
  have at_book : rt.address (.book ctx.instrument) = ctx.book :=
    (genuine.listed_ok listed).1.symm.trans (not_not.mp same)
  -- Before the position is opened no position is written.
  let kinds : List AccountKind := [.intentBook, .marginAccount, .userVolume, .feeTreasury, .raw]
  have kept : Touches kinds kinds s t → t.get k = s.get k := fun touches =>
    touches.get_eq' (by simp [kinds, Ledger.data, held])
  rcases Exec.left_bind left with ⟨e, failed⟩ | ⟨r, s1, matched, left⟩
  · exact .inl (kept (Within.keeps.err failed))
  have first : Touches kinds kinds s s1 := Within.keeps.ok matched
  have shelves : Shelves Grows s1 t := Exec.Keeping.keeps s1 t left
  have grow : BooksGrow s1 t := shelves.kept
  rcases Exec.left_bind_check left with rfl | ⟨_, -, left⟩
  · exact .inl (kept first)
  rcases Exec.left_bind_check left with rfl | ⟨_, -, left⟩
  · exact .inl (kept first)
  rcases Exec.left_bind left with ⟨e, failed⟩ | ⟨fee, s2, charged, left⟩
  · have last : Touches kinds kinds s1 t := Within.keeps.err failed
    exact .inl (kept (Trans.trans first last))
  have next : Touches kinds kinds s1 s2 := Within.keeps.ok charged
  have second := Trans.trans first next
  rcases Exec.left_bind left with ⟨e, failed⟩ | ⟨_, s3, long, left⟩
  · have last : Touches kinds kinds s2 t := Within.keeps.err failed
    exact .inl (kept (Trans.trans second last))
  have next : Touches kinds kinds s2 s3 := Within.keeps.ok long
  have third := Trans.trans second next
  rcases Exec.left_bind left with ⟨e, failed⟩ | ⟨_, s4, short, left⟩
  · have last : Touches kinds kinds s3 t := Within.keeps.err failed
    exact .inl (kept (Trans.trans third last))
  have next : Touches kinds kinds s3 s4 := Within.keeps.ok short
  have fourth := Trans.trans third next
  rcases pmlc_of_openPmlc left held with same | ⟨instrument, id⟩
  · left
    rw [same, fourth.get_eq' (by simp [kinds, Ledger.data, ← same, held])]
  · right
    obtain ⟨b, b', book, inner, rfl⟩ := atBook_ok matched
    obtain ⟨fresh, next⟩ := matchInBook_issues inner
    have book_eq := get_eq_of_data owned_book book
    rw [instrument, id]
    constructor
    · rintro ⟨b0, held0, lt⟩
      rw [at_book, book_eq] at held0
      cases held0
      omega
    · apply grow.issued
      exact ⟨b', by rw [at_book, Ledger.get_setData_self, owned_book], next⟩

/-- What comes before may write books, but no position. -/
theorem Opens.after {v : Ledger} (opens : Opens rt v t) (grow : BooksGrow s v)
    (same : ∀ k p, v.get k = ⟨rt.programId, .pmlc p⟩ → v.get k = s.get k) : Opens rt s t := by
  intro k p held
  rcases opens k p held with untouched | ⟨fresh, issued⟩
  · left
    rw [untouched]
    exact same k p (untouched.symm.trans held)
  · exact .inr ⟨fun early => fresh (grow.issued early), issued⟩

theorem opens_refl : Opens rt s s := fun _ _ _ => .inl rfl

/-- Writes that leave no position behind. -/
theorem same_of_touches {old new : List AccountKind} {p : Pmlc} {o : Pubkey} (touches : Touches old new s t)
    (none : AccountKind.pmlc ∉ new) (held : t.get k = ⟨o, .pmlc p⟩) : t.get k = s.get k := by
  apply touches.get_eq'
  rwa [Ledger.data, held]

theorem opens_inlineMatch {ctx : PostCtx} {args : PostIntentArgs} {id : ℕ} (genuine : Genuine rt s)
    (owned_instrument : s.owner ctx.instrument = rt.programId) (owned_book : s.owner ctx.book = rt.programId)
    (ran : (inlineMatch rt inv ctx args id).run s = .ok u t) : Opens rt s t := by
  unfold inlineMatch at ran
  split at ran
  next counterpartyMargin pmlc system sched takerVolume makerVolume treasury rest _ =>
    rw [Exec.bind_ok] at ran
    obtain ⟨counterparty, s1, looked, ran⟩ := ran
    have first := (moved_lookAtBook genuine (keeps_findOverlapOnSide _ _ _ _) looked).kept
    have books : Touches [.intentBook] [.intentBook] s s1 := Within.keeps.ok looked
    apply Opens.after _ (Exec.Keeping.keeps.ok looked) fun k p held => same_of_touches books (by simp) held
    split at ran
    next counterpartyId =>
      simp only [Exec.bind_ok, Exec.pure_ok] at ran
      obtain ⟨caught, s2, swallowed, -, rfl⟩ := ran
      let inner := inlineMatchCtx ctx args counterpartyMargin pmlc sched takerVolume makerVolume treasury
      have left : s2 ∈ ((inlineMatchPair rt inv inner args id counterpartyId).run s1).state? := by
        rcases Exec.swallow_ok.mp swallowed with ⟨-, matched⟩ | ⟨e, -, failed⟩
        · rw [matched]
          rfl
        · rw [failed]
          rfl
      unfold inlineMatchPair at left
      split at left
      · exact opens_matchPairCore first.genuine (first.owned _ owned_instrument) (first.owned _ owned_book) left
      · exact opens_matchPairCore first.genuine (first.owned _ owned_instrument) (first.owned _ owned_book) left
    · obtain ⟨-, rfl⟩ := Exec.pure_ok.mp ran
      exact opens_refl
  · obtain ⟨-, rfl⟩ := Exec.pure_ok.mp ran
    exact opens_refl

theorem opens_doPostIntentInner {ctx : PostCtx} {args : PostIntentArgs} (genuine : Genuine rt s)
    (ran : (doPostIntentInner rt inv ctx args).run s = .ok u t) : Opens rt s t := by
  rw [doPostIntentInner, Exec.bind_ok] at ran
  obtain ⟨id, mid, posted, matched⟩ := ran
  obtain ⟨moved, instrument, book⟩ := moved_postIntent genuine posted
  have posts : Within [.intentBook, .marginAccount, .session] [.intentBook, .marginAccount, .session]
    (postIntent rt inv ctx args) := within_postIntent ctx args fun _ => by simp
  apply Opens.after _ (Exec.Keeping.keeps.ok posted) fun k p held => same_of_touches (posts.keeps.ok posted) (by simp) held
  rcases Exec.when_ok.mp matched with ⟨-, matched⟩ | ⟨-, rfl⟩
  · exact opens_inlineMatch moved.genuine (moved.owned _ instrument) (moved.owned _ book) matched
  · exact opens_refl

theorem opens_processMatchPair {args : MatchPairArgs} (genuine : Genuine rt s)
    (ran : (processMatchPair rt inv args).run s = .ok () t) : Opens rt s t := by
  rw [processMatchPair, Exec.bind_ok] at ran
  obtain ⟨ctx, _, unpacked, ran⟩ := ran
  obtain ⟨rfl, instrument, book⟩ := unpackMatchAccounts_ok unpacked
  exact opens_matchPairCore genuine instrument book (by rw [ran]; rfl)

theorem opens_processMatchBestAvailable (genuine : Genuine rt s)
    (ran : (processMatchBestAvailable rt inv).run s = .ok () t) : Opens rt s t := by
  simp only [processMatchBestAvailable, Exec.bind_ok, Exec.orErr_ok] at ran
  obtain ⟨ctx, _, unpacked, pair, mid, scanned, ⟨longId, shortId⟩, _, ⟨-, rfl⟩, ran⟩ := ran
  obtain ⟨rfl, instrument, book⟩ := unpackMatchAccounts_ok unpacked
  have first := moved_lookAtBook genuine (keeps_scanForFirstValidPair _) scanned
  have books : Touches [.intentBook] [.intentBook] s mid := Within.keeps.ok scanned
  apply Opens.after _ (Exec.Keeping.keeps.ok scanned) fun k p held => same_of_touches books (by simp) held
  exact opens_matchPairCore first.genuine (first.owned _ instrument) (first.owned _ book) (by rw [ran]; rfl)

/-- Only matches open positions, and they take fresh numbers. -/
theorem opens_of_process {instr : Instruction} (genuine : Genuine rt s) (plain : instr.pmlcIndex = none)
    (ran : (process rt inv instr).run s = .ok () t) : Opens rt s t := by
  by_cases leaves : AccountKind.pmlc ∈ instr.leaves
  · cases instr with
    | postIntent args =>
      rw [process, processPostIntent, Exec.bind_ok] at ran
      obtain ⟨ctx, _, unpacked, ran⟩ := ran
      obtain ⟨rfl, -⟩ := unpackPostIntent_ok unpacked
      exact opens_doPostIntentInner genuine ran
    | postIntentDelegated args =>
      rw [process, processPostIntentDelegated, Exec.bind_ok] at ran
      obtain ⟨ctx, _, unpacked, ran⟩ := ran
      obtain ⟨rfl, -⟩ := unpackPostIntentDelegated_ok unpacked
      exact opens_doPostIntentInner genuine ran
    | matchPair args => exact opens_processMatchPair genuine ran
    | matchBestAvailable => exact opens_processMatchBestAvailable genuine ran
    | _ => simp_all [Instruction.pmlcIndex, Instruction.leaves, Instruction.writes]
  · exact fun k p held => .inl (same_of_touches ((within_process rt inv instr).keeps.ok ran) leaves held)

end Polyleverage
