import Polyleverage.Invariants.Counters
import Polyleverage.Invariants.Upkeep

/-! # What instructions do to books

A relation that every program on a book respects is respected by every instruction, for all books and
also when an inner match is left half done. Only the creation of an instrument makes a book.
-/

namespace Polyleverage

open Machine

variable {rt : Runtime} {inv : rt.Invocation} {s t : Ledger} {j k : Pubkey} {u : Unit}

/-- Every book stays at its account and changes by `R`, and no other account becomes a book. -/
structure Shelves (R : IntentBook → IntentBook → Prop) (s t : Ledger) : Prop where
  kept : ∀ k o b, s.get k = ⟨o, .intentBook b⟩ → ∃ b', t.get k = ⟨o, .intentBook b'⟩ ∧ R b b'
  old : ∀ k o b', t.get k = ⟨o, .intentBook b'⟩ → ∃ b, s.get k = ⟨o, .intentBook b⟩

/-- A book comes from the book that was at its account. -/
theorem Shelves.back {R : IntentBook → IntentBook → Prop} (shelves : Shelves R s t) {o : Pubkey} {b' : IntentBook}
    (held : t.get k = ⟨o, .intentBook b'⟩) : ∃ b, s.get k = ⟨o, .intentBook b⟩ ∧ R b b' := by
  obtain ⟨b, before⟩ := shelves.old k o b' held
  obtain ⟨b'', held', related⟩ := shelves.kept k o b before
  rw [held] at held'
  cases held'
  exact ⟨b, before, related⟩

section Preorder

variable {R : IntentBook → IntentBook → Prop} [Std.Refl R]

instance : Std.Refl (Shelves R) := ⟨fun _ => ⟨fun _ _ b held => ⟨b, held, Std.Refl.refl b⟩, fun _ _ b' held => ⟨b', held⟩⟩⟩

instance [IsTrans IntentBook R] : IsTrans Ledger (Shelves R) where
  trans _ _ _ first next :=
    { kept := fun k o b held => by
        obtain ⟨b', held', related⟩ := first.kept k o b held
        obtain ⟨b'', held'', related'⟩ := next.kept k o b' held'
        exact ⟨b'', held'', IsTrans.trans _ _ _ related related'⟩
      old := fun k o b' held => by
        obtain ⟨b, held'⟩ := next.old k o b' held
        exact first.old k o b held' }

theorem kept_of_touches {old new : List AccountKind} (touches : Touches old new s t) (unwritten : AccountKind.intentBook ∉ old)
    {o : Pubkey} {b : IntentBook} (held : s.get k = ⟨o, .intentBook b⟩) : t.get k = ⟨o, .intentBook b⟩ := by
  rw [touches.get_eq, held]
  rwa [Ledger.data, held]

theorem shelves_of_touches {old new : List AccountKind} (touches : Touches old new s t)
    (unwritten : AccountKind.intentBook ∉ old) (unleft : AccountKind.intentBook ∉ new) : Shelves R s t where
  kept _ _ b held := ⟨b, kept_of_touches touches unwritten held, Std.Refl.refl b⟩
  old k o b' held := by
    refine ⟨b', ?_⟩
    rw [← touches.get_eq', held]
    rwa [Ledger.data, held]

/-- A program that writes no book and leaves none. -/
theorem keeping_of_within {α : Type} {m : LedgerM α} (old new : List AccountKind) [Within old new m]
    (unwritten : AccountKind.intentBook ∉ old) (unleft : AccountKind.intentBook ∉ new) : Exec.Keeping (Shelves R) m where
  keeps := by
    have keeps : Exec.Keeps (Touches old new) m := Within.keeps
    exact keeps.mono fun _ _ touches => shelves_of_touches touches unwritten unleft

end Preorder

section Programs

variable {α : Type} {R : IntentBook → IntentBook → Prop} [Std.Refl R]

/-- Writing a book into the account of a book. -/
theorem shelves_setData {x y : IntentBook} (found : s.data k = .intentBook x) (related : R x y) :
    Shelves R s (s.setData k (.intentBook y)) where
  kept j o b held := by
    by_cases here : j = k
    · subst here
      rw [Ledger.data, held] at found
      cases found
      exact ⟨y, by rw [Ledger.get_setData_self, Ledger.owner, held], related⟩
    · exact ⟨b, by rw [Ledger.get_setData_of_ne _ _ here, held], Std.Refl.refl b⟩
  old j o b' held := by
    by_cases here : j = k
    · subst here
      rw [Ledger.get_setData_self] at held
      cases held
      exact ⟨x, by rw [← found]; rfl⟩
    · rw [Ledger.get_setData_of_ne _ _ here] at held
      exact ⟨b', held⟩

instance (m : BookM α) [Exec.Keeping R m] : Exec.Keeping (Shelves R) (atBook rt inv k m) where
  keeps s t left := by
    simp only [Exec.run, atBook, atAccount] at left
    split at left
    · cases left
      exact Std.Refl.refl s
    next x found =>
      rw [AccountData.loadBook_ok] at found
      -- However the inner program ended, it left a related book.
      split at left
      next a y ran =>
        split at left
        · simp at left
        · cases left
          exact shelves_setData found (Exec.Keeping.keeps.ok ran)
      next e y ran =>
        split at left
        · simp at left
        · cases left
          exact shelves_setData found (Exec.Keeping.keeps.err ran)
      · simp at left

/-- Looking at a book leaves it as it is. -/
theorem keeping_of_eq {m : BookM α} (looks : Exec.Keeps Eq m) : Exec.Keeping R m :=
  ⟨looks.mono fun b _ same => same ▸ Std.Refl.refl b⟩

instance (opposite price now skip) : Exec.Keeping R (Book.findOverlapOnSide opposite price now skip) :=
  keeping_of_eq (keeps_findOverlapOnSide _ _ _ _)

instance (now) : Exec.Keeping R (Book.scanForFirstValidPair now) := keeping_of_eq (keeps_scanForFirstValidPair now)

variable [IsTrans IntentBook R]

instance (m : MarginM Unit) : Exec.Keeping (Shelves R) (atMargin rt inv k m) :=
  keeping_of_within [.marginAccount] [.marginAccount] (by simp) (by simp)

instance (view : AccountData → Except ProgramError α) : Exec.Keeping (Shelves R) (load view k) :=
  inferInstanceAs (Exec.Keeping (Shelves R) (Exec.gets _))

instance : Exec.Keeping (Shelves R) (assertSigner rt inv k) := inferInstanceAs (Exec.Keeping (Shelves R) (Exec.rejectIf _ _))

instance : Exec.Keeping (Shelves R) (assertWritable rt inv k) := inferInstanceAs (Exec.Keeping (Shelves R) (Exec.rejectIf _ _))

instance : Exec.Keeping (Shelves R) (assertSystemProgram k) := inferInstanceAs (Exec.Keeping (Shelves R) (Exec.rejectIf _ _))

instance (keys : List Pubkey) : Exec.Keeping (Shelves R) (assertOwned rt keys) := by
  unfold assertOwned
  infer_instance

instance (seeds : Seeds) : Exec.Keeping (Shelves R) (assertPda rt seeds k) := by
  unfold assertPda
  infer_instance

instance : Exec.Keeping (Shelves R) (loadUnpaused k) := keeping_of_within [] [] (by simp) (by simp)

instance (delegate instrument) : Exec.Keeping (Shelves R) (sessionOwner rt inv k delegate instrument) :=
  keeping_of_within [] [] (by simp) (by simp)

instance (owner mint) : Exec.Keeping (Shelves R) (validateMargin rt owner mint k) := keeping_of_within [] [] (by simp) (by simp)

instance (ctx r mint perSide) : Exec.Keeping (Shelves R) (chargeTaker rt inv ctx r mint perSide) :=
  keeping_of_within [.raw, .userVolume, .feeTreasury] [.raw, .userVolume, .feeTreasury] (by simp) (by simp)

instance (ctx r inst) : Exec.Keeping (Shelves R) (openPmlc rt inv ctx r inst) :=
  keeping_of_within [.raw] [.raw, .pmlc] (by simp) (by simp)

end Programs

section Handlers

variable {R : IntentBook → IntentBook → Prop} [Std.Refl R] [IsTrans IntentBook R]

section Match

variable [∀ instrument pmlc bucket long short now,
  Exec.Keeping R (matchInBook rt instrument pmlc bucket long short now)]

instance (ctx longId shortId) : Exec.Keeping (Shelves R) (matchPairCore rt inv ctx longId shortId) := by
  unfold matchPairCore
  repeat with_reducible refine Exec.keeping_bind inferInstance fun _ => ?_
  infer_instance

instance (ctx args long short) : Exec.Keeping (Shelves R) (inlineMatchPair rt inv ctx args long short) := by
  unfold inlineMatchPair
  infer_instance

instance (ctx args id) : Exec.Keeping (Shelves R) (inlineMatch rt inv ctx args id) := by
  unfold inlineMatch
  split
  · refine Exec.keeping_bind inferInstance fun _ => ?_
    split <;> infer_instance
  · infer_instance

instance (args) : Exec.Keeping (Shelves R) (processMatchPair rt inv args) :=
  Exec.keeping_bind (keeping_of_within [] [] (by simp) (by simp)) inferInstance

instance : Exec.Keeping (Shelves R) (processMatchBestAvailable rt inv) := by
  refine Exec.keeping_bind (keeping_of_within [] [] (by simp) (by simp)) fun ctx => ?_
  infer_instance

section Post

variable [∀ owner now, Exec.Keeping R (Book.pruneOwnExpired owner now)] [∀ owner d, Exec.Keeping R (Book.post owner d)]

instance (ctx args) : Exec.Keeping (Shelves R) (postIntent rt inv ctx args) := by
  unfold postIntent
  repeat refine Exec.keeping_bind inferInstance fun _ => ?_
  dsimp only
  split
  · refine Exec.keeping_bind (keeping_of_within [.session] [.session] (by simp) (by simp)) fun _ => ?_
    infer_instance
  · infer_instance

instance (ctx args) : Exec.Keeping (Shelves R) (doPostIntentInner rt inv ctx args) := by
  unfold doPostIntentInner
  infer_instance

instance (args) : Exec.Keeping (Shelves R) (processPostIntent rt inv args) :=
  Exec.keeping_bind (keeping_of_within [] [] (by simp) (by simp)) inferInstance

instance (args) : Exec.Keeping (Shelves R) (processPostIntentDelegated rt inv args) :=
  Exec.keeping_bind (keeping_of_within [] [] (by simp) (by simp)) inferInstance

end Post

end Match

section Cancel

variable [∀ margin mint id authorize, Exec.Keeping R (cancelInBook rt margin mint id authorize)]

instance (instrument margin id authorize) : Exec.Keeping (Shelves R) (cancelIntent rt inv instrument k margin id authorize) := by
  unfold cancelIntent
  infer_instance

instance (id) : Exec.Keeping (Shelves R) (processCancelIntent rt inv id) := by
  unfold processCancelIntent
  split <;> (repeat with_reducible refine Exec.keeping_bind inferInstance fun _ => ?_) <;> infer_instance

instance (id) : Exec.Keeping (Shelves R) (processCancelIntentDelegated rt inv id) := by
  unfold processCancelIntentDelegated
  split <;> (repeat with_reducible refine Exec.keeping_bind inferInstance fun _ => ?_) <;> infer_instance

end Cancel

section Prune

variable [∀ idx side, Exec.Keeping R (pruneSlot idx side)]

instance (mint work margins) : Exec.Keeping (Shelves R) (pruneAll rt inv k mint work margins) := by
  induction work generalizing margins with
  | nil => exact inferInstanceAs (Exec.Keeping (Shelves R) (pure ()))
  | cons e work ih =>
    unfold pruneAll
    refine Exec.keeping_bind (keeping_of_within [] [] (by simp) (by simp)) fun found => ?_
    infer_instance

instance : Exec.Keeping (Shelves R) (processPruneExpired rt inv) := by
  unfold processPruneExpired
  split <;> (repeat with_reducible refine Exec.keeping_bind inferInstance fun _ => ?_) <;> infer_instance

end Prune

instance (side owner) : Exec.Keeping (Shelves R) (handOver rt inv k side owner) :=
  keeping_of_within [.pmlc] [.pmlc] (by simp) (by simp)

instance (args withSettle)
    [∀ substitutor p bucket long short now, Exec.Keeping R (substituteInBook substitutor p bucket long short now)] :
    Exec.Keeping (Shelves R) (doSubstitute rt inv args withSettle) := by
  unfold doSubstitute
  split <;> (repeat with_reducible refine Exec.keeping_bind inferInstance fun _ => ?_) <;> infer_instance

instance (side) : Exec.Keeping (Shelves R) (clearReentry rt inv k side) :=
  keeping_of_within [.pmlc] [.pmlc] (by simp) (by simp)

instance (free bucket maxFeeBps) : Exec.Keeping (Shelves R) (affordableContracts free bucket maxFeeBps) :=
  keeping_of_within [] [] (by simp) (by simp)

section Reenter

variable [∀ owner d, Exec.Keeping R (Book.post owner d)]

instance (owner book margin inst p args contracts maxFeeBps) :
    Exec.Keeping (Shelves R) (reenter rt inv owner book margin k inst p args contracts maxFeeBps) := by
  unfold reenter
  infer_instance

instance (args) : Exec.Keeping (Shelves R) (processClaimReentry rt inv args) := by
  unfold processClaimReentry
  split <;> (repeat with_reducible refine Exec.keeping_bind inferInstance fun _ => ?_) <;> infer_instance

end Reenter

instance (additional : UInt32) [Exec.Keeping R (IntentBook.expandNodes additional.toNat)] :
    Exec.Keeping (Shelves R) (processExpandIntentBook rt inv additional) := by
  refine Exec.keeping_bind (keeping_of_within [] [] (by simp) (by simp)) fun _ => ?_
  split <;> (repeat with_reducible refine Exec.keeping_bind inferInstance fun _ => ?_) <;> infer_instance

end Handlers

/-! ### New books -/

/-- The creation of an instrument makes one empty book, at the address of this instrument's book. -/
theorem books_of_createInstrument {args : CreateInstrumentArgs} (ran : (processCreateInstrument rt inv args).run s = .ok () t)
    {o : Pubkey} {b : IntentBook} (held : t.get k = ⟨o, .intentBook b⟩) :
    s.get k = ⟨o, .intentBook b⟩ ∨
      ∃ instrument capacity bump, k = rt.address (.book instrument) ∧ s.get k = default ∧
        b = IntentBook.initIntentBook instrument capacity bump 0 := by
  unfold processCreateInstrument at ran
  split at ran
  next admin config instrument book mint system nonce rest _ =>
    simp only [Exec.bind_check, exists_const] at ran
    obtain ⟨-, -, -, -, -, -, -, -, -, -, -, -, _, -, bump, -, -, ran⟩ := ran
    rw [Exec.bind_ok] at ran
    obtain ⟨_, s1, created, ran⟩ := ran
    simp only [Exec.bind_check, exists_const] at ran
    obtain ⟨bookBump, ⟨here_book, -⟩, -, ran⟩ := ran
    rw [Exec.bind_ok] at ran
    obtain ⟨_, s2, created_book, ran⟩ := ran
    simp only [Exec.bind_check, exists_const] at ran
    obtain ⟨-, ran⟩ := ran
    rw [Exec.bind_ok] at ran
    obtain ⟨_, s3, inited, ran⟩ := ran
    rw [Exec.bind_ok] at ran
    obtain ⟨_, s4, inited_book, ran⟩ := ran
    obtain ⟨-, rfl⟩ := createAccount_ok created
    obtain ⟨vacant, rfl⟩ := createAccount_ok created_book
    obtain ⟨-, rfl, -⟩ := initAccount_ok inited
    obtain ⟨-, rfl, -⟩ := initAccount_ok inited_book
    have last : Touches [.raw] [.raw, .marketNonce] _ t := Within.keeps.ok ran
    have other : (t.data k).kind ∉ [AccountKind.raw, .marketNonce] := by
      rw [Ledger.data, held]
      simp
    rw [last.get_eq' other] at held
    by_cases at_instrument : k = instrument
    · subst at_instrument
      by_cases same : k = book
      · subst same
        rw [Store.get_set_self] at vacant
        have owner : rt.programId = systemProgram := congrArg Account.owner vacant
        exact absurd owner rt.program_ne_system
      · rw [Ledger.get_setData_of_ne _ _ same, Ledger.get_setData_self] at held
        cases congrArg Account.data held
    · by_cases at_book : k = book
      · subst at_book
        rw [Ledger.get_setData_self] at held
        cases congrArg Account.data held
        rw [Store.get_set_of_ne _ _ at_instrument] at vacant
        exact .inr ⟨instrument, _, _, here_book.symm, vacant, rfl⟩
      · rw [Ledger.get_setData_of_ne _ _ at_book, Ledger.get_setData_of_ne _ _ at_instrument,
          Store.get_set_of_ne _ _ at_book, Store.get_set_of_ne _ _ at_instrument] at held
        exact .inl held
  · cases ran

end Polyleverage
