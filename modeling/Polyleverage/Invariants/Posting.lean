import Polyleverage.Invariants.Upkeep

/-! # What a post does

A post checks the instrument, charges the session it was given, prunes the owner's expired intents,
moves the reserve in the owner's margin account, and inserts the intent. It writes the session, the book
and the margin account, and nothing else.
-/

namespace Polyleverage

open Machine

variable {rt : Runtime} {inv : rt.Invocation} {s t : Ledger} {k : Pubkey}

/-- The collateral of the contracts that are posted. -/
def PostIntentArgs.collateralReserve (args : PostIntentArgs) (inst : InstrumentConfig) : ℕ :=
  args.contracts.toNat * inst.collateralBucket

/-- The fee buffer for a posted intent. -/
def PostIntentArgs.feeBuffer (args : PostIntentArgs) (inst : InstrumentConfig) (b : IntentBook) : ℕ :=
  args.collateralReserve inst * b.header.cachedMaxFeeBps / BPS_DENOM

/-- All that a post reserves. -/
def PostIntentArgs.reserve (args : PostIntentArgs) (inst : InstrumentConfig) (b : IntentBook) : ℕ :=
  args.collateralReserve inst + args.feeBuffer inst b

theorem feeBufferFor_ok {contracts bucket maxFeeBps buffer : ℕ} (buffered : feeBufferFor contracts bucket maxFeeBps = .ok buffer) :
    buffer = contracts * bucket * maxFeeBps / BPS_DENOM := by
  rw [feeBufferFor, orOverflow_ok] at buffered
  simp only [bind, Option.bind_eq_some_iff, checkedMul_eq_some] at buffered
  obtain ⟨_, ⟨-, rfl⟩, _, ⟨-, rfl⟩, buffered⟩ := buffered
  split at buffered
  · exact (Option.some.inj buffered).symm
  · cases buffered

/-- The session of a post after it was charged. -/
def Charged (s t : Ledger) (amount : ℕ) : Option Pubkey → Prop
  | none => True
  | some k => ∃ x x', s.data k = .session x ∧ x.recordIntent amount = .ok x' ∧ t.get k = ⟨s.owner k, .session x'⟩

/-- A post that returned: what it read, and what it left. -/
structure Posting (rt : Runtime) (inv : rt.Invocation) (s : Ledger) (ctx : PostCtx) (args : PostIntentArgs) (id : ℕ)
    (t : Ledger) where
  inst : InstrumentConfig
  b : IntentBook
  b1 : IntentBook
  b2 : IntentBook
  m : MarginAccount
  m1 : MarginAccount
  bump : ℕ
  refund : ℕ
  owned : ∀ k ∈ [ctx.config, ctx.instrument, ctx.book, ctx.margin], s.owner k = rt.programId
  instrument_eq : s.data ctx.instrument = .instrumentConfig inst
  book_eq : s.data ctx.book = .intentBook b
  margin_eq : s.data ctx.margin = .marginAccount m
  book_of : inst.intentBook = ctx.book
  margin_address : rt.address (.margin ctx.owner inst.collateralMint) = ctx.margin
  isSide : IsSide args.side.toNat
  some_contracts : args.contracts.toNat ≠ 0
  priced : validatePriceTicked args.priceFp.toNat inst.tickFp = .ok ()
  unexpired : inv.slot < args.expirationSlot.toNat
  pruned : (Book.pruneOwnExpired ctx.owner inv.slot).run b = .ok refund b1
  reserved : (reserveForPost ctx.owner inst.collateralMint bump refund (args.reserve inst b)).run m = .ok () m1
  posted : (Book.post ctx.owner (args.draft (args.collateralReserve inst) (args.feeBuffer inst b))).run b1 = .ok id b2
  charged : Charged s t (args.reserve inst b) ctx.session
  book_after : t.get ctx.book = ⟨rt.programId, .intentBook b2⟩
  margin_after : t.get ctx.margin = ⟨rt.programId, .marginAccount m1⟩
  others : ∀ k, k ≠ ctx.book → k ≠ ctx.margin → ctx.session ≠ some k → t.get k = s.get k

theorem chargeTo_ok {session : Option Pubkey} {amount : ℕ} {u : Unit} (ran : (chargeTo rt inv session amount).run s = .ok u t) :
    Charged s t amount session ∧ (∀ k, session ≠ some k → t.get k = s.get k) ∧
      ∀ k, session = some k → ∃ x, s.data k = .session x := by
  cases session with
  | none =>
    obtain ⟨-, rfl⟩ := Exec.pure_ok.mp ran
    exact ⟨trivial, fun _ _ => rfl, fun _ impossible => by cases impossible⟩
  | some k =>
    obtain ⟨x, y, found, inner, rfl, -⟩ := atAccount_ok ran
    rw [AccountData.loadSession_ok] at found
    simp only [chargeSession, Exec.bind_check, Exec.put_ok, exists_eq_left'] at inner
    obtain ⟨x', recorded, rfl⟩ := inner
    refine ⟨⟨x, x', found, recorded, Ledger.get_setData_self _ _⟩, fun j other => ?_, fun j here => ?_⟩
    · apply Ledger.get_setData_of_ne
      rintro rfl
      exact other rfl
    · cases here
      exact ⟨x, found⟩

theorem postIntent_ok {ctx : PostCtx} {args : PostIntentArgs} {id : ℕ} (ran : (postIntent rt inv ctx args).run s = .ok id t) :
    Nonempty (Posting rt inv s ctx args id t) := by
  simp only [postIntent, Exec.bind_check, exists_const, ne_eq, not_not, not_le] at ran
  obtain ⟨-, -, owned, cfg, -, -, inst, found, -, at_book, bump, ⟨here, -⟩, side, contracts, priced, unexpired,
    collateralReserve, reserve_eq, b, found_book, feeBuffer, buffered, totalReserve, total_eq, ran⟩ := ran
  have owned_book : s.owner ctx.book = rt.programId := owned _ (by simp)
  have owned_margin : s.owner ctx.margin = rt.programId := owned _ (by simp)
  rw [orOverflow_ok, checkedMul_eq_some] at reserve_eq
  rw [orOverflow_ok, checkedAdd_eq_some] at total_eq
  obtain ⟨-, rfl⟩ := reserve_eq
  obtain ⟨-, rfl⟩ := total_eq
  obtain rfl := feeBufferFor_ok buffered
  obtain ⟨s1, charged, ran⟩ : ∃ s1, (chargeTo rt inv ctx.session (args.reserve inst b)).run s = .ok () s1 ∧ (do
      let refund ← atBook rt inv ctx.book (Book.pruneOwnExpired ctx.owner inv.slot)
      atMargin rt inv ctx.margin (reserveForPost ctx.owner inst.collateralMint bump refund (args.reserve inst b))
      atBook rt inv ctx.book (Book.post ctx.owner (args.draft (args.collateralReserve inst) (args.feeBuffer inst b)))).run
        s1 = .ok id t := by
    split at ran
    next session given =>
      rw [Exec.bind_ok] at ran
      obtain ⟨_, s1, charged, ran⟩ := ran
      exact ⟨s1, by rw [given]; exact charged, ran⟩
    next given => exact ⟨s, by rw [given]; rfl, ran⟩
  obtain ⟨chargedTo, kept, held⟩ := chargeTo_ok charged
  have not_book : ctx.session ≠ some ctx.book := by
    intro same
    obtain ⟨x, at_session⟩ := held _ same
    rw [found_book] at at_session
    cases at_session
  simp only [Exec.bind_ok] at ran
  obtain ⟨refund, s2, pruned, _, s3, reserved, posted⟩ := ran
  obtain ⟨b0, b1, read_book, removed, rfl⟩ := atBook_ok pruned
  obtain ⟨m, m1, read_margin, moved, rfl⟩ := atMargin_ok reserved
  obtain ⟨b1', b2, reread, inserted, rfl⟩ := atBook_ok posted
  have same0 : s1.data ctx.book = s.data ctx.book := congrArg Account.data (kept _ not_book)
  rw [read_book, found_book] at same0
  cases same0
  have apart : ctx.margin ≠ ctx.book := by
    intro same
    rw [same, Ledger.data_setData_self] at read_margin
    cases read_margin
  have read_margin1 : s1.data ctx.margin = .marginAccount m := by
    rw [← read_margin, Ledger.data_setData_of_ne _ _ apart]
  have not_margin : ctx.session ≠ some ctx.margin := by
    intro same
    obtain ⟨x, at_session⟩ := held _ same
    rw [same] at chargedTo
    obtain ⟨-, x', -, -, after⟩ := chargedTo
    rw [Ledger.data, after] at read_margin1
    cases read_margin1
  have margin_eq : s.data ctx.margin = .marginAccount m := by
    rw [← read_margin1]
    exact (congrArg Account.data (kept _ not_margin)).symm
  rw [Ledger.data_setData_of_ne _ _ apart.symm, Ledger.data_setData_self] at reread
  cases reread
  have owner1 : ∀ j, ctx.session ≠ some j → s1.owner j = s.owner j := fun j other => congrArg Account.owner (kept j other)
  refine ⟨{
    inst, b, b1, b2, m, m1, bump, refund, owned
    instrument_eq := found
    book_eq := found_book
    margin_eq, book_of := at_book
    margin_address := here
    isSide := ?_
    some_contracts := fun zero => contracts (UInt16.toNat_inj.mp zero)
    priced, unexpired
    pruned := removed
    reserved := moved
    posted := inserted
    charged := ?_
    book_after := ?_
    margin_after := ?_
    others := fun j book margin session => ?_ }⟩
  · by_contra neither
    exact side ⟨fun long => neither (.inl long), fun short => neither (.inr short)⟩
  · cases given : ctx.session with
    | none => trivial
    | some j =>
      rw [given] at chargedTo not_book not_margin
      obtain ⟨x, x', at_session, recorded, after⟩ := chargedTo
      refine ⟨x, x', at_session, recorded, ?_⟩
      rw [Ledger.get_setData_of_ne _ _ fun same => not_book (congrArg some same),
        Ledger.get_setData_of_ne _ _ fun same => not_margin (congrArg some same),
        Ledger.get_setData_of_ne _ _ fun same => not_book (congrArg some same), after]
  · rw [Ledger.get_setData_self, Ledger.owner_setData, Ledger.owner_setData, owner1 _ not_book, owned_book]
  · rw [Ledger.get_setData_of_ne _ _ apart, Ledger.get_setData_self, Ledger.owner_setData, owner1 _ not_margin, owned_margin]
  · rw [Ledger.get_setData_of_ne _ _ book, Ledger.get_setData_of_ne _ _ margin, Ledger.get_setData_of_ne _ _ book,
      kept j session]

namespace Posting

variable {ctx : PostCtx} {args : PostIntentArgs} {id : ℕ}

theorem listed (posting : Posting rt inv s ctx args id t) : s.Listed rt ctx.instrument posting.inst.listing :=
  listed_of_load (posting.owned _ (by simp)) posting.instrument_eq

/-- The book that a post finds is the instrument's, and sound for its bucket. -/
theorem sound (posting : Posting rt inv s ctx args id t) (genuine : Genuine rt s) (books : Books rt s) :
    posting.b.header.instrument = ctx.instrument ∧ Sound posting.inst.collateralBucket posting.b := by
  have sound := genuine.sound_of_listed books posting.listed posting.book_of (posting.owned _ (by simp)) posting.book_eq
  exact sound

theorem step_prune (posting : Posting rt inv s ctx args id t) (sound : Sound posting.inst.collateralBucket posting.b) :
    BookStep posting.inst.collateralBucket posting.b posting.b1 (-Pi.single ctx.owner (posting.refund : ℤ)) :=
  bookStep_pruneOwnExpired sound posting.pruned

/-- It asks for no fee buffer. -/
theorem feeBuffer_eq (posting : Posting rt inv s ctx args id t) (sound : Sound posting.inst.collateralBucket posting.b) :
    args.feeBuffer posting.inst posting.b = 0 := by
  have cached : posting.b.header.cachedMaxFeeBps = 0 := sound.unbuffered.1
  rw [PostIntentArgs.feeBuffer, cached, Nat.mul_zero, Nat.zero_div]

/-- So it is sound after the post. -/
theorem step_post (posting : Posting rt inv s ctx args id t) (sound : Sound posting.inst.collateralBucket posting.b) :
    BookStep posting.inst.collateralBucket posting.b1 posting.b2
      (Pi.single ctx.owner ((args.collateralReserve posting.inst + args.feeBuffer posting.inst posting.b : ℕ) : ℤ)) := by
  exact bookStep_post (posting.step_prune sound).sound posting.isSide posting.some_contracts rfl (posting.feeBuffer_eq sound)
    posting.posted

end Posting

end Polyleverage
