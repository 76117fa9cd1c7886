import Polyleverage.Invariants.Counters
import Polyleverage.Invariants.FundMoves

/-! # Trading moves nothing

What a handler takes out of one ledger it puts into another: a post reserves what its order counts, a
fill locks what its position holds, and a position that changes hands takes its collateral along.
-/

namespace Polyleverage

open Machine

variable {rt : Runtime} {inv : rt.Invocation} {s t : Ledger} {k : Pubkey} {u : Unit}

/-! ### Matching -/

/-- The instrument that was loaded is listed with these terms. -/
def InstrumentConfig.listing (c : InstrumentConfig) : InstrumentConfig := { c with status := STATUS_ACTIVE }

/-- The position goes to the address of its number. -/
theorem matchInBook_address {instrument pmlc : Pubkey} {bucket longId shortId nowSlot : ℕ} {b b' : IntentBook}
    {r : MatchResult} (ran : (matchInBook rt instrument pmlc bucket longId shortId nowSlot).run b = .ok r b') :
    rt.address (.pmlc instrument r.pmlcId) = pmlc := by
  simp only [matchInBook, Exec.bind_ok, Exec.rejectIf_ok, Exec.gets_ok, Exec.pure_ok, not_not] at ran
  obtain ⟨_, _, _, _, _, _, _, _, _, id, _, _, _, _, ⟨same, rfl⟩, _, _, ⟨_, rfl⟩, _, _, ⟨_, rfl⟩, rfl, rfl⟩ := ran
  exact same

theorem moved_accrue {mint : Pubkey} {amount : ℕ} (genuine : Genuine rt s) (here : rt.address (.treasury mint) = k)
    (ran : (atAccount rt inv AccountData.loadFeeTreasury .feeTreasury k (FeeTreasury.accrue amount)).run s = .ok u t) :
    Moved rt s t (backingEntry mint (-amount)) := by
  apply moved_atTreasury genuine here ran
  intro x y moved
  obtain ⟨-, rfl⟩ := FeeTreasury.accrue_ok.mp moved
  exact ⟨rfl, by simp⟩

/-- Charging the taker puts the fee into the treasury and nothing else anywhere. -/
theorem moved_chargeTaker {ctx : MatchCtx} {r : MatchResult} {mint : Pubkey} {perSide fee : ℕ} (genuine : Genuine rt s)
    (ran : (chargeTaker rt inv ctx r mint perSide).run s = .ok fee t) :
    Moved rt s t (backingEntry mint (-fee)) := by
  simp only [chargeTaker, Exec.bind_ok, load_ok, Exec.pure_ok] at ran
  obtain ⟨_, s1, treasury, _, s2, taker, _, s3, maker, sched, _, ⟨-, rfl⟩, vol, _, ⟨-, rfl⟩, _, s4, took, _, s5, made,
    _, s6, accrued, rfl, rfl⟩ := ran
  obtain ⟨first, here⟩ := moved_ensureFeeTreasury genuine treasury
  have second := moved_ensureUserVolume first.genuine taker
  have third := moved_ensureUserVolume second.genuine maker
  have fourth := moved_addVolume third.genuine took
  have fifth := moved_addVolume fourth.genuine made
  refine first.then (second.then (third.then (fourth.then (fifth.then ?_))))
  rcases Exec.when_ok.mp accrued with ⟨-, accrued⟩ | ⟨none, rfl⟩
  · exact moved_accrue fifth.genuine here accrued
  · refine (Moved.refl fifth.genuine).cast ?_
    rw [Nat.eq_zero_of_not_pos none]
    funext x
    cases x <;> simp [backingEntry]

/-- A new position holds its collateral on both sides. -/
theorem moved_openPmlc {ctx : MatchCtx} {r : MatchResult} {inst : InstrumentConfig} (genuine : Genuine rt s)
    (listed : s.Listed rt ctx.instrument inst.listing) (here : rt.address (.pmlc ctx.instrument r.pmlcId) = ctx.pmlc)
    (ran : (openPmlc rt inv ctx r inst).run s = .ok u t) :
    Moved rt s t (pmlcEntry inst.collateralMint
      (Pi.single r.longTrader (inst.collateralBucket : ℤ) + Pi.single r.shortTrader (inst.collateralBucket : ℤ))) := by
  simp only [openPmlc, Exec.bind_ok, Exec.ofExcept_ok] at ran
  obtain ⟨_, mid, created, notional, _, ⟨-, rfl⟩, sizeFp, _, ⟨-, rfl⟩, wrote⟩ := ran
  obtain ⟨first, rfl⟩ := moved_createAccount genuine created
  obtain ⟨rfl, allowed⟩ := writeData_ok wrote
  have second := moved_setData first.genuine allowed (fun _ _ known => by simp [Ledger.data, AccountData.fixed] at known)
    (fun _ => ⟨here, inst.listing, first.listed listed, rfl, rfl, rfl⟩) fun _ _ => trivial
  refine first.then (second.cast ?_)
  rw [Ledger.data, Store.get_set_self]
  funext x
  cases x with
  | backing mint => simp [entry, AccountData.wealth, pmlcEntry]
  | reserve owner mint => simp [entry, AccountData.reserved, AccountData.booked, pmlcEntry]
  | lock owner mint =>
    simp only [entry, AccountData.locked, AccountData.held, pmlcEntry, MatchResult.pmlc, Pmlc.lockedFor, Pi.add_apply,
      Pi.single_apply, if_true, @eq_comm _ owner]
    by_cases same : inst.collateralMint = mint
    · by_cases long : r.longTrader = owner <;> by_cases short : r.shortTrader = owner <;> simp [same, long, short]
    · simp [same]

/-- What a fill moves between the ledgers cancels out. -/
theorem fill_entry (mint long short : Pubkey) (perSide longRelease shortRelease fee : ℕ) (takerIsLong : Bool) :
    bookEntry mint (-Pi.single long ((perSide + longRelease : ℕ) : ℤ) - Pi.single short ((perSide + shortRelease : ℕ) : ℤ)) +
      (backingEntry mint (-fee) +
      (marginEntry long mint (-(if takerIsLong then fee else 0 : ℕ)) (-(perSide + longRelease)) perSide +
      (marginEntry short mint (-(if takerIsLong then 0 else fee : ℕ)) (-(perSide + shortRelease)) perSide +
      pmlcEntry mint (Pi.single long (perSide : ℤ) + Pi.single short (perSide : ℤ))))) = 0 := by
  funext x
  cases x with
  | backing mint' =>
    simp only [Pi.add_apply, Pi.zero_apply, bookEntry, backingEntry, marginEntry, pmlcEntry]
    by_cases same : mint = mint'
    · cases takerIsLong <;> simp [same]
    · simp [same]
  | reserve owner mint' =>
    simp only [Pi.add_apply, Pi.sub_apply, Pi.neg_apply, Pi.zero_apply, bookEntry, backingEntry, marginEntry, pmlcEntry,
      Pi.single_apply, @eq_comm _ owner]
    by_cases same : mint = mint'
    · by_cases onLong : long = owner
      · by_cases onShort : short = owner
        · simp [same, onLong, onShort]
          omega
        · simp [same, onLong, onShort]
      · by_cases onShort : short = owner <;> simp [same, onLong, onShort]
    · simp [same]
  | lock owner mint' =>
    simp only [Pi.add_apply, Pi.zero_apply, bookEntry, backingEntry, marginEntry, pmlcEntry, Pi.single_apply,
      @eq_comm _ owner]
    by_cases same : mint = mint'
    · by_cases onLong : long = owner <;> by_cases onShort : short = owner <;> simp [same, onLong, onShort]
    · simp [same]

theorem moved_matchPairCore {ctx : MatchCtx} {longId shortId : ℕ} (genuine : Genuine rt s)
    (owned_instrument : s.owner ctx.instrument = rt.programId) (owned_book : s.owner ctx.book = rt.programId)
    (ran : (matchPairCore rt inv ctx longId shortId).run s = .ok u t) : Moved rt s t 0 := by
  simp only [matchPairCore, Exec.bind_check, exists_const, ne_eq, not_not] at ran
  obtain ⟨inst, found, -, at_book, ran⟩ := ran
  have listed : s.Listed rt ctx.instrument inst.listing := listed_of_load owned_instrument found
  rw [Exec.bind_ok] at ran
  obtain ⟨r, s1, matched, ran⟩ := ran
  simp only [Exec.bind_check, exists_const] at ran
  obtain ⟨⟨long_here, -⟩, ⟨short_here, -⟩, ran⟩ := ran
  simp only [Exec.bind_ok] at ran
  obtain ⟨fee, s2, charged, _, s3, long, _, s4, short, opened⟩ := ran
  obtain ⟨b, b', -, inner, -, -⟩ := atAccount_ok matched
  have here := matchInBook_address inner
  have first := moved_atBook genuine listed at_book matched
    (fun _ _ _ ran sound => (bookStep_matchInBook sound ran).1) owned_book
  have second := moved_chargeTaker first.genuine charged
  have third := moved_atMargin second.genuine long_here long fun _ _ => marginStep_lockSide
  have fourth := moved_atMargin third.genuine short_here short fun _ _ => marginStep_lockSide
  have fifth := moved_openPmlc fourth.genuine
    (fourth.listed (third.listed (second.listed (first.listed listed)))) here opened
  exact (first.trans (second.trans (third.trans (fourth.trans fifth)))).cast
    (fill_entry inst.collateralMint r.longTrader r.shortTrader _ _ _ _ _)

/-- The accounts of a match belong to the program. -/
theorem unpackMatchAccounts_ok {ctx : MatchCtx} (ran : (unpackMatchAccounts rt inv).run s = .ok ctx t) :
    s = t ∧ s.owner ctx.instrument = rt.programId ∧ s.owner ctx.book = rt.programId := by
  unfold unpackMatchAccounts at ran
  split at ran
  · simp only [Exec.bind_check, exists_const] at ran
    obtain ⟨-, -, -, -, -, owned, -, ran⟩ := ran
    split at ran
    · simp only [Exec.bind_check, exists_const] at ran
      obtain ⟨-, -, -, -, _, -, ran⟩ := ran
      obtain ⟨rfl, rfl⟩ := Exec.pure_ok.mp ran
      exact ⟨rfl, owned _ (by simp), owned _ (by simp)⟩
    · cases ran
  · cases ran

theorem moved_processMatchPair {args : MatchPairArgs} (genuine : Genuine rt s)
    (ran : (processMatchPair rt inv args).run s = .ok () t) : Moved rt s t 0 := by
  rw [processMatchPair, Exec.bind_ok] at ran
  obtain ⟨ctx, _, unpacked, ran⟩ := ran
  obtain ⟨rfl, instrument, book⟩ := unpackMatchAccounts_ok unpacked
  exact moved_matchPairCore genuine instrument book ran

/-- A program that leaves the book alone. -/
theorem moved_lookAtBook {α : Type} {m : BookM α} {a : α} (genuine : Genuine rt s) (keeps : Exec.Keeps Eq m)
    (ran : (atBook rt inv k m).run s = .ok a t) : Moved rt s t 0 := by
  obtain ⟨b, b', found, inner, rfl, -⟩ := atAccount_ok ran
  obtain rfl := keeps.ok inner
  rw [AccountData.loadBook_ok] at found
  apply moved_of_get_eq genuine
  intro j
  by_cases here : j = k
  · rw [here, Ledger.get_setData_self, ← found]
    rfl
  · exact Ledger.get_setData_of_ne s _ here

theorem moved_processMatchBestAvailable (genuine : Genuine rt s)
    (ran : (processMatchBestAvailable rt inv).run s = .ok () t) : Moved rt s t 0 := by
  simp only [processMatchBestAvailable, Exec.bind_ok, Exec.orErr_ok] at ran
  obtain ⟨ctx, _, unpacked, pair, mid, scanned, ⟨longId, shortId⟩, _, ⟨-, rfl⟩, ran⟩ := ran
  obtain ⟨rfl, instrument, book⟩ := unpackMatchAccounts_ok unpacked
  have first := moved_lookAtBook genuine (keeps_scanForFirstValidPair _) scanned
  exact first.then (moved_matchPairCore first.genuine (first.owned _ instrument) (first.owned _ book) ran)

/-! ### Posting -/

/-- Without a fee to expect nothing is buffered. -/
theorem feeBufferFor_zero {contracts bucket buffer : ℕ} (buffered : feeBufferFor contracts bucket 0 = .ok buffer) :
    buffer = 0 := by
  rw [feeBufferFor, orOverflow_ok] at buffered
  simp only [Option.bind_eq_bind, Option.bind_eq_some_iff, checkedMul_eq_some] at buffered
  obtain ⟨_, -, _, ⟨-, rfl⟩, small⟩ := buffered
  simpa using small.symm

/-- What a post does to the session that it is charged to. -/
def chargeTo (rt : Runtime) (inv : rt.Invocation) (session : Option Pubkey) (amount : ℕ) : LedgerM Unit :=
  match session with
  | some session => atAccount rt inv AccountData.loadSession .session session (chargeSession amount)
  | none => pure ()

theorem moved_chargeTo {session : Option Pubkey} {amount : ℕ} (genuine : Genuine rt s)
    (ran : (chargeTo rt inv session amount).run s = .ok u t) : Moved rt s t 0 ∧ Touches [.session] [.session] s t := by
  cases session with
  | none =>
    obtain ⟨-, rfl⟩ := Exec.pure_ok.mp ran
    exact ⟨.refl genuine, Std.Refl.refl _⟩
  | some session =>
    change (atAccount rt inv AccountData.loadSession .session session (chargeSession amount)).run s = .ok u t at ran
    refine ⟨moved_atIdle genuine ran (fun _ => rfl) (fun _ _ _ => rfl) ?_, Within.keeps.ok ran⟩
    intro x y moved fits
    simp only [chargeSession, Exec.bind_check, Exec.put_ok] at moved
    obtain ⟨_, rfl, z, recorded, rfl⟩ := moved
    obtain ⟨-, rfl⟩ := Session.recordIntent_ok.mp recorded
    exact fits

/-- What a post reserves is what its order counts. -/
theorem post_entry (owner mint : Pubkey) (refund reserve : ℤ) :
    bookEntry mint (-Pi.single owner refund) +
      (marginEntry owner mint 0 (reserve - refund) 0 + bookEntry mint (Pi.single owner reserve)) = 0 := by
  funext x
  cases x with
  | backing mint' => simp [bookEntry, marginEntry]
  | reserve owner' mint' =>
    simp only [Pi.add_apply, Pi.neg_apply, Pi.zero_apply, bookEntry, marginEntry, Pi.single_apply, @eq_comm _ owner']
    by_cases same : mint = mint'
    · by_cases mine : owner = owner'
      · simp only [same, mine, if_true, and_self]
        omega
      · simp [same, mine]
    · simp [same]
  | lock owner' mint' => simp [bookEntry, marginEntry]

theorem moved_postIntent {ctx : PostCtx} {args : PostIntentArgs} {id : ℕ} (genuine : Genuine rt s)
    (ran : (postIntent rt inv ctx args).run s = .ok id t) :
    Moved rt s t 0 ∧ s.owner ctx.instrument = rt.programId ∧ s.owner ctx.book = rt.programId := by
  simp only [postIntent, Exec.bind_check, exists_const, ne_eq, not_not] at ran
  obtain ⟨-, -, owned, cfg, -, -, inst, found, -, at_book, bump, ⟨here, -⟩, side, contracts, -, -, collateralReserve,
    reserve_eq, b, found_book, feeBuffer, buffered, totalReserve, total_eq, ran⟩ := ran
  have owned_instrument : s.owner ctx.instrument = rt.programId := owned _ (by simp)
  have owned_book : s.owner ctx.book = rt.programId := owned _ (by simp)
  refine ⟨?_, owned_instrument, owned_book⟩
  have listed : s.Listed rt ctx.instrument inst.listing := listed_of_load owned_instrument found
  obtain ⟨s1, charged, ran⟩ : ∃ s1, (chargeTo rt inv ctx.session totalReserve).run s = .ok () s1 ∧ (do
      let refund ← atBook rt inv ctx.book (Book.pruneOwnExpired ctx.owner inv.slot)
      atMargin rt inv ctx.margin (reserveForPost ctx.owner inst.collateralMint bump refund totalReserve)
      atBook rt inv ctx.book (Book.post ctx.owner (args.draft collateralReserve feeBuffer))).run s1 = .ok id t := by
    split at ran
    next session given =>
      rw [Exec.bind_ok] at ran
      obtain ⟨_, s1, charged, ran⟩ := ran
      exact ⟨s1, by rw [given]; exact charged, ran⟩
    next given => exact ⟨s, by rw [given]; rfl, ran⟩
  simp only [Exec.bind_ok] at ran
  obtain ⟨refund, s2, pruned, _, s3, reserved, posted⟩ := ran
  rw [orOverflow_ok, checkedMul_eq_some] at reserve_eq
  rw [orOverflow_ok, checkedAdd_eq_some] at total_eq
  obtain ⟨-, rfl⟩ := reserve_eq
  obtain ⟨-, rfl⟩ := total_eq
  obtain ⟨first, sessions⟩ := moved_chargeTo genuine charged
  have second := moved_atBook first.genuine (first.listed listed) at_book pruned
    (fun _ _ _ ran sound => bookStep_pruneOwnExpired sound ran) (first.owned _ owned_book)
  have third := moved_atMargin second.genuine here reserved fun _ _ => marginStep_reserveForPost
  -- The book still caches the fee that the buffer was computed from.
  obtain ⟨b0, b1, found0, inner, rfl, -⟩ := atAccount_ok pruned
  rw [AccountData.loadBook_ok] at found0
  have same0 : s1.data ctx.book = s.data ctx.book :=
    congrArg Account.data (sessions.get_eq (by simp [found_book]))
  rw [found_book, found0] at same0
  cases same0
  have cached := (Exec.Keeping.keeps.ok inner : Grows b b1).cached
  have margins : Touches [.marginAccount] [.marginAccount] _ s3 := Within.keeps.ok reserved
  have same1 := congrArg Account.data (margins.get_eq (k := ctx.book) (by simp))
  have fourth := moved_atBook (δ := Pi.single ctx.owner ((args.contracts.toNat * inst.collateralBucket + feeBuffer : ℕ) : ℤ))
    third.genuine (third.listed (second.listed (first.listed listed))) at_book posted
    (fun b2 b3 found2 ran sound => by
      have same2 : AccountData.intentBook b2 = .intentBook b1 := by
        rw [← found2]
        exact same1.trans (Ledger.data_setData_self _ _)
      cases same2
      have none : feeBuffer = 0 := by
        have zero : b1.header.cachedMaxFeeBps = 0 := sound.unbuffered.1
        rw [← cached, zero] at buffered
        exact feeBufferFor_zero buffered
      have isSide : IsSide args.side.toNat := by
        by_contra neither
        exact side ⟨fun long => neither (.inl long), fun short => neither (.inr short)⟩
      have some_contracts : args.contracts.toNat ≠ 0 := fun zero => contracts (UInt16.toNat_inj.mp zero)
      exact bookStep_post sound isSide some_contracts rfl none ran)
    (third.owned _ (second.owned _ (first.owned _ owned_book)))
  exact first.then (((second.trans (third.trans fourth))).cast (post_entry ctx.owner inst.collateralMint refund _))

/-! ### Cancelling and pruning -/

/-- What a cancel frees is what its order counted. -/
theorem cancel_entry (owner mint : Pubkey) (amount : ℤ) :
    bookEntry mint (-Pi.single owner amount) + marginEntry owner mint 0 (-amount) 0 = 0 := by
  funext x
  cases x with
  | backing mint' => simp [bookEntry, marginEntry]
  | reserve owner' mint' =>
    simp only [Pi.add_apply, Pi.neg_apply, Pi.zero_apply, bookEntry, marginEntry, Pi.single_apply, @eq_comm _ owner']
    by_cases same : mint = mint'
    · by_cases mine : owner = owner' <;> simp [same, mine]
    · simp [same]
  | lock owner' mint' => simp [bookEntry, marginEntry]

/-- The refund goes to the margin account that was given. -/
theorem cancelInBook_address {margin mint : Pubkey} {intentId : ℕ}
    {authorize : Pubkey → IntentNode → Except ProgramError Unit} {b b' : IntentBook} {refund : Refund}
    (ran : (cancelInBook rt margin mint intentId authorize).run b = .ok refund b') :
    rt.address (.margin refund.owner mint) = margin := by
  simp only [cancelInBook, Exec.bind_ok, Exec.gets_ok, Exec.ofExcept_ok, Exec.rejectIf_ok, Exec.pure_ok, not_not] at ran
  obtain ⟨⟨idx, side⟩, _, -, node, _, -, seat, _, -, _, _, -, _, _, ⟨same, -⟩, _, _, -, total, _, -, rfl, -⟩ := ran
  exact same

theorem moved_cancelIntent {instrument book margin : Pubkey} {intentId : ℕ}
    {authorize : Pubkey → IntentNode → Except ProgramError Unit} (genuine : Genuine rt s)
    (owned : ∀ k ∈ [instrument, book, margin], s.owner k = rt.programId)
    (ran : (cancelIntent rt inv instrument book margin intentId authorize).run s = .ok u t) : Moved rt s t 0 := by
  simp only [cancelIntent, Exec.bind_check, exists_const, ne_eq, not_not] at ran
  obtain ⟨inst, found, at_book, ran⟩ := ran
  rw [Exec.bind_ok] at ran
  obtain ⟨refund, mid, cancelled, refunded⟩ := ran
  have listed : s.Listed rt instrument inst.listing := listed_of_load (owned _ (by simp)) found
  have first := moved_atBook genuine listed at_book cancelled
    (fun _ _ _ ran sound => (bookStep_cancelInBook sound ran).1) (owned _ (by simp))
  obtain ⟨b, b', -, inner, -, -⟩ := atAccount_ok cancelled
  have second := moved_atMargin first.genuine (cancelInBook_address inner) refunded fun _ _ => marginStep_refundMargin
  exact (first.trans second).cast (cancel_entry refund.owner inst.collateralMint refund.total)

theorem moved_processCancelIntent {intentId : UInt64} (genuine : Genuine rt s)
    (ran : (processCancelIntent rt inv intentId).run s = .ok () t) : Moved rt s t 0 := by
  unfold processCancelIntent at ran
  split at ran
  · simp only [Exec.bind_check, exists_const] at ran
    obtain ⟨-, -, -, owned, ran⟩ := ran
    exact moved_cancelIntent genuine owned ran
  · cases ran

theorem moved_processCancelIntentDelegated {intentId : UInt64} (genuine : Genuine rt s)
    (ran : (processCancelIntentDelegated rt inv intentId).run s = .ok () t) : Moved rt s t 0 := by
  unfold processCancelIntentDelegated at ran
  split at ran
  · simp only [Exec.bind_check, exists_const] at ran
    obtain ⟨-, -, -, -, -, owned, owner, -, ran⟩ := ran
    exact moved_cancelIntent genuine (fun k member => owned k (by simp at member ⊢; tauto)) ran
  · cases ran

end Polyleverage
