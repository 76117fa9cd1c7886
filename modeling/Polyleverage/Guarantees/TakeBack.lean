import Polyleverage.Guarantees.Removals
import Polyleverage.Guarantees.Solvency

/-! # Taking back an order

What an order reserves can always be had back: its owner may cancel it any time, the delegate of the owner's
session while the session lasts, and anyone once it has expired. Neither a pause nor an amount that is not
there stands in the way; only the free balance has to stay a machine word.
-/

namespace Polyleverage

variable {rt : Runtime} {s : Ledger} {inst : InstrumentConfig} {instrument trader : Pubkey} {i : ℕ} {o : IntentNode}

/-! ### The calls -/

section Calls

variable (rt : Runtime) (inst : InstrumentConfig) (instrument trader : Pubkey) (o : IntentNode) (s : Ledger)

/-- The call cancels this order of the trader, by whoever may at that time. -/
inductive TakesBack : Call rt → Prop where
  | caller {c : Call rt} {id : UInt64} {caller : Pubkey} {rest : List Pubkey} :
    c.instruction = .cancelIntent id → id.toNat = o.id →
    c.inv.accounts = caller :: instrument :: inst.intentBook :: rt.address (.margin trader inst.collateralMint) :: rest →
    c.inv.isSigner caller = true → c.inv.isWritable inst.intentBook = true →
    c.inv.isWritable (rt.address (.margin trader inst.collateralMint)) = true →
    caller = trader ∨ o.expirationSlot ≤ c.inv.slot → TakesBack c
  | delegate {c : Call rt} {id : UInt64} {feePayer delegate session : Pubkey} {x : Session} {rest : List Pubkey} :
    c.instruction = .cancelIntentDelegated id → id.toNat = o.id →
    c.inv.accounts = feePayer :: delegate :: instrument :: inst.intentBook ::
      rt.address (.margin trader inst.collateralMint) :: session :: rest →
    c.inv.isSigner feePayer = true → c.inv.isWritable feePayer = true → c.inv.isSigner delegate = true →
    c.inv.isWritable inst.intentBook = true →
    c.inv.isWritable (rt.address (.margin trader inst.collateralMint)) = true →
    s.get session = ⟨rt.programId, .session x⟩ → LiveSession rt c.inv session delegate instrument trader x → TakesBack c

end Calls

/-! ### What is reserved for an order -/

/-- One order of a trader reserves no more than all of them. -/
theorem BookView.le_reserved {v : BookView} (placed : v.order i = some o)
    (seated : v.trader o.ownerSeat = some trader) (inside : i < v.header.capacity) :
    o.reservedCollateral + o.feeBuffer ≤ v.reserved trader := by
  have one := Finset.single_le_sum (s := Finset.range v.header.capacity)
    (f := fun i => (v.order i).elim 0 (v.weigh trader)) (fun _ _ => Nat.zero_le _) (Finset.mem_range.mpr inside)
  simp only [placed, Option.elim_some, weigh, seated, if_true] at one
  exact one

theorem reserve_gap (reached : Reachable rt (fun i => i.triesMatch = false ∧ i.expands = false) s) :
    (Genuine rt s ∧ Books rt s) ∧ ∀ owner mint, s.gap rt (.reserve owner mint) = 0 := by
  refine reached.induct (P := fun s => (Genuine rt s ∧ Books rt s) ∧ ∀ owner mint, s.gap rt (.reserve owner mint) = 0)
    (fun s gen => ?_) ?_
  · refine ⟨⟨genuine_genesis gen, books_genesis gen⟩, fun owner mint => ?_⟩
    rw [Ledger.gap, gen.holdings, gen.holdings]
    rfl
  · rintro s t inv i ⟨⟨genuine, books⟩, agree⟩ ⟨still, plain⟩ ran
    have kept := upkeep_process genuine ran
    exact ⟨⟨kept.genuine, kept.books plain books⟩, fun owner mint =>
      (kept.reserve still plain books owner mint).trans (agree owner mint)⟩

/-- Also where matches fail half way, what the orders reserve is there. -/
theorem reserve_covered {allowed : Instruction → Prop} (plain : ∀ instr, allowed instr → instr.expands = false)
    (reached : Reachable rt allowed s) (owner mint : Pubkey) : 0 ≤ s.gap rt (.reserve owner mint) := by
  have covered : (Genuine rt s ∧ Books rt s) ∧ 0 ≤ s.gap rt (.reserve owner mint) := by
    refine reached.induct (P := fun s => (Genuine rt s ∧ Books rt s) ∧ 0 ≤ s.gap rt (.reserve owner mint)) ?_ ?_
    · intro s gen
      refine ⟨⟨genuine_genesis gen, books_genesis gen⟩, ?_⟩
      rw [Ledger.gap, gen.holdings, gen.holdings]
      omega
    · rintro s t inv instr ⟨⟨genuine, books⟩, covered⟩ may ran
      have kept := upkeep_process genuine ran
      exact ⟨⟨kept.genuine, kept.books (plain instr may) books⟩,
        covered.trans (kept.reserve_le (plain instr may) books owner mint)⟩
  exact covered.2

/-- An order reserves something. -/
theorem Sound.reserve_pos {bucket : ℕ} {b : IntentBook} (sound : Sound bucket b) (some_bucket : bucket ≠ 0)
    (placed : b.order i = some o) : 0 < o.reservedCollateral + o.feeBuffer := by
  obtain ⟨some_left, reserved⟩ := sound.backed i o placed
  have positive := Nat.mul_pos (Nat.pos_of_ne_zero some_left) (Nat.pos_of_ne_zero some_bucket)
  omega

/-- Reserves that cover what the books reserve cover every order, in a margin account that exists. -/
theorem margin_of_order {b : IntentBook} (genuine : Genuine rt s) (books : Books rt s)
    (covered : 0 ≤ s.gap rt (.reserve trader inst.collateralMint))
    (listed : s.get instrument = ⟨rt.programId, .instrumentConfig inst⟩)
    (held : s.get inst.intentBook = ⟨rt.programId, .intentBook b⟩) (placed : b.order i = some o)
    (seated : b.trader o.ownerSeat = some trader) :
    ∃ m, s.get (rt.address (.margin trader inst.collateralMint)) = ⟨rt.programId, .marginAccount m⟩ ∧
      o.reservedCollateral + o.feeBuffer ≤ m.reservedCollateral := by
  have terms := listed_of_load (owner_of_get listed) (data_of_get listed)
  obtain ⟨of_instrument, sound⟩ := genuine.sound_of_listed books terms rfl (owner_of_get held) (data_of_get held)
  obtain ⟨l, slot⟩ := slot_of_order placed
  -- The order reserves something, which is part of what the margin account has reserved.
  have part : o.reservedCollateral + o.feeBuffer ≤ b.view.reserved trader :=
    BookView.le_reserved placed seated (sound.consistent.tidy.intent_lt slot)
  have positive := sound.reserve_pos (genuine.listed_ok terms).2.1 placed
  have booked := Ledger.le_holdings (s := s) (μ := AccountData.booked (s.mintOf rt) trader inst.collateralMint)
    (owner_of_get held)
  rw [data_of_get held, AccountData.booked, of_instrument, Ledger.mintOf_of_listed terms, if_pos rfl] at booked
  rw [Ledger.gap, genuine.holdings_reserved] at covered
  have enough : o.reservedCollateral + o.feeBuffer ≤ s.marginBalance rt trader inst.collateralMint .reserved := by omega
  unfold Ledger.marginBalance at enough
  split at enough
  next owned =>
    split at enough
    next m found => exact ⟨m, get_eq_of_data owned found, enough⟩
    · omega
  · omega

/-! ### The call returns -/

/-- Whoever takes it back, the order leaves the book and its reserve is free. -/
theorem takesBack_iff {b : IntentBook} {m : MarginAccount} {c : Call rt} {t : Ledger} {u : Unit}
    (genuine : Genuine rt s)
    (consistent : Consistent b) (listed : s.get instrument = ⟨rt.programId, .instrumentConfig inst⟩)
    (held : s.get inst.intentBook = ⟨rt.programId, .intentBook b⟩) (placed : b.order i = some o)
    (seated : b.trader o.ownerSeat = some trader)
    (found : s.get (rt.address (.margin trader inst.collateralMint)) = ⟨rt.programId, .marginAccount m⟩)
    (takes : TakesBack rt inst instrument trader o s c) :
    (process rt c.inv c.instruction).run s = .ok u t ↔
      ∃ b' m', (Book.cancel o.side i o.ownerSeat).run b = .ok () b' ∧
        (MarginAccount.moveReservedToFree (o.reservedCollateral + o.feeBuffer)).run m = .ok () m' ∧
        t = (s.setData inst.intentBook (.intentBook b')).setData (rt.address (.margin trader inst.collateralMint))
          (.marginAccount m') := by
  obtain ⟨l, slot⟩ := slot_of_order placed
  have cancel {authorize : Pubkey → IntentNode → Except ProgramError Unit}
      (authorized : authorize trader (o.withLinks l) = .ok ()) (writable : c.inv.isWritable inst.intentBook = true)
      (writable' : c.inv.isWritable (rt.address (.margin trader inst.collateralMint)) = true) :
      (cancelIntent rt c.inv instrument inst.intentBook (rt.address (.margin trader inst.collateralMint)) o.id
        authorize).run s = .ok u t ↔
      ∃ b' m', (Book.cancel o.side i o.ownerSeat).run b = .ok () b' ∧
        (MarginAccount.moveReservedToFree (o.reservedCollateral + o.feeBuffer)).run m = .ok () m' ∧
        t = (s.setData inst.intentBook (.intentBook b')).setData (rt.address (.margin trader inst.collateralMint))
          (.marginAccount m') := by
    have ran := cancelIntent_eq_ok (u := u) (t := t) genuine (data_of_get listed) held consistent slot seated authorized
      rfl (owner_of_get found) writable writable'
    refine ran.trans ⟨?_, ?_⟩
    · rintro ⟨b', m0, m', at_margin, cancelled, freed, rfl⟩
      rw [data_of_get found] at at_margin
      cases at_margin
      exact ⟨b', m', cancelled, freed, rfl⟩
    · rintro ⟨b', m', cancelled, freed, rfl⟩
      exact ⟨b', m, m', data_of_get found, cancelled, freed, rfl⟩
  cases takes with
  | @caller id caller rest instruction named accounts signed writable writable' may =>
    have authorized : authorizeCaller caller c.inv.slot trader (o.withLinks l) = .ok () := by
      apply if_neg
      rintro ⟨other, early⟩
      have early' : c.inv.slot < o.expirationSlot := early
      rcases may with same | late
      · exact other same
      · omega
    rw [instruction]
    simp only [process, processCancelIntent, accounts, Exec.bind_check, exists_const, signed, writable, writable', true_and,
      named, cancel authorized writable writable', and_iff_right_iff_imp, List.mem_cons, List.not_mem_nil, or_false]
    rintro - k (rfl | rfl | rfl)
    · exact owner_of_get listed
    · exact owner_of_get held
    · exact owner_of_get found
  | @delegate id feePayer delegate session x rest instruction named accounts payer_signed payer_writable signed writable
      writable' at_session live =>
    have authorized : authorizeSession trader trader (o.withLinks l) = .ok () := by
      apply if_neg
      exact not_not.mpr rfl
    rw [instruction]
    simp only [process, processCancelIntentDelegated, accounts, Exec.bind_check, exists_const, signed, payer_signed,
      payer_writable, writable, writable', true_and, named, List.mem_cons, List.not_mem_nil, or_false]
    constructor
    · rintro ⟨-, owner, ⟨x', at_session', live'⟩, ran⟩
      rw [data_of_get at_session] at at_session'
      cases at_session'
      have same : owner = trader := live'.owner_eq.symm.trans live.owner_eq
      rw [same] at ran
      exact (cancel authorized writable writable').mp ran
    · intro taken
      refine ⟨?_, trader, ⟨x, data_of_get at_session, live⟩, (cancel authorized writable writable').mpr taken⟩
      rintro k (rfl | rfl | rfl | rfl)
      · exact owner_of_get listed
      · exact owner_of_get held
      · exact owner_of_get found
      · exact owner_of_get at_session

/-- The call returns when the reserve fits in the free balance, and then does just that. -/
theorem TakesBack.returns_iff {b : IntentBook} {m : MarginAccount} {c : Call rt}
    (takes : TakesBack rt inst instrument trader o s c)
    (genuine : Genuine rt s) (consistent : Consistent b) (listed : s.get instrument = ⟨rt.programId, .instrumentConfig inst⟩)
    (held : s.get inst.intentBook = ⟨rt.programId, .intentBook b⟩) (placed : b.order i = some o)
    (seated : b.trader o.ownerSeat = some trader)
    (found : s.get (rt.address (.margin trader inst.collateralMint)) = ⟨rt.programId, .marginAccount m⟩)
    (enough : o.reservedCollateral + o.feeBuffer ≤ m.reservedCollateral) :
    (c.returns s = true ↔ m.freeCollateral + (o.reservedCollateral + o.feeBuffer) < 2 ^ 64) ∧
      (c.returns s = true → ∃ b', b'.view = { b.view with order := Function.update b.view.order i none } ∧
        execute rt c s = (s.setData inst.intentBook (.intentBook b')).setData
          (rt.address (.margin trader inst.collateralMint)) (.marginAccount
            { m with
              freeCollateral := m.freeCollateral + (o.reservedCollateral + o.feeBuffer)
              reservedCollateral := m.reservedCollateral - (o.reservedCollateral + o.feeBuffer) })) := by
  have runs {t : Ledger} := takesBack_iff (u := ()) (t := t) genuine consistent listed held placed seated found takes
  obtain ⟨b1, cancelled, -, view⟩ := Book.run_cancel consistent.tidy placed seated
  constructor
  · constructor
    · intro returns
      obtain ⟨-, m', -, freed, -⟩ := runs.mp (c.ran returns)
      exact ((MarginAccount.move_ok (by decide)).mp freed).2.1
    · intro small
      have freed : (MarginAccount.moveReservedToFree (o.reservedCollateral + o.feeBuffer)).run m = .ok () _ :=
        (MarginAccount.move_ok (by decide)).mpr ⟨enough, small, rfl⟩
      exact Call.returns_of_ran (runs.mpr ⟨b1, _, cancelled, freed, rfl⟩)
  · intro returns
    obtain ⟨b', m', cancelled', freed, same⟩ := runs.mp (c.ran returns)
    rw [cancelled] at cancelled'
    cases cancelled'
    obtain ⟨-, -, rfl⟩ := (MarginAccount.move_ok (by decide)).mp freed
    exact ⟨b1, view, same⟩

/-- The reserve of every order can be had back. Its trader's margin account is there and has it reserved, and a
cancel by the trader, by the delegate of the trader's live session (whose cap is not used up), or by anyone after the
expiration returns unless the free balance outgrows a machine word; it takes the order out of the book, frees its
reserve, and changes nothing else. -/
theorem takes_back {b : IntentBook} (reached : Reachable rt (fun i => i.triesMatch = false ∧ i.expands = false) s)
    (listed : s.get instrument = ⟨rt.programId, .instrumentConfig inst⟩)
    (held : s.get inst.intentBook = ⟨rt.programId, .intentBook b⟩) (placed : b.order i = some o) :
    ∃ trader m, b.trader o.ownerSeat = some trader ∧
      s.get (rt.address (.margin trader inst.collateralMint)) = ⟨rt.programId, .marginAccount m⟩ ∧
      o.reservedCollateral + o.feeBuffer ≤ m.reservedCollateral ∧
      ∀ c, TakesBack rt inst instrument trader o s c →
        (c.returns s = true ↔ m.freeCollateral + (o.reservedCollateral + o.feeBuffer) < 2 ^ 64) ∧
        (c.returns s = true → ∃ b', b'.view = { b.view with order := Function.update b.view.order i none } ∧
          execute rt c s = (s.setData inst.intentBook (.intentBook b')).setData
            (rt.address (.margin trader inst.collateralMint)) (.marginAccount
              { m with
                freeCollateral := m.freeCollateral + (o.reservedCollateral + o.feeBuffer)
                reservedCollateral := m.reservedCollateral - (o.reservedCollateral + o.feeBuffer) })) := by
  obtain ⟨⟨genuine, books⟩, agree⟩ := reserve_gap reached
  have terms := listed_of_load (owner_of_get listed) (data_of_get listed)
  obtain ⟨-, sound⟩ := genuine.sound_of_listed books terms rfl (owner_of_get held) (data_of_get held)
  obtain ⟨trader, seated⟩ := sound.consistent.orderly.owned i o placed
  obtain ⟨m, found, enough⟩ := margin_of_order genuine books (agree _ _).ge listed held placed seated
  exact ⟨trader, m, seated, found, enough, fun c takes =>
    takes.returns_iff genuine sound.consistent listed held placed seated found enough⟩

namespace Sample

/-- Alice cancels her intent. -/
def cancelOwn : Call Runtime.sample :=
  call (.cancelIntent 1) [alice] [alice, Sample.instrument poly, book poly, marginOf alice]

/-- Bob cancels it for her. -/
def cancelFor : Call Runtime.sample :=
  call (.cancelIntentDelegated 1) [bob, carol]
    [carol, bob, Sample.instrument poly, book poly, marginOf alice, Runtime.sample.address (.session alice)]

def delegated : Ledger := runCalls Runtime.sample delegating genesis

end Sample

/-- What Bob posted for Alice, she may cancel, he may, and Carol may once it has expired. -/
theorem takes_back_delegated :
    Sample.cancelOwn.returns Sample.delegated = true ∧ Sample.cancelFor.returns Sample.delegated = true ∧
      (Sample.cancelExpired Sample.alice 1).returns Sample.delegated = true := by
  have owned : Sample.delegated.owner (Sample.instrument Sample.poly) = Runtime.sample.programId ∧
      Sample.delegated.owner (Sample.book Sample.poly) = Runtime.sample.programId ∧
      Sample.delegated.owner (Runtime.sample.address (.session Sample.alice)) = Runtime.sample.programId := by decide +kernel
  obtain ⟨inst, read, terms⟩ := Sample.exists_of_read (by decide +kernel :
    (Sample.delegated.data (Sample.instrument Sample.poly)).loadInstrument.toOption.map
      (fun c => (c.intentBook, c.collateralMint)) = some (Sample.book Sample.poly, Sample.mint))
  obtain ⟨b, read', order⟩ := Sample.exists_of_read (by decide +kernel :
    (Sample.delegated.data (Sample.book Sample.poly)).loadBook.toOption.map (fun b => (b.order 2).map fun o =>
      (o.id, o.expirationSlot, o.reservedCollateral + o.feeBuffer, b.trader o.ownerSeat)) =
      some (some (1, 100, 1000, some Sample.alice)))
  obtain ⟨m, read'', free⟩ := Sample.exists_of_read (by decide +kernel :
    (Sample.delegated.data (Sample.marginOf Sample.alice)).loadMargin.toOption.map (·.freeCollateral) = some 98000)
  obtain ⟨x, read3, live⟩ := Sample.exists_of_read (by decide +kernel :
    (Sample.delegated.data (Runtime.sample.address (.session Sample.alice))).loadSession.toOption.map (fun x =>
      (x.owner, x.delegate, x.isActive 1, x.allowsInstrument (Sample.instrument Sample.poly))) =
      some (Sample.alice, Sample.bob, true, true))
  simp only [Prod.mk.injEq] at terms live
  obtain ⟨at_book, of_mint⟩ := terms
  obtain ⟨o, placed, terms⟩ := Option.map_eq_some_iff.mp order
  simp only [Prod.mk.injEq] at terms
  obtain ⟨named, expires, total, seated⟩ := terms
  have listed := get_eq_of_data owned.1 (AccountData.loadInstrument_ok.mp read)
  have held := get_eq_of_data owned.2.1 (AccountData.loadBook_ok.mp read')
  have at_session := get_eq_of_data owned.2.2 (AccountData.loadSession_ok.mp read3)
  rw [← at_book] at held
  have margin : Runtime.sample.address (.margin Sample.alice inst.collateralMint) = Sample.marginOf Sample.alice := by
    rw [of_mint]
    rfl
  have reached : Reachable Runtime.sample (fun i => i.triesMatch = false ∧ i.expands = false) Sample.delegated :=
    Sample.reachable (by decide +kernel)
  obtain ⟨trader, m', seated', found, -, returns⟩ := takes_back reached listed held placed
  rw [seated] at seated'
  cases seated'
  have same : m' = m := by
    have data := data_of_get found
    rw [margin, AccountData.loadMargin_ok.mp read''] at data
    cases data
    rfl
  have small : m'.freeCollateral + (o.reservedCollateral + o.feeBuffer) < 2 ^ 64 := by
    rw [same, free, total]
    decide
  have session : LiveSession Runtime.sample Sample.cancelFor.inv (Runtime.sample.address (.session Sample.alice)) Sample.bob
      (Sample.instrument Sample.poly) Sample.alice x :=
    ⟨live.2.1, live.2.2.1, live.2.2.2, by rw [live.1], live.1⟩
  have id_eq : (1 : UInt64).toNat = o.id := named.symm
  have accounts (caller : Pubkey) : [caller, Sample.instrument Sample.poly, Sample.book Sample.poly, Sample.marginOf Sample.alice] =
      caller :: Sample.instrument Sample.poly :: inst.intentBook ::
        Runtime.sample.address (.margin Sample.alice inst.collateralMint) :: [] := by
    rw [margin, at_book]
  have own :
      TakesBack Runtime.sample inst (Sample.instrument Sample.poly) Sample.alice o Sample.delegated Sample.cancelOwn :=
    .caller rfl id_eq (accounts Sample.alice) rfl rfl rfl (.inl rfl)
  have late : TakesBack Runtime.sample inst (Sample.instrument Sample.poly) Sample.alice o Sample.delegated
      (Sample.cancelExpired Sample.alice 1) :=
    .caller rfl id_eq (accounts Sample.carol) rfl rfl rfl (.inr (expires.trans_le (by decide)))
  have both : [Sample.carol, Sample.bob, Sample.instrument Sample.poly, Sample.book Sample.poly, Sample.marginOf Sample.alice,
      Runtime.sample.address (.session Sample.alice)] = Sample.carol :: Sample.bob :: Sample.instrument Sample.poly ::
        inst.intentBook :: Runtime.sample.address (.margin Sample.alice inst.collateralMint) ::
          Runtime.sample.address (.session Sample.alice) :: [] := by
    rw [margin, at_book]
  have delegate :
      TakesBack Runtime.sample inst (Sample.instrument Sample.poly) Sample.alice o Sample.delegated Sample.cancelFor :=
    .delegate rfl id_eq both rfl rfl rfl rfl rfl at_session session
  exact ⟨(returns _ own).1.mpr small, (returns _ delegate).1.mpr small, (returns _ late).1.mpr small⟩

end Polyleverage
