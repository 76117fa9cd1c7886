import Polyleverage.Invariants.BookStep
import Polyleverage.Invariants.Checks
import Polyleverage.Invariants.Genuine

/-! # What a cancel does

Whoever cancels it, an intent leaves the book, and what it reserved is freed in the margin account of its trader.
-/

namespace Polyleverage

open Machine

variable {rt : Runtime} {inv : rt.Invocation} {s t : Ledger} {inst : InstrumentConfig} {instrument : Pubkey} {u : Unit}

theorem execute_of_ran {c : Call rt} (ran : (process rt c.inv c.instruction).run s = .ok u t) : execute rt c s = t := by
  rw [execute, ran]

theorem owner_of_get {k : Pubkey} {a : Account} (held : s.get k = a) : s.owner k = a.owner := congrArg Account.owner held

theorem data_of_get {k : Pubkey} {a : Account} (held : s.get k = a) : s.data k = a.data := congrArg Account.data held

/-- A book and a margin account lie at different keys. -/
theorem book_ne_margin {j k : Pubkey} {o o' : Pubkey} {b : IntentBook} {m : MarginAccount} (held : s.get j = ⟨o, .intentBook b⟩)
    (held' : s.get k = ⟨o', .marginAccount m⟩) : j ≠ k := by
  rintro rfl
  rw [held] at held'
  cases held'

/-- A cancel of an intent that may go takes it out. -/
theorem cancelInBook_eq_ok {b b' : IntentBook} {idx intentId : ℕ} {node : IntentNode} {trader margin mint : Pubkey}
    {authorize : Pubkey → IntentNode → Except ProgramError Unit} {refund : Refund} (consistent : Consistent b)
    (slot : b.nodes[idx]? = some (.intent node)) (named : intentId = node.id) (seated : b.trader node.ownerSeat = some trader)
    (authorized : authorize trader node = .ok ()) (address : rt.address (.margin trader mint) = margin) :
    (cancelInBook rt margin mint intentId authorize).run b = .ok refund b' ↔
      (Book.cancel node.side idx node.ownerSeat).run b = .ok () b' ∧ node.reservedCollateral + node.feeBuffer < 2 ^ 64 ∧
        refund = ⟨trader, rt.bump (.margin trader mint), node.reservedCollateral + node.feeBuffer⟩ := by
  have found : Book.findIntentById b intentId = .ok (idx, node.side) :=
    (Book.findIntentById_ok consistent).mpr ⟨node, slot, named.symm, rfl⟩
  have held : b.intent idx = .ok node := IntentBook.intent_eq_ok.mpr slot
  obtain ⟨seat, slot', rfl⟩ := IntentBook.seat_of_trader seated
  have seat_eq : b.seat node.ownerSeat = .ok seat := IntentBook.seat_eq_ok.mpr slot'
  simp only [cancelInBook, Exec.bind_check, found, held, seat_eq, authorized, address, Except.ok.injEq, exists_eq_left',
    exists_const, ne_eq, not_true_eq_false, not_false_eq_true, true_and, Exec.bind_ok, Exec.pure_ok, Book.reservation,
    orOverflow_ok, checkedAdd_eq_some]
  constructor
  · rintro ⟨_, _, cancelled, _, ⟨small, rfl⟩, rfl, rfl⟩
    exact ⟨cancelled, small, rfl⟩
  · rintro ⟨cancelled, small, rfl⟩
    exact ⟨(), b', cancelled, _, ⟨small, rfl⟩, rfl, rfl⟩

/-- Whoever cancels it, the intent leaves the book and what it reserved is freed. -/
theorem cancelIntent_eq_ok {b : IntentBook} {idx : ℕ} {node : IntentNode} {trader margin : Pubkey}
    {authorize : Pubkey → IntentNode → Except ProgramError Unit} (genuine : Genuine rt s)
    (at_instrument : s.data instrument = .instrumentConfig inst) (held : s.get inst.intentBook = ⟨rt.programId, .intentBook b⟩)
    (consistent : Consistent b) (slot : b.nodes[idx]? = some (.intent node)) (seated : b.trader node.ownerSeat = some trader)
    (authorized : authorize trader node = .ok ()) (address : rt.address (.margin trader inst.collateralMint) = margin)
    (owned : s.owner margin = rt.programId) (writable : inv.isWritable inst.intentBook = true)
    (writable' : inv.isWritable margin = true) :
    (cancelIntent rt inv instrument inst.intentBook margin node.id authorize).run s = .ok u t ↔
      ∃ b' m m', s.data margin = .marginAccount m ∧ (Book.cancel node.side idx node.ownerSeat).run b = .ok () b' ∧
        (MarginAccount.moveReservedToFree (node.reservedCollateral + node.feeBuffer)).run m = .ok () m' ∧
        t = (s.setData inst.intentBook (.intentBook b')).setData margin (.marginAccount m') := by
  have owned_book : s.owner inst.intentBook = rt.programId := owner_of_get held
  have at_book : s.data inst.intentBook = .intentBook b := data_of_get held
  have inBook (refund : Refund) (b' : IntentBook) :
      (cancelInBook rt margin inst.collateralMint node.id authorize).run b = .ok refund b' ↔ _ :=
    cancelInBook_eq_ok consistent slot rfl seated authorized address
  simp only [cancelIntent, Exec.bind_check, at_instrument, AccountData.instrumentConfig.injEq, exists_eq_left',
    ne_eq, not_not, true_and, exists_const]
  rw [Exec.bind_ok]
  constructor
  · rintro ⟨refund, s1, taken, ran⟩
    obtain ⟨x, b', found, inner, rfl⟩ := (atAccount_eq_ok writable owned_book).mp taken
    rw [at_book, AccountData.loadBook_ok] at found
    cases found
    obtain ⟨cancelled, -, rfl⟩ := (inBook refund b').mp inner
    obtain ⟨m, m', found, inner, rfl⟩ := atMargin_ok ran
    have other : margin ≠ inst.intentBook := by
      rintro rfl
      rw [Ledger.data_setData_self] at found
      cases found
    rw [Ledger.data_setData_of_ne _ _ other] at found
    simp only [refundMargin, Exec.bind_ok, Exec.get_ok, Exec.ofExcept_ok] at inner
    obtain ⟨_, _, ⟨rfl, rfl⟩, _, _, ⟨-, rfl⟩, freed⟩ := inner
    exact ⟨b', m, m', found, cancelled, freed, rfl⟩
  · rintro ⟨b', m, m', found, cancelled, freed, rfl⟩
    have other : margin ≠ inst.intentBook := by
      rintro rfl
      rw [found] at at_book
      cases at_book
    have small : node.reservedCollateral + node.feeBuffer < 2 ^ 64 := by
      have := ((MarginAccount.move_ok (by decide)).mp freed).2.1
      omega
    obtain ⟨mine, of_mint⟩ := genuine.margin_identity address owned found
    have bump := (genuine.margin_ok owned found).2
    rw [mine, of_mint] at bump
    refine ⟨_, _, (atAccount_eq_ok writable owned_book).mpr ⟨b, b', by rw [at_book]; rfl,
      (inBook _ b').mpr ⟨cancelled, small, rfl⟩, rfl⟩, ?_⟩
    refine (atAccount_eq_ok writable' (by rwa [Ledger.owner_setData])).mpr ⟨m, m', ?_, ?_, rfl⟩
    · rw [Ledger.data_setData_of_ne _ _ other, found]
      rfl
    · have identified : m.requireIdentity trader inst.collateralMint (rt.bump (.margin trader inst.collateralMint)) = .ok () :=
        MarginAccount.requireIdentity_ok.mpr ⟨mine, of_mint, bump.symm⟩
      rw [refundMargin, Exec.run_bind_get, Exec.run_bind_of_ok (Exec.ofExcept_ok.mpr ⟨identified, rfl⟩), freed]

end Polyleverage
