import Polyleverage.Invariants.BookStep
import Polyleverage.Program

/-! # Genuine accounts

The program recognizes its accounts by their addresses. Every account it owns lies where its content
says: a margin account at the address of its owner and mint, a position at the address of its
instrument and number. Positions and books agree with the terms of their instrument, which never
change. That the books are sound as well is kept apart, because growing a book may break it.
-/

namespace Polyleverage

open Machine

variable {rt : Runtime} {s t : Ledger} {k : Pubkey}

/-- What never changes of an account of the program: an instrument but for its status, and the market of
a nonce. -/
def AccountData.fixed : AccountData → Option (InstrumentConfig ⊕ ℕ)
  | .instrumentConfig c => some (.inl { c with status := STATUS_ACTIVE })
  | .marketNonce n => some (.inr n.marketId)
  | _ => none

namespace Ledger

variable (rt)

def fixed (s : Ledger) (k : Pubkey) : Option (InstrumentConfig ⊕ ℕ) :=
  if s.owner k = rt.programId then (s.data k).fixed else none

/-- The instrument listed at `k`. -/
def Listed (s : Ledger) (k : Pubkey) (c : InstrumentConfig) : Prop := s.fixed rt k = some (.inl c)

end Ledger

/-- The account's content belongs to its address and agrees with the listed instruments. -/
def Fits (rt : Runtime) (listed : Pubkey → InstrumentConfig → Prop) (k : Pubkey) : AccountData → Prop
  | .marginAccount m =>
    rt.address (.margin m.owner m.collateralMint) = k ∧ rt.bump (.margin m.owner m.collateralMint) = m.bump
  | .instrumentConfig c =>
    rt.address c.seeds = k ∧ c.intentBook = rt.address (.book k) ∧ c.leverageBps ∈ ALLOWED_LEVERAGE_BPS ∧
      c.collateralBucket ≠ 0 ∧ c.collateralBucket < 2 ^ 64
  | .pmlc p =>
    rt.address (.pmlc p.instrument p.id) = k ∧ ∃ c, listed p.instrument c ∧ p.collateralMint = c.collateralMint ∧
      p.marketId = c.marketId ∧ p.collateralPerSide = c.collateralBucket
  | .marketNonce n => rt.address (.marketNonce n.marketId) = k
  | .feeSchedule f => rt.address .feeSchedule = k ∧ ∀ tier ∈ f.tiers.toList, tier.feeBps ≤ 1000
  | .feeTreasury f => rt.address (.treasury f.collateralMint) = k
  | .programConfig _ => rt.address .config = k
  | .userVolume v => rt.address (.userVolume v.owner v.collateralMint) = k
  | .timelock p => rt.address (.timelock p.proposalId) = k
  | .adminMultisig _ => rt.address .adminMultisig = k
  | .bucketRegistry _ => rt.address .bucketRegistry = k
  | .stablecoinRegistry _ => rt.address .stablecoinRegistry = k
  | .session x => rt.address (.session x.owner) = k
  | .token _ => False
  | .mint _ => False
  | .intentBook _ => True
  | .raw _ => True

/-- A book is a sound book of a listed instrument and lies at this instrument's address. -/
def Shelved (rt : Runtime) (listed : Pubkey → InstrumentConfig → Prop) (k : Pubkey) : AccountData → Prop
  | .intentBook b =>
    rt.address (.book b.header.instrument) = k ∧ ∃ c, listed b.header.instrument c ∧ Sound c.collateralBucket b
  | _ => True

/-- All accounts of the program fit, and nobody may draw on what its addresses hold of a token. -/
structure Genuine (rt : Runtime) (s : Ledger) : Prop where
  fits : ∀ k, s.owner k = rt.programId → Fits rt (s.Listed rt) k (s.data k)
  no_delegate : ∀ k o a seeds, s.get k = ⟨o, .token a⟩ → a.owner = rt.address seeds → a.delegate = none

/-- All books of the program are sound. -/
def Books (rt : Runtime) (s : Ledger) : Prop :=
  ∀ k, s.owner k = rt.programId → Shelved rt (s.Listed rt) k (s.data k)

theorem Fits.mono {listed listed' : Pubkey → InstrumentConfig → Prop} {d : AccountData} (fits : Fits rt listed k d)
    (wider : ∀ j c, listed j c → listed' j c) : Fits rt listed' k d := by
  cases d with
  | pmlc p =>
    obtain ⟨here, c, terms, agree⟩ := fits
    exact ⟨here, c, wider _ c terms, agree⟩
  | _ => exact fits

theorem Shelved.mono {listed listed' : Pubkey → InstrumentConfig → Prop} {d : AccountData}
    (shelved : Shelved rt listed k d) (wider : ∀ j c, listed j c → listed' j c) : Shelved rt listed' k d := by
  cases d with
  | intentBook b =>
    obtain ⟨here, c, terms, sound⟩ := shelved
    exact ⟨here, c, wider _ c terms, sound⟩
  | _ => exact trivial

theorem genuine_genesis (gen : Genesis rt s) : Genuine rt s where
  fits k owned := absurd owned (gen.not_owned k)
  no_delegate := gen.no_delegate

theorem books_genesis (gen : Genesis rt s) : Books rt s := fun k owned => absurd owned (gen.not_owned k)

section Reading

theorem get_eq_of_data {d : AccountData} (owned : s.owner k = rt.programId) (found : s.data k = d) :
    s.get k = ⟨rt.programId, d⟩ := by
  rw [← owned, ← found]
  rfl

theorem listed_of_load {c : InstrumentConfig} (owned : s.owner k = rt.programId)
    (found : s.data k = .instrumentConfig c) : s.Listed rt k { c with status := STATUS_ACTIVE } := by
  rw [Ledger.Listed, Ledger.fixed, if_pos owned, found]
  rfl

/-- A listed instrument is an account of the program. -/
theorem Ledger.Listed.account {c : InstrumentConfig} (listed : s.Listed rt k c) :
    s.owner k = rt.programId ∧ ∃ status, s.data k = .instrumentConfig { c with status } := by
  unfold Ledger.Listed Ledger.fixed at listed
  split at listed
  next owned =>
    refine ⟨owned, ?_⟩
    cases found : s.data k with
    | instrumentConfig c' =>
      rw [found] at listed
      simp only [AccountData.fixed, Option.some.injEq, Sum.inl.injEq] at listed
      exact ⟨c'.status, by rw [← listed]⟩
    | marketNonce n => simp [found, AccountData.fixed] at listed
    | _ => simp [found, AccountData.fixed] at listed
  · cases listed

theorem Ledger.Listed.unique {c c' : InstrumentConfig} (listed : s.Listed rt k c) (listed' : s.Listed rt k c') :
    c = c' := by
  unfold Ledger.Listed at listed listed'
  rw [listed] at listed'
  simpa using listed'

theorem Books.book_ok {b : IntentBook} (books : Books rt s) (owned : s.owner k = rt.programId)
    (found : s.data k = .intentBook b) : rt.address (.book b.header.instrument) = k ∧
      ∃ c, s.Listed rt b.header.instrument c ∧ Sound c.collateralBucket b := by
  have shelved := books k owned
  rw [found] at shelved
  exact shelved

namespace Genuine

variable (genuine : Genuine rt s)
include genuine

/-- The terms of a listed instrument. -/
theorem listed_ok {c : InstrumentConfig} (listed : s.Listed rt k c) :
    c.intentBook = rt.address (.book k) ∧ c.collateralBucket ≠ 0 ∧ c.collateralBucket < 2 ^ 64 := by
  obtain ⟨owned, status, found⟩ := listed.account
  have fits := genuine.fits k owned
  rw [found] at fits
  exact ⟨fits.2.1, fits.2.2.2⟩

theorem margin_ok {m : MarginAccount} (owned : s.owner k = rt.programId) (found : s.data k = .marginAccount m) :
    rt.address (.margin m.owner m.collateralMint) = k ∧ rt.bump (.margin m.owner m.collateralMint) = m.bump := by
  have fits := genuine.fits k owned
  rw [found] at fits
  exact fits

theorem pmlc_ok {p : Pmlc} (owned : s.owner k = rt.programId) (found : s.data k = .pmlc p) :
    rt.address (.pmlc p.instrument p.id) = k ∧ ∃ c, s.Listed rt p.instrument c ∧
      p.collateralMint = c.collateralMint ∧ p.marketId = c.marketId ∧ p.collateralPerSide = c.collateralBucket := by
  have fits := genuine.fits k owned
  rw [found] at fits
  exact fits

/-- The book of a listed instrument is sound and is this instrument's. -/
theorem sound_of_listed {b : IntentBook} {instrument : Pubkey} {c : InstrumentConfig} (books : Books rt s)
    (listed : s.Listed rt instrument c) (at_book : c.intentBook = k) (owned : s.owner k = rt.programId)
    (found : s.data k = .intentBook b) : b.header.instrument = instrument ∧ Sound c.collateralBucket b := by
  obtain ⟨here, c', listed', sound⟩ := books.book_ok owned found
  have same : b.header.instrument = instrument := by
    have addresses := here.trans (at_book.symm.trans (genuine.listed_ok listed).1)
    simpa using rt.address_injective _ _ addresses
  refine ⟨same, ?_⟩
  rw [same] at listed'
  rw [listed.unique listed']
  exact sound

/-- An account at the address of a margin is this owner's, of this mint. -/
theorem margin_identity {m : MarginAccount} {owner mint : Pubkey} (at_margin : rt.address (.margin owner mint) = k)
    (owned : s.owner k = rt.programId) (found : s.data k = .marginAccount m) :
    m.owner = owner ∧ m.collateralMint = mint := by
  have here := (genuine.margin_ok owned found).1.trans at_margin.symm
  simpa using rt.address_injective _ _ here

end Genuine

end Reading

end Polyleverage
