import Polyleverage.Invariants.Gap
import Polyleverage.Invariants.MarginStep

/-! # Moves of the three ledgers

Every primitive that writes an account of the program moves the gaps by an entry. The entries name the
trader and the mint they are about, because the accounts of the program lie where their content says.
-/

namespace Polyleverage

open Machine

variable {rt : Runtime} {inv : rt.Invocation} {s t : Ledger} {k : Pubkey} {u : Unit}

/-! ### Entries -/

/-- A margin account changes its total, its reserved and its locked balance. -/
def marginEntry (owner mint : Pubkey) (total reserved locked : ℤ) : Gap → ℤ
  | .backing mint' => if mint = mint' then -total else 0
  | .reserve owner' mint' => if owner = owner' ∧ mint = mint' then reserved else 0
  | .lock owner' mint' => if owner = owner' ∧ mint = mint' then locked else 0

/-- A book of this mint changes what the traders reserve. -/
def bookEntry (mint : Pubkey) (δ : Pubkey → ℤ) : Gap → ℤ
  | .reserve owner mint' => if mint = mint' then -δ owner else 0
  | _ => 0

/-- A position of this mint changes what it holds of the traders. -/
def pmlcEntry (mint : Pubkey) (δ : Pubkey → ℤ) : Gap → ℤ
  | .lock owner mint' => if mint = mint' then -δ owner else 0
  | _ => 0

/-- A vault has more or less to pay with. -/
def backingEntry (mint : Pubkey) (amount : ℤ) : Gap → ℤ
  | .backing mint' => if mint = mint' then amount else 0
  | _ => 0

theorem marginEntry_zero (owner mint : Pubkey) : marginEntry owner mint 0 0 0 = 0 := by
  funext x
  cases x <;> simp [marginEntry]

/-! ### Margin accounts -/

/-- A movement of the margin account at the address of this owner and mint. -/
theorem moved_atMargin {m : MarginM Unit} {owner mint : Pubkey} {total reserved locked : ℤ} (genuine : Genuine rt s)
    (here : rt.address (.margin owner mint) = k) (ran : (atMargin rt inv k m).run s = .ok u t)
    (step : ∀ x y, m.run x = .ok () y → MarginStep x y total reserved locked) :
    Moved rt s t (marginEntry owner mint total reserved locked) := by
  obtain ⟨x, y, found, moved, rfl, allowed⟩ := atAccount_ok ran
  rw [AccountData.loadMargin_ok] at found
  have change := step x y moved
  obtain ⟨same_owner, same_mint, same_bump⟩ := change.same
  have write := moved_setData genuine allowed (fun _ _ known => by simp [found, AccountData.fixed] at known)
    (fun owned => by
      have fits := genuine.margin_ok owned found
      rw [Fits, same_owner, same_mint, same_bump]
      exact fits) fun _ _ => trivial
  rw [found] at write
  by_cases owned : s.owner k = rt.programId
  · obtain ⟨rfl, rfl⟩ := genuine.margin_identity here owned found
    apply write.cast
    have totals := change.total
    have reserves := change.reserved
    have locks := change.locked
    funext z
    cases z with
    | backing mint =>
      simp only [entry, AccountData.wealth, marginEntry, same_mint]
      split <;> omega
    | reserve owner mint =>
      simp only [entry, AccountData.reserved, AccountData.booked, MarginAccount.isOf, marginEntry, same_owner, same_mint]
      by_cases mine : x.owner = owner ∧ x.collateralMint = mint
      · simp only [mine, and_self, if_true]
        omega
      · simp only [mine, if_false]
        omega
    | lock owner mint =>
      simp only [entry, AccountData.locked, AccountData.held, MarginAccount.isOf, marginEntry, same_owner, same_mint]
      by_cases mine : x.owner = owner ∧ x.collateralMint = mint
      · simp only [mine, and_self, if_true]
        omega
      · simp only [mine, if_false]
        omega
  · have same : AccountData.marginAccount y = .marginAccount x := (allowed.resolve_right owned).trans found
    cases same
    obtain rfl : total = 0 := by have := change.total; omega
    obtain rfl : reserved = 0 := by have := change.reserved; omega
    obtain rfl : locked = 0 := by have := change.locked; omega
    rw [marginEntry_zero]
    rwa [entry_self] at write

/-! ### Books -/

/-- Whatever is written over a book, no margin account and no position is touched. -/
theorem steady_setBook {b b' : IntentBook} (genuine : Genuine rt s) (found : s.data k = .intentBook b)
    (allowed : AccountData.intentBook b' = s.data k ∨ s.owner k = rt.programId) :
    Steady rt s (s.setData k (.intentBook b')) 0 := by
  have write := steady_setData genuine allowed (fun _ _ known => by simp [found, AccountData.fixed] at known)
    fun _ => trivial
  rw [found] at write
  apply write.weaken
  · intro mint
    simp [entry, AccountData.wealth]
  · intro owner mint
    simp [entry, AccountData.locked, AccountData.held]

theorem steady_atBook {α : Type} {m : BookM α} {a : α} (genuine : Genuine rt s)
    (ran : (atBook rt inv k m).run s = .ok a t) : Steady rt s t 0 := by
  obtain ⟨b, b', found, -, rfl, allowed⟩ := atAccount_ok ran
  exact steady_setBook genuine (AccountData.loadBook_ok.mp found) allowed

/-- A step of the book of a listed instrument. -/
theorem moved_atBook {α : Type} {m : BookM α} {a : α} {instrument : Pubkey} {c : InstrumentConfig} {δ : Pubkey → ℤ}
    (genuine : Genuine rt s) (listed : s.Listed rt instrument c) (at_book : c.intentBook = k)
    (ran : (atBook rt inv k m).run s = .ok a t)
    (step : ∀ b b', s.data k = .intentBook b → m.run b = .ok a b' → Sound c.collateralBucket b →
      BookStep c.collateralBucket b b' δ) (owned : s.owner k = rt.programId) :
    Moved rt s t (bookEntry c.collateralMint δ) := by
  obtain ⟨b, b', found, moved, rfl, allowed⟩ := atAccount_ok ran
  rw [AccountData.loadBook_ok] at found
  have write := moved_setData genuine allowed (fun _ _ known => by simp [found, AccountData.fixed] at known)
    (fun _ => trivial) fun _ books => by
      obtain ⟨-, sound⟩ := genuine.sound_of_listed books listed at_book owned found
      have change := step b b' found moved sound
      obtain ⟨here, c', listed', -⟩ := books.book_ok owned found
      obtain ⟨same, -⟩ := genuine.sound_of_listed books listed at_book owned found
      rw [same] at listed' here
      obtain rfl := listed'.unique listed
      rw [Shelved, change.instrument, same]
      exact ⟨here, c', listed, change.sound⟩
  have listed' := write.listed listed
  rw [found] at write
  apply write.weaken
  · intro mint
    simp [entry, AccountData.wealth, bookEntry]
  · intro owner mint
    simp [entry, AccountData.locked, AccountData.held, bookEntry]
  · intro books owner mint
    obtain ⟨same, sound⟩ := genuine.sound_of_listed books listed at_book owned found
    have change := step b b' found moved sound
    have reserved := change.reserved owner
    simp only [entry, AccountData.reserved, AccountData.booked, bookEntry, change.instrument, same,
      Ledger.mintOf_of_listed listed', Option.some.injEq]
    split <;> omega

/-! ### Positions -/

/-- A position keeps its terms and its place. -/
structure Pmlc.SameTerms (p p' : Pmlc) : Prop where
  id : p'.id = p.id
  instrument : p'.instrument = p.instrument
  collateralMint : p'.collateralMint = p.collateralMint
  marketId : p'.marketId = p.marketId
  collateralPerSide : p'.collateralPerSide = p.collateralPerSide

theorem moved_updatePmlc {p : Pmlc} {f : Pmlc → Pmlc} (genuine : Genuine rt s) (held : s.data k = .pmlc p)
    (same : p.SameTerms (f p)) (ran : (updateAccount rt inv AccountData.loadPmlc .pmlc k f).run s = .ok u t) :
    Moved rt s t (pmlcEntry p.collateralMint fun owner => ((f p).lockedFor owner : ℤ) - p.lockedFor owner) := by
  obtain ⟨p', p'', found, moved, rfl, allowed⟩ := atAccount_ok ran
  rw [AccountData.loadPmlc_ok, held] at found
  cases found
  rw [Exec.modify_ok] at moved
  subst moved
  have write := moved_setData genuine allowed (fun _ _ known => by simp [held, AccountData.fixed] at known)
    (fun owned => by
      obtain ⟨here, c, listed, mint, market, perSide⟩ := genuine.pmlc_ok owned held
      rw [Fits, same.instrument, same.id, same.collateralMint, same.marketId, same.collateralPerSide]
      exact ⟨here, c, listed, mint, market, perSide⟩) fun _ _ => trivial
  rw [held] at write
  apply write.cast
  funext z
  cases z with
  | backing mint => simp [entry, AccountData.wealth, pmlcEntry]
  | reserve owner mint => simp [entry, AccountData.reserved, AccountData.booked, pmlcEntry]
  | lock owner mint =>
    simp only [entry, AccountData.locked, AccountData.held, pmlcEntry, same.collateralMint]
    split <;> omega

/-! ### Treasuries -/

theorem moved_atTreasury {m : Exec ProgramError FeeTreasury Unit} {mint : Pubkey} {amount : ℤ} (genuine : Genuine rt s)
    (here : rt.address (.treasury mint) = k)
    (ran : (atAccount rt inv AccountData.loadFeeTreasury .feeTreasury k m).run s = .ok u t)
    (step : ∀ x y, m.run x = .ok () y →
      y.collateralMint = x.collateralMint ∧ (y.accruedAtoms : ℤ) = x.accruedAtoms + amount) :
    Moved rt s t (backingEntry mint (-amount)) := by
  obtain ⟨x, y, found, moved, rfl, allowed⟩ := atAccount_ok ran
  rw [AccountData.loadFeeTreasury_ok] at found
  obtain ⟨same, accrued⟩ := step x y moved
  have fits : s.owner k = rt.programId → rt.address (.treasury x.collateralMint) = k := by
    intro owned
    have fits := genuine.fits k owned
    rw [found] at fits
    exact fits
  have write := moved_setData genuine allowed (fun _ _ known => by simp [found, AccountData.fixed] at known)
    (fun owned => by
      rw [Fits, same]
      exact fits owned) fun _ _ => trivial
  rw [found] at write
  apply write.cast
  by_cases owned : s.owner k = rt.programId
  · have mints : x.collateralMint = mint := by
      have addresses := (fits owned).trans here.symm
      simpa using rt.address_injective _ _ addresses
    funext z
    cases z with
    | backing mint' =>
      simp only [entry, AccountData.wealth, backingEntry, same, mints]
      split <;> omega
    | reserve owner mint' => simp [entry, AccountData.reserved, AccountData.booked, backingEntry]
    | lock owner mint' => simp [entry, AccountData.locked, AccountData.held, backingEntry]
  · have unchanged : AccountData.feeTreasury y = .feeTreasury x := (allowed.resolve_right owned).trans found
    cases unchanged
    obtain rfl : amount = 0 := by omega
    rw [entry_self]
    funext z
    cases z <;> simp [backingEntry]

/-! ### Accounts that count nothing -/

/-- Neither margin accounts nor books, positions or treasuries. -/
def AccountData.idle : AccountData → Bool
  | marginAccount _ => false
  | intentBook _ => false
  | pmlc _ => false
  | feeTreasury _ => false
  | _ => true

/-- The data counts nothing in any of the ledgers. -/
structure AccountData.Weightless (d : AccountData) : Prop where
  wealth : ∀ mint, d.wealth mint = 0
  reserved : ∀ owner mint, d.reserved owner mint = 0
  booked : ∀ mintOf owner mint, d.booked mintOf owner mint = 0
  locked : ∀ owner mint, d.locked owner mint = 0
  held : ∀ owner mint, d.held owner mint = 0

theorem entry_weightless {mintOf : Pubkey → Option Pubkey} {d d' : AccountData} (before : d.Weightless)
    (after : d'.Weightless) : entry mintOf d d' = 0 := by
  funext z
  cases z with
  | backing mint => simp [entry, before.wealth, after.wealth]
  | reserve owner mint => simp [entry, before.reserved, before.booked, after.reserved, after.booked]
  | lock owner mint => simp [entry, before.locked, before.held, after.locked, after.held]

theorem weightless_idle {d : AccountData} (idle : d.idle = true) : d.Weightless := by
  cases d <;> first | exact ⟨fun _ => rfl, fun _ _ => rfl, fun _ _ _ => rfl, fun _ _ => rfl, fun _ _ => rfl⟩ | cases idle

theorem weightless_margin (owner mint : Pubkey) (bump : ℕ) :
    (AccountData.marginAccount (MarginAccount.init owner mint bump)).Weightless where
  wealth _ := ite_self 0
  reserved _ _ := ite_self 0
  booked _ _ _ := rfl
  locked _ _ := ite_self 0
  held _ _ := rfl

theorem weightless_treasury (mint : Pubkey) (bump : ℕ) :
    (AccountData.feeTreasury (FeeTreasury.init mint bump)).Weightless where
  wealth _ := ite_self 0
  reserved _ _ := rfl
  booked _ _ _ := rfl
  locked _ _ := rfl
  held _ _ := rfl

theorem shelved_idle {listed : Pubkey → InstrumentConfig → Prop} {d : AccountData} (idle : d.idle = true) :
    Shelved rt listed k d := by
  cases d <;> first | exact trivial | cases idle

/-- A write in an account that counts nothing. -/
theorem moved_atIdle {α τ : Type} {view : AccountData → Except ProgramError τ} {data : τ → AccountData}
    {kind : AccountKind} [Views view data kind] {m : Exec ProgramError τ α} {a : α} (genuine : Genuine rt s)
    (ran : (atAccount rt inv view data k m).run s = .ok a t) (idle : ∀ x, (data x).idle = true)
    (fixed : ∀ x y, m.run x = .ok a y → (data y).fixed = (data x).fixed)
    (fits : ∀ x y, m.run x = .ok a y → Fits rt (s.Listed rt) k (data x) → Fits rt (s.Listed rt) k (data y)) :
    Moved rt s t 0 := by
  obtain ⟨x, y, found, moved, rfl, allowed⟩ := atAccount_ok ran
  have held : s.data k = data x := Views.eq_data.mp found
  have write := moved_setData genuine allowed (fun _ z known => by rw [fixed x y moved, ← held, known])
    (fun owned => fits x y moved (held ▸ genuine.fits k owned)) fun _ _ => shelved_idle (idle y)
  apply write.cast
  rw [held]
  exact entry_weightless (weightless_idle (idle x)) (weightless_idle (idle y))

/-! ### New accounts -/

/-- An empty account of the program. -/
theorem moved_createAccount {payer : Pubkey} {space : ℕ} (genuine : Genuine rt s)
    (ran : (createAccount rt inv payer k space rt.programId).run s = .ok u t) :
    Moved rt s t 0 ∧ t = s.set k ⟨rt.programId, .raw space⟩ := by
  obtain ⟨vacant, rfl⟩ := createAccount_ok ran
  have blank : Fits rt (s.Listed rt) k (.raw space) := trivial
  have loose : Shelved rt (s.Listed rt) k (.raw space) := trivial
  exact ⟨(moved_create genuine vacant blank loose).cast (entry_weightless (weightless_idle rfl) (weightless_idle rfl)), rfl⟩

/-- The first data of an account. -/
theorem moved_initAccount {fresh : AccountData} (genuine : Genuine rt s)
    (ran : (initAccount rt inv k fresh).run s = .ok u t) (weightless : fresh.Weightless)
    (fits : Fits rt (s.Listed rt) k fresh) (shelved : Books rt s → Shelved rt (s.Listed rt) k fresh) :
    Moved rt s t 0 ∧ t = s.setData k fresh := by
  obtain ⟨zeros, rfl, allowed⟩ := initAccount_ok ran
  have write := moved_setData genuine allowed (fun _ _ known => by simp [zeros, AccountData.fixed] at known)
    (fun _ => fits) fun _ => shelved
  refine ⟨write.cast ?_, rfl⟩
  rw [zeros]
  exact entry_weightless (weightless_idle rfl) weightless

/-- A new account with its first data. -/
theorem moved_createAndInit {payer : Pubkey} {fresh : AccountData} (genuine : Genuine rt s)
    (ran : (createAndInit rt inv payer k fresh).run s = .ok u t) (weightless : fresh.Weightless)
    (fits : Fits rt (s.Listed rt) k fresh) (shelved : ∀ listed, Shelved rt listed k fresh) : Moved rt s t 0 := by
  obtain ⟨vacant, rfl⟩ := createAndInit_ok ran
  exact (moved_create genuine vacant fits (shelved _)).cast
    (entry_weightless (weightless_idle rfl) weightless)

end Polyleverage
