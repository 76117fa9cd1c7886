import Polyleverage.Invariants.Genuine

/-! # Three ledgers that have to agree

The program keeps three pairs of books. A vault backs the balances of its mint; the reserved balance
of a margin account agrees with its owner's orders; its locked balance agrees with its owner's
positions. A gap is the difference of such a pair. Every primitive that writes an account moves the
gaps by an entry that says only what it wrote.
-/

namespace Polyleverage

open Machine

/-- The pairs of ledgers. -/
inductive Gap where
  | backing (mint : Pubkey)
  | reserve (owner mint : Pubkey)
  | lock (owner mint : Pubkey)
  deriving DecidableEq

/-! ### What an account counts -/

def MarginAccount.isOf (m : MarginAccount) (owner mint : Pubkey) : Prop := m.owner = owner ∧ m.collateralMint = mint

instance (m : MarginAccount) (owner mint : Pubkey) : Decidable (m.isOf owner mint) :=
  inferInstanceAs (Decidable (_ ∧ _))

/-- The collateral that backs the sides of a live position that this trader owns. -/
def Pmlc.lockedFor (p : Pmlc) (owner : Pubkey) : ℕ :=
  if p.status = PMLC_STATUS_LIVE then
    (if p.longOwner = owner then p.collateralPerSide else 0) + (if p.shortOwner = owner then p.collateralPerSide else 0)
  else 0

namespace AccountData

/-- What the vault of a mint has to pay for this account. -/
def wealth (mint : Pubkey) : AccountData → ℕ
  | marginAccount m => if m.collateralMint = mint then m.total else 0
  | feeTreasury f => if f.collateralMint = mint then f.accruedAtoms else 0
  | _ => 0

def reserved (owner mint : Pubkey) : AccountData → ℕ
  | marginAccount m => if m.isOf owner mint then m.reservedCollateral else 0
  | _ => 0

def locked (owner mint : Pubkey) : AccountData → ℕ
  | marginAccount m => if m.isOf owner mint then m.lockedCollateral else 0
  | _ => 0

/-- What the trader's orders reserve in a book of this mint, given the mints of the instruments. -/
def booked (mintOf : Pubkey → Option Pubkey) (owner mint : Pubkey) : AccountData → ℕ
  | intentBook b => if mintOf b.header.instrument = some mint then b.view.reserved owner else 0
  | _ => 0

def held (owner mint : Pubkey) : AccountData → ℕ
  | pmlc p => if p.collateralMint = mint then p.lockedFor owner else 0
  | _ => 0

end AccountData

/-- What an account holds as a token account of the mint's vault authority. -/
def Account.vaultAmount (rt : Runtime) (mint : Pubkey) : Account → ℕ
  | ⟨o, .token a⟩ =>
    if o = rt.tokenProgram ∧ a.owner = rt.address (.vault mint) ∧ a.mint = mint then a.amount else 0
  | _ => 0

namespace Ledger

/-- A quantity added up over the accounts of the program. -/
def holdings (rt : Runtime) (s : Ledger) (μ : AccountData → ℕ) : ℕ :=
  s.total fun _ a => if a.owner = rt.programId then μ a.data else 0

/-- The mint of a listed instrument. -/
def mintOf (rt : Runtime) (s : Ledger) (k : Pubkey) : Option Pubkey :=
  (s.fixed rt k).bind fun f => f.elim (fun c => some c.collateralMint) fun _ => none

/-- The balance of the canonical vault of a mint. -/
def vaultBalance (rt : Runtime) (s : Ledger) (mint : Pubkey) : ℕ :=
  (s.get (rt.getAssociatedTokenAddress (rt.address (.vault mint)) mint)).vaultAmount rt mint

/-- How far a pair of ledgers is apart. -/
def gap (rt : Runtime) (s : Ledger) : Gap → ℤ
  | .backing mint => s.vaultBalance rt mint - s.holdings rt (AccountData.wealth mint)
  | .reserve owner mint =>
    s.holdings rt (AccountData.reserved owner mint) - s.holdings rt (AccountData.booked (s.mintOf rt) owner mint)
  | .lock owner mint => s.holdings rt (AccountData.locked owner mint) - s.holdings rt (AccountData.held owner mint)

section Holdings

variable {rt : Runtime} {s t : Ledger} {k : Pubkey} {μ ν : AccountData → ℕ}

/-- An account that does not exist counts nothing. -/
theorem count_default (rt : Runtime) (μ : AccountData → ℕ) :
    (if (default : Account).owner = rt.programId then μ (default : Account).data else 0) = 0 :=
  if_neg rt.program_ne_system.symm

/-- Only the accounts of the program count. -/
theorem holdings_congr (same : ∀ k, s.owner k = rt.programId ∨ t.owner k = rt.programId → t.get k = s.get k)
    (weights : ∀ k, s.owner k = rt.programId → ν (s.data k) = μ (s.data k)) : t.holdings rt ν = s.holdings rt μ := by
  apply Store.total_congr (fun _ => count_default rt ν) (fun _ => count_default rt μ)
  intro k
  by_cases owned : s.owner k = rt.programId ∨ t.owner k = rt.programId
  · rw [same k owned]
    by_cases mine : (s.get k).owner = rt.programId
    · rw [if_pos mine, if_pos mine]
      exact weights k mine
    · rw [if_neg mine, if_neg mine]
  · rw [not_or] at owned
    have inS : ¬ (s.get k).owner = rt.programId := owned.1
    have inT : ¬ (t.get k).owner = rt.programId := owned.2
    rw [if_neg inS, if_neg inT]

/-- One account counts no more than all of them. -/
theorem le_holdings (owned : s.owner k = rt.programId) : μ (s.data k) ≤ s.holdings rt μ := by
  have bound := Store.le_total (s := s) (f := fun _ a => if a.owner = rt.programId then μ a.data else 0)
    (fun _ => count_default rt μ) k
  have mine : (s.get k).owner = rt.programId := owned
  simp only [mine, if_true] at bound
  exact bound

theorem mintOf_of_listed {c : InstrumentConfig} (listed : s.Listed rt k c) : s.mintOf rt k = some c.collateralMint := by
  rw [mintOf, show s.fixed rt k = _ from listed]
  rfl

end Holdings

end Ledger

/-! ### Moves -/

/-- What writing `new` over `old` does to the gaps. -/
def entry (mintOf : Pubkey → Option Pubkey) (old new : AccountData) : Gap → ℤ
  | .backing mint => old.wealth mint - new.wealth mint
  | .reserve owner mint =>
    (new.reserved owner mint - old.reserved owner mint : ℤ) -
      (new.booked mintOf owner mint - old.booked mintOf owner mint)
  | .lock owner mint =>
    (new.locked owner mint - old.locked owner mint : ℤ) - (new.held owner mint - old.held owner mint)

/-- A step that keeps the accounts of the program and moves the gaps by an entry. A vault may gain more
than the entry says. -/
structure Steady (rt : Runtime) (s t : Ledger) (δ : Gap → ℤ) : Prop where
  genuine : Genuine rt t
  fixed : ∀ k x, s.fixed rt k = some x → t.fixed rt k = some x
  owned : ∀ k, s.owner k = rt.programId → t.owner k = rt.programId
  backing : ∀ mint, s.gap rt (.backing mint) + δ (.backing mint) ≤ t.gap rt (.backing mint)
  lock : ∀ owner mint, t.gap rt (.lock owner mint) = s.gap rt (.lock owner mint) + δ (.lock owner mint)

/-- The step also keeps the books sound. Orders agree with reservations only as long as they are. -/
structure Moved (rt : Runtime) (s t : Ledger) (δ : Gap → ℤ) : Prop extends Steady rt s t δ where
  books : Books rt s → Books rt t
  reserve : Books rt s → ∀ owner mint,
    t.gap rt (.reserve owner mint) = s.gap rt (.reserve owner mint) + δ (.reserve owner mint)

variable {rt : Runtime} {s t u : Ledger} {k : Pubkey} {δ ε : Gap → ℤ}

theorem Steady.trans (first : Steady rt s t δ) (next : Steady rt t u ε) : Steady rt s u (δ + ε) where
  genuine := next.genuine
  fixed k x known := next.fixed k x (first.fixed k x known)
  owned k mine := next.owned k (first.owned k mine)
  backing mint := by
    have before := first.backing mint
    have after := next.backing mint
    rw [Pi.add_apply]
    omega
  lock owner mint := by
    rw [next.lock, first.lock, Pi.add_apply, add_assoc]

/-- Reservations are irrelevant. -/
theorem Steady.weaken (steady : Steady rt s t δ) (backing : ∀ mint, ε (.backing mint) ≤ δ (.backing mint))
    (lock : ∀ owner mint, δ (.lock owner mint) = ε (.lock owner mint)) : Steady rt s t ε where
  genuine := steady.genuine
  fixed := steady.fixed
  owned := steady.owned
  backing mint := by
    have gained := steady.backing mint
    have less := backing mint
    omega
  lock owner mint := by rw [steady.lock, lock]

/-- Where the books are sound, more is known. -/
theorem Steady.moved (steady : Steady rt s t δ) (sound : Books rt s → Moved rt s t δ) : Moved rt s t δ where
  toSteady := steady
  books books := (sound books).books books
  reserve books := (sound books).reserve books

theorem Moved.refl (genuine : Genuine rt s) : Moved rt s s 0 where
  genuine := genuine
  fixed _ _ same := same
  owned _ same := same
  backing _ := by simp
  lock _ _ := by simp
  books books := books
  reserve _ _ _ := by simp

theorem Moved.trans (first : Moved rt s t δ) (next : Moved rt t u ε) : Moved rt s u (δ + ε) where
  toSteady := first.toSteady.trans next.toSteady
  books books := next.books (first.books books)
  reserve books owner mint := by
    rw [next.reserve (first.books books), first.reserve books, Pi.add_apply, add_assoc]

/-- A vault may be said to gain less. -/
theorem Moved.weaken (moved : Moved rt s t δ) (backing : ∀ mint, ε (.backing mint) ≤ δ (.backing mint))
    (lock : ∀ owner mint, δ (.lock owner mint) = ε (.lock owner mint))
    (reserve : Books rt s → ∀ owner mint, δ (.reserve owner mint) = ε (.reserve owner mint)) : Moved rt s t ε where
  toSteady := moved.toSteady.weaken backing lock
  books := moved.books
  reserve books owner mint := by rw [moved.reserve books, reserve books]

theorem Moved.cast (moved : Moved rt s t δ) (same : δ = ε) : Moved rt s t ε := same ▸ moved

/-- A step that moves nothing, before another one. -/
theorem Moved.then (first : Moved rt s t 0) (next : Moved rt t u δ) : Moved rt s u δ :=
  (first.trans next).cast (zero_add δ)

theorem Steady.listed (steady : Steady rt s t δ) {c : InstrumentConfig} (listed : s.Listed rt k c) : t.Listed rt k c :=
  steady.fixed k _ listed

/-- Only accounts of the token program hold tokens. -/
theorem vaultAmount_of_ne {a : Account} (foreign : a.owner ≠ rt.tokenProgram) (mint : Pubkey) :
    a.vaultAmount rt mint = 0 := by
  unfold Account.vaultAmount
  split
  next o a' =>
    apply if_neg
    rintro ⟨rfl, -⟩
    exact foreign rfl
  · rfl

/-- The vault's balance is read off accounts of the token program. -/
theorem vaultBalance_congr (same : ∀ k, s.owner k = rt.tokenProgram ∨ t.owner k = rt.tokenProgram → t.get k = s.get k)
    (mint : Pubkey) : t.vaultBalance rt mint = s.vaultBalance rt mint := by
  unfold Ledger.vaultBalance
  generalize rt.getAssociatedTokenAddress (rt.address (.vault mint)) mint = vault
  by_cases token : s.owner vault = rt.tokenProgram ∨ t.owner vault = rt.tokenProgram
  · rw [same vault token]
  · rw [not_or] at token
    rw [vaultAmount_of_ne token.1, vaultAmount_of_ne token.2]

/-- Ledgers with the same accounts. -/
theorem moved_of_get_eq (genuine : Genuine rt s) (same : ∀ k, t.get k = s.get k) : Moved rt s t 0 := by
  have owners : ∀ k, t.owner k = s.owner k := fun k => congrArg Account.owner (same k)
  have datas : ∀ k, t.data k = s.data k := fun k => congrArg Account.data (same k)
  have fixed : ∀ k, t.fixed rt k = s.fixed rt k := by
    intro k
    rw [Ledger.fixed, Ledger.fixed, owners, datas]
  have listed : t.Listed rt = s.Listed rt := by
    funext k c
    rw [Ledger.Listed, Ledger.Listed, fixed]
  have mints : t.mintOf rt = s.mintOf rt := by
    funext k
    rw [Ledger.mintOf, Ledger.mintOf, fixed]
  have counts : ∀ μ, t.holdings rt μ = s.holdings rt μ := fun μ =>
    Ledger.holdings_congr (fun k _ => same k) fun _ _ => rfl
  have gaps : t.gap rt = s.gap rt := by
    funext x
    cases x with
    | backing mint => rw [Ledger.gap, Ledger.gap, counts, vaultBalance_congr (fun k _ => same k)]
    | reserve owner mint => rw [Ledger.gap, Ledger.gap, counts, counts, mints]
    | lock owner mint => rw [Ledger.gap, Ledger.gap, counts, counts]
  refine ⟨⟨⟨fun k mine => ?_, fun k o a seeds found => ?_⟩, fun k x known => ?_, fun k mine => ?_, ?_, ?_⟩,
    fun books k mine => ?_, ?_⟩
  · rw [owners] at mine
    rw [listed, datas]
    exact genuine.fits k mine
  · rw [same] at found
    exact genuine.no_delegate k o a seeds found
  · rw [fixed]
    exact known
  · rw [owners]
    exact mine
  · simp [gaps]
  · simp [gaps]
  · rw [owners] at mine
    rw [listed, datas]
    exact books k mine
  · simp [gaps]

/-- One account of the program is written, or created where none was. -/
structure Wrote (rt : Runtime) (s t : Ledger) (k : Pubkey) (d : AccountData) : Prop where
  there : ∀ j, j ≠ k → t.get j = s.get j
  here : t.get k = ⟨rt.programId, d⟩
  before : s.owner k = rt.programId ∨ s.get k = default

namespace Wrote

variable {d : AccountData} (wrote : Wrote rt s t k d)
include wrote

theorem data_eq {j : Pubkey} (other : j ≠ k) : t.data j = s.data j := congrArg Account.data (wrote.there j other)

theorem owner_eq {j : Pubkey} (other : j ≠ k) : t.owner j = s.owner j := congrArg Account.owner (wrote.there j other)

theorem owner_here : t.owner k = rt.programId := congrArg Account.owner wrote.here

theorem data_here : t.data k = d := congrArg Account.data wrote.here

theorem fixed (kept : ∀ x, s.fixed rt k = some x → d.fixed = some x) (j : Pubkey) (x : InstrumentConfig ⊕ ℕ)
    (known : s.fixed rt j = some x) : t.fixed rt j = some x := by
  by_cases same : j = k
  · subst same
    rw [Ledger.fixed, if_pos wrote.owner_here, wrote.data_here]
    exact kept x known
  · rw [Ledger.fixed, wrote.owner_eq same, wrote.data_eq same]
    exact known

theorem holdings (μ : AccountData → ℕ) (zero : μ (.raw 0) = 0) :
    (t.holdings rt μ : ℤ) = s.holdings rt μ + μ d - μ (s.data k) := by
  have change := Store.total_change_one (s := s) (t := t) (f := fun _ a => if a.owner = rt.programId then μ a.data else 0)
    (g := fun _ a => if a.owner = rt.programId then μ a.data else 0) (fun _ => Ledger.count_default rt μ)
    (fun _ => Ledger.count_default rt μ) k fun j other => by rw [wrote.there j other]
  have old : (if (s.get k).owner = rt.programId then μ (s.get k).data else 0) = μ (s.data k) := by
    rcases wrote.before with owned | vacant
    · exact if_pos owned
    · rw [Ledger.data, vacant, Ledger.count_default]
      exact zero.symm
  rw [old, wrote.here, if_pos rfl] at change
  change t.holdings rt μ + μ (s.data k) = s.holdings rt μ + μ d at change
  omega

theorem vaultBalance (mint : Pubkey) : t.vaultBalance rt mint = s.vaultBalance rt mint := by
  apply vaultBalance_congr
  intro j token
  apply wrote.there j
  rintro rfl
  rcases token with old | tokenNow
  · rcases wrote.before with owned | vacant
    · exact rt.program_ne_token (owned.symm.trans old)
    · rw [Ledger.owner, vacant] at old
      exact rt.token_ne_system old.symm
  · exact rt.program_ne_token (wrote.owner_here.symm.trans tokenNow)

theorem steady (genuine : Genuine rt s) (kept : ∀ x, s.fixed rt k = some x → d.fixed = some x)
    (fits : Fits rt (s.Listed rt) k d) : Steady rt s t (entry (t.mintOf rt) (s.data k) d) := by
  have fixed := wrote.fixed kept
  refine ⟨⟨fun j owned => ?_, fun j o a seeds found => ?_⟩, fixed, fun j owned => ?_, fun mint => ?_, fun owner mint => ?_⟩
  · by_cases same : j = k
    · subst same
      rw [wrote.data_here]
      exact fits.mono fun _ _ => fixed _ _
    · rw [wrote.data_eq same]
      rw [wrote.owner_eq same] at owned
      exact (genuine.fits j owned).mono fun _ _ => fixed _ _
  · by_cases same : j = k
    · subst same
      rw [wrote.here] at found
      cases found
      exact fits.elim
    · rw [wrote.there j same] at found
      exact genuine.no_delegate j o a seeds found
  · by_cases same : j = k
    · rw [same]
      exact wrote.owner_here
    · rw [wrote.owner_eq same]
      exact owned
  · have count := wrote.holdings (AccountData.wealth mint) rfl
    have same := wrote.vaultBalance mint
    simp only [Ledger.gap, entry]
    omega
  · have locked := wrote.holdings (AccountData.locked owner mint) rfl
    have held := wrote.holdings (AccountData.held owner mint) rfl
    simp only [Ledger.gap, entry]
    omega

theorem moved (genuine : Genuine rt s) (kept : ∀ x, s.fixed rt k = some x → d.fixed = some x)
    (fits : Fits rt (s.Listed rt) k d) (shelved : Books rt s → Shelved rt (s.Listed rt) k d) :
    Moved rt s t (entry (t.mintOf rt) (s.data k) d) := by
  have fixed := wrote.fixed kept
  refine ⟨wrote.steady genuine kept fits, fun books j owned => ?_, fun books owner mint => ?_⟩
  · by_cases same : j = k
    · subst same
      rw [wrote.data_here]
      exact (shelved books).mono fun _ _ => fixed _ _
    · rw [wrote.data_eq same]
      rw [wrote.owner_eq same] at owned
      exact (books j owned).mono fun _ _ => fixed _ _
  · -- The books that were there are books of instruments that were listed before.
    have ofListed : s.holdings rt (AccountData.booked (t.mintOf rt) owner mint) =
        s.holdings rt (AccountData.booked (s.mintOf rt) owner mint) := by
      apply Ledger.holdings_congr (fun _ _ => rfl)
      intro j owned
      cases found : s.data j with
      | intentBook b =>
        obtain ⟨-, c, listed, -⟩ := books.book_ok owned found
        have listed' : t.Listed rt b.header.instrument c := fixed _ _ listed
        simp only [AccountData.booked, Ledger.mintOf_of_listed listed, Ledger.mintOf_of_listed listed']
      | _ => rfl
    have reserved := wrote.holdings (AccountData.reserved owner mint) rfl
    have booked := wrote.holdings (AccountData.booked (t.mintOf rt) owner mint) rfl
    simp only [Ledger.gap, entry]
    omega

end Wrote

@[simp] theorem entry_self (mintOf : Pubkey → Option Pubkey) (d : AccountData) : entry mintOf d d = 0 := by
  funext x
  cases x <;> simp [entry]

theorem wrote_setData (owned : s.owner k = rt.programId) (d : AccountData) : Wrote rt s (s.setData k d) k d where
  there _ other := Ledger.get_setData_of_ne s d other
  here := by rw [Ledger.get_setData_self, owned]
  before := .inl owned

/-- Writing what an account holds already. -/
theorem get_setData_data (s : Ledger) (k j : Pubkey) : (s.setData k (s.data k)).get j = s.get j := by
  by_cases here : j = k
  · rw [here, Ledger.get_setData_self]
    rfl
  · exact Ledger.get_setData_of_ne s _ here

/-- Writing what fits over an account of the program, or what an account already holds. -/
theorem steady_setData {d : AccountData} (genuine : Genuine rt s) (allowed : d = s.data k ∨ s.owner k = rt.programId)
    (fixed : s.owner k = rt.programId → ∀ x, (s.data k).fixed = some x → d.fixed = some x)
    (fits : s.owner k = rt.programId → Fits rt (s.Listed rt) k d) :
    Steady rt s (s.setData k d) (entry (Ledger.mintOf rt (s.setData k d)) (s.data k) d) := by
  by_cases owned : s.owner k = rt.programId
  · apply (wrote_setData owned d).steady genuine _ (fits owned)
    intro x known
    rw [Ledger.fixed, if_pos owned] at known
    exact fixed owned x known
  · obtain rfl := allowed.resolve_right owned
    rw [entry_self]
    exact (moved_of_get_eq genuine (get_setData_data s k)).toSteady

theorem moved_setData {d : AccountData} (genuine : Genuine rt s) (allowed : d = s.data k ∨ s.owner k = rt.programId)
    (fixed : s.owner k = rt.programId → ∀ x, (s.data k).fixed = some x → d.fixed = some x)
    (fits : s.owner k = rt.programId → Fits rt (s.Listed rt) k d)
    (shelved : s.owner k = rt.programId → Books rt s → Shelved rt (s.Listed rt) k d) :
    Moved rt s (s.setData k d) (entry (Ledger.mintOf rt (s.setData k d)) (s.data k) d) := by
  by_cases owned : s.owner k = rt.programId
  · apply (wrote_setData owned d).moved genuine _ (fits owned) (shelved owned)
    intro x known
    rw [Ledger.fixed, if_pos owned] at known
    exact fixed owned x known
  · obtain rfl := allowed.resolve_right owned
    rw [entry_self]
    exact moved_of_get_eq genuine (get_setData_data s k)

/-- Creating an account of the program where none was. -/
theorem moved_create {d : AccountData} (genuine : Genuine rt s) (vacant : s.get k = default)
    (fits : Fits rt (s.Listed rt) k d) (shelved : Shelved rt (s.Listed rt) k d) :
    Moved rt s (s.set k ⟨rt.programId, d⟩) (entry (Ledger.mintOf rt (s.set k ⟨rt.programId, d⟩)) (.raw 0) d) := by
  have unknown : s.fixed rt k = none := by
    rw [Ledger.fixed, Ledger.owner, vacant]
    exact if_neg rt.program_ne_system.symm
  have wrote : Wrote rt s (s.set k ⟨rt.programId, d⟩) k d :=
    ⟨fun j other => Store.get_set_of_ne s _ other, Store.get_set_self s k _, .inr vacant⟩
  have moved := wrote.moved genuine (fun x known => by simp [unknown] at known) fits fun _ => shelved
  rw [Ledger.data, vacant] at moved
  exact moved

end Polyleverage
