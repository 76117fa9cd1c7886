import Polyleverage.Invariants.Moves

/-! # Calls of the token program

A call of the token program leaves the accounts of the program alone and makes no delegates. It takes
out of the vault of a mint only when the authority of this vault pays, because a vault has no delegate
and its authority is an address that never signs.
-/

namespace Polyleverage

open Machine

variable {rt : Runtime} {inv : rt.Invocation} {s t : Ledger} {k : Pubkey} {u : Unit}

/-! ### What is not an account of the program -/

/-- The accounts of the program are as they were, and no derived address has got a delegate. -/
structure Foreign (rt : Runtime) (s t : Ledger) : Prop where
  same : ∀ k, s.owner k = rt.programId ∨ t.owner k = rt.programId → t.get k = s.get k
  no_delegate : Genuine rt s → ∀ k o a seeds, t.get k = ⟨o, .token a⟩ → a.owner = rt.address seeds → a.delegate = none

/-- Only the vaults change. -/
def vaultEntry (δ : Pubkey → ℤ) : Gap → ℤ
  | .backing mint => δ mint
  | _ => 0

theorem moved_foreign {δ : Pubkey → ℤ} (genuine : Genuine rt s) (foreign : Foreign rt s t)
    (vault : ∀ mint, s.vaultBalance rt mint + δ mint ≤ t.vaultBalance rt mint) : Moved rt s t (vaultEntry δ) := by
  have mine : ∀ k, t.owner k = rt.programId ↔ s.owner k = rt.programId := by
    intro k
    constructor
    · intro owned
      rw [← owned]
      exact congrArg Account.owner (foreign.same k (.inr owned)).symm
    · intro owned
      rw [← owned]
      exact congrArg Account.owner (foreign.same k (.inl owned))
  have datas : ∀ k, s.owner k = rt.programId → t.data k = s.data k := fun k owned =>
    congrArg Account.data (foreign.same k (.inl owned))
  have fixed : ∀ k, t.fixed rt k = s.fixed rt k := by
    intro k
    by_cases owned : s.owner k = rt.programId
    · rw [Ledger.fixed, Ledger.fixed, if_pos owned, if_pos ((mine k).mpr owned), datas k owned]
    · rw [Ledger.fixed, Ledger.fixed, if_neg owned, if_neg (owned ∘ (mine k).mp)]
  have listed : t.Listed rt = s.Listed rt := by
    funext k c
    rw [Ledger.Listed, Ledger.Listed, fixed]
  have mints : t.mintOf rt = s.mintOf rt := by
    funext k
    rw [Ledger.mintOf, Ledger.mintOf, fixed]
  have counts : ∀ μ, t.holdings rt μ = s.holdings rt μ := fun μ =>
    Ledger.holdings_congr foreign.same fun _ _ => rfl
  refine ⟨⟨⟨fun k owned => ?_, foreign.no_delegate genuine⟩, fun k x known => ?_, fun k => (mine k).mpr,
    fun mint => ?_, fun owner mint => ?_⟩, fun books k owned => ?_, fun _ owner mint => ?_⟩
  · rw [mine] at owned
    rw [listed, datas k owned]
    exact genuine.fits k owned
  · rw [fixed]
    exact known
  · have gain := vault mint
    simp only [Ledger.gap, counts, vaultEntry]
    omega
  · simp only [Ledger.gap, counts, vaultEntry, add_zero]
  · rw [mine] at owned
    rw [listed, datas k owned]
    exact books k owned
  · simp only [Ledger.gap, counts, mints, vaultEntry, add_zero]

/-- An account of somebody else that holds no tokens becomes another such account. -/
theorem moved_setForeign {a : Account} (genuine : Genuine rt s) (before : s.owner k ≠ rt.programId)
    (after : a.owner ≠ rt.programId) (no_tokens : ∀ o x, s.get k ≠ ⟨o, .token x⟩) (none_left : ∀ x, a.data ≠ .token x) :
    Moved rt s (s.set k a) 0 := by
  have foreign : Foreign rt s (s.set k a) := by
    constructor
    · intro j owned
      apply Store.get_set_of_ne
      rintro rfl
      rcases owned with mine | mine
      · exact before mine
      · rw [Ledger.owner, Store.get_set_self] at mine
        exact after mine
    · intro genuine j o x seeds found held
      by_cases here : j = k
      · rw [here, Store.get_set_self] at found
        exact absurd (congrArg Account.data found) (none_left x)
      · rw [Store.get_set_of_ne s a here] at found
        exact genuine.no_delegate j o x seeds found held
  apply (moved_foreign (δ := fun _ => 0) genuine foreign ?_).cast
  · funext x
    cases x <;> rfl
  · intro mint
    unfold Ledger.vaultBalance
    generalize rt.getAssociatedTokenAddress (rt.address (.vault mint)) mint = vault
    by_cases here : vault = k
    · have empty : (s.get vault).vaultAmount rt mint = 0 := by
        unfold Account.vaultAmount
        split
        next o x found => exact absurd (here ▸ found) (no_tokens o x)
        · rfl
      omega
    · rw [Store.get_set_of_ne s a here]
      omega

/-! ### One token account -/

section TokenMoved

variable {minus plus : ℕ} {mint : Pubkey}

theorem owner_of_tokenMoved (moved : TokenMoved rt.tokenProgram s t k minus plus) :
    s.owner k = rt.tokenProgram ∧ t.owner k = rt.tokenProgram := by
  obtain ⟨a, a', before, after, -⟩ := moved
  exact ⟨congrArg Account.owner before, congrArg Account.owner after⟩

theorem no_delegate_of_tokenMoved (genuine : Genuine rt s) (moved : TokenMoved rt.tokenProgram s t k minus plus)
    {o : Pubkey} {a : TokenAccount} {seeds : Seeds} (found : t.get k = ⟨o, .token a⟩)
    (held : a.owner = rt.address seeds) : a.delegate = none := by
  obtain ⟨b, b', before, after, -, same, delegate, -, -⟩ := moved
  rw [after] at found
  cases found
  rcases delegate with kept | gone
  · rw [kept]
    exact genuine.no_delegate k _ b seeds before (same ▸ held)
  · exact gone

/-- The amount in a vault moves when the account is one, and only for its mint. -/
theorem vaultAmount_of_tokenMoved (moved : TokenMoved rt.tokenProgram s t k minus plus) (mint : Pubkey) :
    ((t.get k).vaultAmount rt mint = 0 ∧ (s.get k).vaultAmount rt mint = 0) ∨
      ((t.get k).vaultAmount rt mint + minus = (s.get k).vaultAmount rt mint + plus ∧
        ∃ o a, s.get k = ⟨o, .token a⟩ ∧ a.owner = rt.address (.vault mint)) := by
  obtain ⟨a, a', before, after, same_mint, same_owner, -, -, amounts⟩ := moved
  rw [before, after]
  simp only [Account.vaultAmount, same_mint, same_owner, true_and]
  by_cases counted : a.owner = rt.address (.vault mint) ∧ a.mint = mint
  · right
    rw [if_pos counted, if_pos counted]
    exact ⟨amounts, _, a, rfl, counted.1⟩
  · left
    rw [if_neg counted, if_neg counted]
    exact ⟨rfl, rfl⟩

/-- A debit of a vault is authorized by the vault's authority. -/
theorem authority_of_vault (genuine : Genuine rt s) {authority o : Pubkey} {a : TokenAccount}
    (may : MayMove s k authority) (found : s.get k = ⟨o, .token a⟩) (held : a.owner = rt.address (.vault mint)) :
    authority = rt.address (.vault mint) := by
  rcases may o a found with own | delegated
  · rw [own, held]
  · rw [genuine.no_delegate k o a _ found held] at delegated
    cases delegated

end TokenMoved

/-! ### The four calls -/

section Calls

variable {source destination authority mint : Pubkey} {amount decimals : ℕ}

/-- Two accounts of the token program, and otherwise nothing, have changed. -/
theorem foreign_of_pair {i j : Pubkey} (first : s.owner i = rt.tokenProgram ∧ t.owner i = rt.tokenProgram)
    (second : s.owner j = rt.tokenProgram ∧ t.owner j = rt.tokenProgram)
    (rest : ∀ k, k ≠ i → k ≠ j → t.get k = s.get k)
    (delegates : Genuine rt s → ∀ k, k = i ∨ k = j → ∀ o a seeds, t.get k = ⟨o, .token a⟩ →
      a.owner = rt.address seeds → a.delegate = none) : Foreign rt s t where
  same k owned := by
    apply rest
    · rintro rfl
      rcases owned with before | after
      · exact rt.program_ne_token (before.symm.trans first.1)
      · exact rt.program_ne_token (after.symm.trans first.2)
    · rintro rfl
      rcases owned with before | after
      · exact rt.program_ne_token (before.symm.trans second.1)
      · exact rt.program_ne_token (after.symm.trans second.2)
  no_delegate genuine k o a seeds found held := by
    by_cases written : k = i ∨ k = j
    · exact delegates genuine k written o a seeds found held
    · rw [not_or] at written
      rw [rest k written.1 written.2] at found
      exact genuine.no_delegate k o a seeds found held

theorem foreign_transfer (called : rt.transfer s source destination authority amount = some t) : Foreign rt s t := by
  obtain ⟨-, paid, got, -, rest⟩ := rt.transfer_moves called
  apply foreign_of_pair (owner_of_tokenMoved paid) (owner_of_tokenMoved got) rest
  rintro genuine k (rfl | rfl) o a seeds found held
  · exact no_delegate_of_tokenMoved genuine paid found held
  · exact no_delegate_of_tokenMoved genuine got found held

/-- A mint is not a token account. -/
theorem not_token_of_mint {m : TokenMint} {o o' : Pubkey} {a : TokenAccount} (found : t.get k = ⟨o, .token a⟩)
    (other : t.get k = ⟨o', .mint m⟩) : False := by
  rw [other] at found
  cases found

theorem foreign_mintTo (called : rt.mintTo s mint destination authority amount = some t) : Foreign rt s t := by
  obtain ⟨⟨m, before, -, after⟩, got, -, rest⟩ := rt.mintTo_moves called
  apply foreign_of_pair ⟨congrArg Account.owner before, congrArg Account.owner after⟩ (owner_of_tokenMoved got) rest
  rintro genuine k (rfl | rfl) o a seeds found held
  · exact (not_token_of_mint found after).elim
  · exact no_delegate_of_tokenMoved genuine got found held

theorem foreign_burn (called : rt.burn s source mint authority amount = some t) : Foreign rt s t := by
  obtain ⟨-, ⟨m, before, -, after⟩, paid, -, rest⟩ := rt.burn_moves called
  apply foreign_of_pair ⟨congrArg Account.owner before, congrArg Account.owner after⟩ (owner_of_tokenMoved paid) rest
  rintro genuine k (rfl | rfl) o a seeds found held
  · exact (not_token_of_mint found after).elim
  · exact no_delegate_of_tokenMoved genuine paid found held

/-- The vault of a mint pays only on its own authority. -/
theorem vault_of_transfer (genuine : Genuine rt s)
    (called : rt.transfer s source destination authority amount = some t) (mint : Pubkey) :
    s.vaultBalance rt mint ≤ t.vaultBalance rt mint + if authority = rt.address (.vault mint) then amount else 0 := by
  obtain ⟨may, paid, got, -, rest⟩ := rt.transfer_moves called
  unfold Ledger.vaultBalance
  generalize rt.getAssociatedTokenAddress (rt.address (.vault mint)) mint = vault
  by_cases pays : vault = source
  · subst pays
    rcases vaultAmount_of_tokenMoved paid mint with ⟨-, none⟩ | ⟨amounts, o, a, found, held⟩
    · omega
    · rw [if_pos (authority_of_vault genuine may found held)]
      omega
  · by_cases gets : vault = destination
    · subst gets
      rw [if_neg (Ne.symm pays)] at got
      rcases vaultAmount_of_tokenMoved got mint with ⟨-, none⟩ | ⟨amounts, -⟩ <;> omega
    · rw [rest vault pays gets]
      exact Nat.le_add_right _ _

/-- A payment into a vault by somebody else. -/
theorem vault_of_deposit (genuine : Genuine rt s)
    (called : rt.transfer s source destination authority amount = some t)
    (here : destination = rt.getAssociatedTokenAddress (rt.address (.vault mint)) mint) {a : TokenAccount}
    (found : (s.data destination).unpackToken = .ok a) (held : a.owner = rt.address (.vault mint)) (of_mint : a.mint = mint)
    (stranger : authority ≠ rt.address (.vault mint)) :
    s.vaultBalance rt mint + amount ≤ t.vaultBalance rt mint := by
  obtain ⟨may, paid, got, -, rest⟩ := rt.transfer_moves called
  obtain ⟨b, b', before, after, same_mint, same_owner, -, -, amounts⟩ := got
  have same : b = a := by
    rw [Ledger.data, before] at found
    simpa [AccountData.unpackToken] using found
  subst same
  have apart : source ≠ destination := by
    rintro rfl
    exact stranger (authority_of_vault genuine may before held)
  rw [if_neg apart] at amounts
  unfold Ledger.vaultBalance
  rw [← here, before, after]
  simp only [Account.vaultAmount, same_mint, same_owner, held, of_mint, true_and, if_true]
  omega

/-- Minting and burning take nothing out of a vault, unless its authority burns. -/
theorem vault_of_mintTo (called : rt.mintTo s mint destination authority amount = some t) (other : Pubkey) :
    s.vaultBalance rt other ≤ t.vaultBalance rt other := by
  obtain ⟨⟨m, before, -, after⟩, got, -, rest⟩ := rt.mintTo_moves called
  unfold Ledger.vaultBalance
  generalize rt.getAssociatedTokenAddress (rt.address (.vault other)) other = vault
  by_cases minted : vault = mint
  · subst minted
    rw [before]
    exact Nat.zero_le _
  · by_cases gets : vault = destination
    · subst gets
      rcases vaultAmount_of_tokenMoved got other with ⟨-, none⟩ | ⟨amounts, -⟩ <;> omega
    · rw [rest vault minted gets]

theorem vault_of_burn (genuine : Genuine rt s) (called : rt.burn s source mint authority amount = some t)
    {other : Pubkey} (stranger : authority ≠ rt.address (.vault other)) :
    s.vaultBalance rt other ≤ t.vaultBalance rt other := by
  obtain ⟨may, ⟨m, before, -, after⟩, paid, -, rest⟩ := rt.burn_moves called
  unfold Ledger.vaultBalance
  generalize rt.getAssociatedTokenAddress (rt.address (.vault other)) other = vault
  by_cases burned : vault = mint
  · subst burned
    rw [before]
    exact Nat.zero_le _
  · by_cases pays : vault = source
    · subst pays
      rcases vaultAmount_of_tokenMoved paid other with ⟨-, none⟩ | ⟨-, o, a, found, held⟩
      · omega
      · exact absurd (authority_of_vault genuine (Runtime.mayMove_of_mayBurn may found held) found held) stranger
    · rw [rest vault burned pays]

end Calls

/-! ### The calls as programs -/

section Programs

variable {source destination authority mint : Pubkey} {amount : ℕ}

/-- A signer is not an authority that the program derives. -/
theorem ne_of_signer (signed : inv.isSigner authority = true) (seeds : Seeds) : authority ≠ rt.address seeds := by
  rintro rfl
  rw [inv.address_not_signer] at signed
  cases signed

/-- A payment out of the vault of a mint. -/
theorem moved_payment (genuine : Genuine rt s)
    (ran : (invoke fun s => rt.transfer s source destination (rt.address (.vault mint)) amount).run s = .ok u t) :
    Moved rt s t (backingEntry mint (-amount)) := by
  have called := invoke_ok.mp ran
  apply (moved_foreign (δ := fun mint' => if mint = mint' then -amount else 0) genuine (foreign_transfer called) ?_).cast
  · funext x
    cases x <;> rfl
  · intro mint'
    have paid := vault_of_transfer genuine called mint'
    simp only [rt.address_inj, Seeds.vault.injEq] at paid
    by_cases same : mint = mint'
    · rw [if_pos same] at paid ⊢
      omega
    · rw [if_neg same] at paid ⊢
      omega

/-- A payment into the vault of a mint. -/
theorem moved_deposit (genuine : Genuine rt s) (signed : inv.isSigner authority = true)
    (ran : (invoke fun s => rt.transfer s source destination authority amount).run s = .ok u t)
    (here : destination = rt.getAssociatedTokenAddress (rt.address (.vault mint)) mint) {a : TokenAccount}
    (found : (s.data destination).unpackToken = .ok a) (held : a.owner = rt.address (.vault mint))
    (of_mint : a.mint = mint) : Moved rt s t (backingEntry mint amount) := by
  have called := invoke_ok.mp ran
  apply (moved_foreign (δ := fun mint' => if mint = mint' then amount else 0) genuine (foreign_transfer called) ?_).cast
  · funext x
    cases x <;> rfl
  · intro mint'
    split
    next same =>
      subst same
      have gained := vault_of_deposit genuine called here found held of_mint (ne_of_signer signed _)
      omega
    · have paid := vault_of_transfer genuine called mint'
      rw [if_neg (ne_of_signer signed _)] at paid
      omega

theorem vaultEntry_zero : vaultEntry (fun _ => 0) = 0 := by
  funext x
  cases x <;> rfl

/-- A payment on an authority that has no vault. -/
theorem moved_transfer (genuine : Genuine rt s) (stranger : ∀ mint, authority ≠ rt.address (.vault mint))
    (ran : (invoke fun s => rt.transfer s source destination authority amount).run s = .ok u t) : Moved rt s t 0 := by
  have called := invoke_ok.mp ran
  apply (moved_foreign (δ := fun _ => 0) genuine (foreign_transfer called) ?_).cast vaultEntry_zero
  intro mint
  have paid := vault_of_transfer genuine called mint
  rw [if_neg (stranger mint)] at paid
  omega

theorem moved_mintTo (genuine : Genuine rt s)
    (ran : (invoke fun s => rt.mintTo s mint destination authority amount).run s = .ok u t) : Moved rt s t 0 := by
  have called := invoke_ok.mp ran
  apply (moved_foreign (δ := fun _ => 0) genuine (foreign_mintTo called) ?_).cast vaultEntry_zero
  intro mint'
  have kept := vault_of_mintTo called mint'
  omega

theorem moved_burn (genuine : Genuine rt s) (stranger : ∀ mint, authority ≠ rt.address (.vault mint))
    (ran : (invoke fun s => rt.burn s source mint authority amount).run s = .ok u t) : Moved rt s t 0 := by
  have called := invoke_ok.mp ran
  apply (moved_foreign (δ := fun _ => 0) genuine (foreign_burn called) ?_).cast vaultEntry_zero
  intro mint'
  have kept := vault_of_burn genuine called (stranger mint')
  omega

end Programs

end Polyleverage
