import Polyleverage.Invariants.Tokens

/-! # The reserves of the wrapped coin

The reserves are all token accounts of the wrapped coin's authority, for the mints of some list. Nobody
but the authority takes out of them. What an instruction does to the supply is set against what it does
to the reserves.
-/

namespace Polyleverage

variable {rt : Runtime} {inv : rt.Invocation} {ever : List Pubkey} {s t : Ledger} {k : Pubkey} {u : Unit}

/-- What an account adds to the reserves. -/
def Account.reserve (rt : Runtime) (ever : List Pubkey) : Account → ℕ
  | ⟨o, .token a⟩ => if o = rt.tokenProgram ∧ a.owner = rt.address .wusdAuthority ∧ a.mint ∈ ever then a.amount else 0
  | _ => 0

/-- What a mint has handed out. -/
def Account.supply : Account → ℕ
  | ⟨_, .mint m⟩ => m.supply
  | _ => 0

namespace Ledger

variable (rt)

/-- The atoms of these mints that the authority holds. -/
def reserves (ever : List Pubkey) (s : Ledger) : ℕ := Store.total (fun _ a => a.reserve rt ever) s

/-- The supply of the wrapped coin. -/
def wusdSupply (s : Ledger) : ℕ := (s.get (rt.address .wusdMint)).supply

end Ledger

/-- The wrapped coin is minted by its authority, and nobody may draw on what the authority holds. -/
structure Guarded (rt : Runtime) (s : Ledger) : Prop where
  minted : ∀ o m, s.get (rt.address .wusdMint) = ⟨o, .mint m⟩ → m.mintAuthority = some (rt.address .wusdAuthority)
  undelegated : ∀ k o a, s.get k = ⟨o, .token a⟩ → a.owner = rt.address .wusdAuthority → a.delegate = none

/-- The supply grew by no more than the reserves, or shrank by no less. -/
def Covered (rt : Runtime) (ever : List Pubkey) (s t : Ledger) : Prop :=
  Guarded rt s → Guarded rt t ∧ t.wusdSupply rt + s.reserves rt ever ≤ s.wusdSupply rt + t.reserves rt ever

theorem Covered.refl (s : Ledger) : Covered rt ever s s := fun guarded => ⟨guarded, le_refl _⟩

theorem Covered.trans {v : Ledger} (first : Covered rt ever s t) (next : Covered rt ever t v) : Covered rt ever s v := by
  intro guarded
  obtain ⟨guarded', covered⟩ := first guarded
  obtain ⟨guarded'', covered'⟩ := next guarded'
  exact ⟨guarded'', by omega⟩

/-! ### Accounts that do not matter -/

/-- Neither a token account nor a mint. -/
def AccountData.Plain (d : AccountData) : Prop := d.kind ≠ .token ∧ d.kind ≠ .mint

theorem reserve_of_plain {a : Account} (plain : a.data.Plain) : a.reserve rt ever = 0 := by
  obtain ⟨o, d⟩ := a
  cases d with
  | token a => exact absurd rfl plain.1
  | _ => rfl

theorem supply_of_plain {a : Account} (plain : a.data.Plain) : a.supply = 0 := by
  obtain ⟨o, d⟩ := a
  cases d with
  | mint m => exact absurd rfl plain.2
  | _ => rfl

theorem reserves_congr {ever' : List Pubkey}
    (same : ∀ k, (t.get k).reserve rt ever' = (s.get k).reserve rt ever) : t.reserves rt ever' = s.reserves rt ever :=
  Store.total_congr (fun _ => rfl) (fun _ => rfl) same

/-- Writes to other accounts leave reserves and supply alone. -/
theorem covered_of_plain (plain : ∀ k, t.get k = s.get k ∨ ((s.data k).Plain ∧ (t.data k).Plain)) : Covered rt ever s t := by
  intro guarded
  have same : ∀ k, ¬ (t.data k).Plain → t.get k = s.get k := fun k other => (plain k).resolve_right fun both => other both.2
  refine ⟨⟨fun o m held => ?_, fun k o a held => ?_⟩, ?_⟩
  · rw [same _ (by simp [Ledger.data, held, AccountData.Plain])] at held
    exact guarded.minted o m held
  · rw [same _ (by simp [Ledger.data, held, AccountData.Plain])] at held
    exact guarded.undelegated k o a held
  · have reserves : t.reserves rt ever = s.reserves rt ever := by
      apply reserves_congr
      intro k
      rcases plain k with same | ⟨before, after⟩
      · rw [same]
      · rw [reserve_of_plain before, reserve_of_plain after]
    have supply : t.wusdSupply rt = s.wusdSupply rt := by
      rw [Ledger.wusdSupply, Ledger.wusdSupply]
      rcases plain (rt.address .wusdMint) with same | ⟨before, after⟩
      · rw [same]
      · rw [supply_of_plain before, supply_of_plain after]
    omega

theorem covered_of_touches {old new : List AccountKind} (touches : Touches old new s t)
    (before : AccountKind.token ∉ old ∧ AccountKind.mint ∉ old) (after : AccountKind.token ∉ new ∧ AccountKind.mint ∉ new) :
    Covered rt ever s t := by
  apply covered_of_plain
  intro k
  rcases touches k with same | ⟨was, is⟩
  · exact .inl same
  · refine .inr ⟨⟨?_, ?_⟩, ?_, ?_⟩
    · rintro kind
      exact before.1 (kind ▸ was)
    · rintro kind
      exact before.2 (kind ▸ was)
    · rintro kind
      exact after.1 (kind ▸ is)
    · rintro kind
      exact after.2 (kind ▸ is)

/-! ### Token accounts -/

section Calls

variable {source destination authority mint : Pubkey} {amount minus plus : ℕ}

/-- The account is one of the reserves. -/
def IsReserve (rt : Runtime) (ever : List Pubkey) (s : Ledger) (k : Pubkey) : Prop :=
  ∃ a, s.get k = ⟨rt.tokenProgram, .token a⟩ ∧ a.owner = rt.address .wusdAuthority ∧ a.mint ∈ ever

variable (ever) in
theorem reserve_of_tokenMoved (moved : TokenMoved rt.tokenProgram s t k minus plus) :
    IsReserve rt ever s k ∧ (t.get k).reserve rt ever + minus = (s.get k).reserve rt ever + plus ∨
      ¬ IsReserve rt ever s k ∧ (t.get k).reserve rt ever = 0 ∧ (s.get k).reserve rt ever = 0 := by
  obtain ⟨a, a', before, after, same_mint, same_owner, -, -, amounts⟩ := moved
  by_cases counted : a.owner = rt.address .wusdAuthority ∧ a.mint ∈ ever
  · refine .inl ⟨⟨a, before, counted⟩, ?_⟩
    rw [before, after]
    simp only [Account.reserve, same_mint, same_owner, counted, true_and, if_true]
    exact amounts
  · refine .inr ⟨?_, ?_⟩
    · rintro ⟨b, held, counts⟩
      rw [before] at held
      cases held
      exact counted counts
    · rw [before, after]
      simp only [Account.reserve, same_mint, same_owner, true_and, if_neg counted, and_self]

variable (ever) in
/-- A signer does not draw on the reserves. -/
theorem Guarded.not_reserve (guarded : Guarded rt s) (may : MayBurn rt.incinerator s k authority)
    (stranger : authority ≠ rt.address .wusdAuthority) : ¬ IsReserve rt ever s k := by
  rintro ⟨a, held, mine, -⟩
  rcases Runtime.mayMove_of_mayBurn may held mine _ a held with own | delegated
  · exact stranger (own.trans mine)
  · rw [guarded.undelegated k _ a held mine] at delegated
    cases delegated

theorem undelegated_of_tokenMoved (guarded : Guarded rt s) (moved : TokenMoved rt.tokenProgram s t k minus plus) {o : Pubkey}
    {a : TokenAccount} (held : t.get k = ⟨o, .token a⟩) (mine : a.owner = rt.address .wusdAuthority) : a.delegate = none := by
  obtain ⟨b, b', before, after, -, same, delegate, -, -⟩ := moved
  rw [after] at held
  cases held
  rcases delegate with kept | gone
  · rw [kept]
    exact guarded.undelegated k _ b before (same ▸ mine)
  · exact gone

/-- The wrapped coin's mint is not a token account. -/
theorem ne_of_tokenMoved {m : TokenMint} {o : Pubkey} (moved : TokenMoved rt.tokenProgram s t k minus plus) {j : Pubkey}
    (held : t.get j = ⟨o, .mint m⟩) : j ≠ k := by
  rintro rfl
  obtain ⟨b, b', -, after, -⟩ := moved
  rw [held] at after
  cases congrArg Account.data after

theorem guarded_transfer (guarded : Guarded rt s) (called : rt.transfer s source destination authority amount = some t) :
    Guarded rt t := by
  obtain ⟨-, paid, got, -, rest⟩ := rt.transfer_moves called
  constructor
  · intro o m held
    rw [rest _ (ne_of_tokenMoved paid held) (ne_of_tokenMoved got held)] at held
    exact guarded.minted o m held
  · intro k o a held mine
    by_cases pays : k = source
    · subst pays
      exact undelegated_of_tokenMoved guarded paid held mine
    · by_cases gets : k = destination
      · subst gets
        exact undelegated_of_tokenMoved guarded got held mine
      · rw [rest k pays gets] at held
        exact guarded.undelegated k o a held mine

theorem supply_of_tokenMoved (moved : TokenMoved rt.tokenProgram s t k minus plus) : (t.get k).supply = (s.get k).supply := by
  obtain ⟨a, a', before, after, -⟩ := moved
  rw [before, after]
  rfl

theorem supply_transfer (called : rt.transfer s source destination authority amount = some t) :
    t.wusdSupply rt = s.wusdSupply rt := by
  obtain ⟨-, paid, got, -, rest⟩ := rt.transfer_moves called
  unfold Ledger.wusdSupply
  generalize rt.address .wusdMint = k
  by_cases pays : k = source
  · rw [pays, supply_of_tokenMoved paid]
  · by_cases gets : k = destination
    · rw [gets, supply_of_tokenMoved got]
    · rw [rest k pays gets]

variable (ever) in
/-- A payment by somebody else into a reserve. -/
theorem reserves_payIn (guarded : Guarded rt s) (stranger : authority ≠ rt.address .wusdAuthority)
    (called : rt.transfer s source destination authority amount = some t) :
    s.reserves rt ever ≤ t.reserves rt ever ∧
      (IsReserve rt ever s destination → s.reserves rt ever + amount ≤ t.reserves rt ever) := by
  obtain ⟨may, paid, got, -, rest⟩ := rt.transfer_moves called
  have payer := guarded.not_reserve ever (.inl may) stranger
  have change : t.reserves rt ever + (s.get destination).reserve rt ever =
      s.reserves rt ever + (t.get destination).reserve rt ever := by
    apply Store.total_change_one (fun _ => rfl) (fun _ => rfl)
    intro k other
    by_cases pays : k = source
    · subst pays
      rcases reserve_of_tokenMoved ever paid with ⟨counted, -⟩ | ⟨-, after, before⟩
      · exact absurd counted payer
      · rw [after, before]
    · rw [rest k pays other]
  rcases reserve_of_tokenMoved ever got with ⟨counted, amounts⟩ | ⟨uncounted, after, before⟩
  · have apart : source ≠ destination := by
      rintro rfl
      exact payer counted
    rw [if_neg apart] at amounts
    exact ⟨by omega, fun _ => by omega⟩
  · exact ⟨by omega, fun counted => absurd counted uncounted⟩

variable (ever) in
/-- No transfer takes more than its amount. -/
theorem reserves_payOut (called : rt.transfer s source destination authority amount = some t) :
    s.reserves rt ever ≤ t.reserves rt ever + amount := by
  obtain ⟨-, paid, got, -, rest⟩ := rt.transfer_moves called
  by_cases same : source = destination
  · subst same
    have kept : t.reserves rt ever = s.reserves rt ever := by
      apply reserves_congr
      intro k
      by_cases here : k = source
      · subst here
        rcases reserve_of_tokenMoved ever paid with ⟨-, amounts⟩ | ⟨-, after, before⟩
        · rw [if_pos rfl] at amounts
          omega
        · rw [after, before]
      · rw [rest k here here]
    omega
  · rw [if_neg same] at paid got
    have change := Store.total_change (f := fun _ a => Account.reserve rt ever a) (s := s) (t := t) (fun _ => rfl) (fun _ => rfl)
      {source, destination} fun k outside => by
        simp only [Finset.mem_insert, Finset.mem_singleton, not_or] at outside
        rw [rest k outside.1 outside.2]
    rw [Finset.sum_pair same, Finset.sum_pair same] at change
    change t.reserves rt ever + _ = s.reserves rt ever + _ at change
    rcases reserve_of_tokenMoved ever paid with ⟨-, amounts⟩ | ⟨-, after, before⟩ <;>
      rcases reserve_of_tokenMoved ever got with ⟨-, amounts'⟩ | ⟨-, after', before'⟩ <;> omega

/-- A transfer on somebody else's authority covers itself. -/
theorem covered_transfer (stranger : authority ≠ rt.address .wusdAuthority)
    (called : rt.transfer s source destination authority amount = some t) : Covered rt ever s t := by
  intro guarded
  have kept := (reserves_payIn ever guarded stranger called).1
  have supply := supply_transfer called
  exact ⟨guarded_transfer guarded called, by omega⟩

variable (ever) in
/-- What is minted of the wrapped coin is what its supply grows by; the reserves lose nothing. -/
theorem mintTo_grows (guarded : Guarded rt s) (called : rt.mintTo s mint destination authority amount = some t) :
    Guarded rt t ∧ s.reserves rt ever ≤ t.reserves rt ever ∧
      t.wusdSupply rt ≤ s.wusdSupply rt + (if mint = rt.address .wusdMint then amount else 0) := by
  obtain ⟨⟨m, before, -, after⟩, got, -, rest⟩ := rt.mintTo_moves called
  refine ⟨⟨fun o m' held => ?_, fun k o a held mine => ?_⟩, ?_, ?_⟩
  · by_cases here : rt.address .wusdMint = mint
    · rw [here, after] at held
      cases held
      exact guarded.minted _ m (by rw [here, before])
    · rw [rest _ here (ne_of_tokenMoved got held)] at held
      exact guarded.minted o m' held
  · by_cases gets : k = destination
    · subst gets
      exact undelegated_of_tokenMoved guarded got held mine
    · have other : k ≠ mint := by
        rintro rfl
        rw [after] at held
        cases congrArg Account.data held
      rw [rest k other gets] at held
      exact guarded.undelegated k o a held mine
  · have change : t.reserves rt ever + (s.get destination).reserve rt ever =
        s.reserves rt ever + (t.get destination).reserve rt ever := by
      apply Store.total_change_one (fun _ => rfl) (fun _ => rfl)
      intro k other
      by_cases here : k = mint
      · rw [here, before, after]
        rfl
      · rw [rest k here other]
    rcases reserve_of_tokenMoved ever got with ⟨-, amounts⟩ | ⟨-, after, before⟩ <;> omega
  · unfold Ledger.wusdSupply
    by_cases here : rt.address .wusdMint = mint
    · rw [here, before, after, if_pos rfl]
      exact le_refl _
    · rw [if_neg (Ne.symm here)]
      by_cases gets : rt.address .wusdMint = destination
      · rw [gets, supply_of_tokenMoved got]
        exact Nat.le_add_right _ _
      · rw [rest _ here gets]
        exact Nat.le_add_right _ _

variable (ever) in
/-- What somebody else burns of the wrapped coin is what its supply shrinks by; the reserves lose nothing. -/
theorem burn_shrinks (guarded : Guarded rt s) (stranger : authority ≠ rt.address .wusdAuthority)
    (called : rt.burn s source mint authority amount = some t) :
    Guarded rt t ∧ t.reserves rt ever = s.reserves rt ever ∧
      t.wusdSupply rt + (if mint = rt.address .wusdMint then amount else 0) = s.wusdSupply rt := by
  obtain ⟨may, ⟨m, before, enough, after⟩, paid, -, rest⟩ := rt.burn_moves called
  have payer := guarded.not_reserve ever may stranger
  refine ⟨⟨fun o m' held => ?_, fun k o a held mine => ?_⟩, ?_, ?_⟩
  · by_cases here : rt.address .wusdMint = mint
    · rw [here, after] at held
      cases held
      exact guarded.minted _ m (by rw [here, before])
    · rw [rest _ here (ne_of_tokenMoved paid held)] at held
      exact guarded.minted o m' held
  · by_cases pays : k = source
    · subst pays
      exact undelegated_of_tokenMoved guarded paid held mine
    · have other : k ≠ mint := by
        rintro rfl
        rw [after] at held
        cases congrArg Account.data held
      rw [rest k other pays] at held
      exact guarded.undelegated k o a held mine
  · apply reserves_congr
    intro k
    by_cases here : k = mint
    · rw [here, before, after]
      rfl
    · by_cases pays : k = source
      · subst pays
        rcases reserve_of_tokenMoved ever paid with ⟨counted, -⟩ | ⟨-, after, before⟩
        · exact absurd counted payer
        · rw [after, before]
      · rw [rest k here pays]
  · unfold Ledger.wusdSupply
    by_cases here : rt.address .wusdMint = mint
    · rw [here, before, after, if_pos rfl]
      exact Nat.sub_add_cancel enough
    · rw [if_neg (Ne.symm here), Nat.add_zero]
      by_cases pays : rt.address .wusdMint = source
      · rw [pays, supply_of_tokenMoved paid]
      · rw [rest _ here pays]

/-- Minting of other coins covers itself: the wrapped coin is minted by its authority only. -/
theorem covered_mintTo (stranger : authority ≠ rt.address .wusdAuthority)
    (called : rt.mintTo s mint destination authority amount = some t) : Covered rt ever s t := by
  intro guarded
  obtain ⟨guarded', kept, supply⟩ := mintTo_grows ever guarded called
  have other : mint ≠ rt.address .wusdMint := by
    rintro rfl
    obtain ⟨⟨m, held, may, -⟩, -⟩ := rt.mintTo_moves called
    rw [guarded.minted _ m held] at may
    exact stranger (Option.some.inj may).symm
  rw [if_neg other] at supply
  exact ⟨guarded', by omega⟩

theorem covered_burn (stranger : authority ≠ rt.address .wusdAuthority)
    (called : rt.burn s source mint authority amount = some t) : Covered rt ever s t := by
  intro guarded
  obtain ⟨guarded', kept, supply⟩ := burn_shrinks ever guarded stranger called
  exact ⟨guarded', by omega⟩

/-- A fresh wrapped coin has no supply. -/
theorem covered_initializeMint {decimals : ℕ}
    (called : rt.initializeMint s (rt.address .wusdMint) (rt.address .wusdAuthority) decimals = some t) : Covered rt ever s t := by
  intro guarded
  obtain ⟨⟨n, blank⟩, rfl⟩ := rt.initializeMint_inits called
  refine ⟨⟨fun o m held => ?_, fun k o a held mine => ?_⟩, ?_⟩
  · rw [Store.get_set_self] at held
    cases congrArg Account.data held
    rfl
  · by_cases here : k = rt.address .wusdMint
    · rw [here, Store.get_set_self] at held
      cases congrArg Account.data held
    · rw [Store.get_set_of_ne _ _ here] at held
      exact guarded.undelegated k o a held mine
  · have kept : Ledger.reserves rt ever (s.set (rt.address .wusdMint) ⟨rt.tokenProgram, .mint ⟨some (rt.address .wusdAuthority), 0, decimals⟩⟩) =
        s.reserves rt ever := by
      apply reserves_congr
      intro k
      by_cases here : k = rt.address .wusdMint
      · rw [here, Store.get_set_self, blank]
        rfl
      · rw [Store.get_set_of_ne _ _ here]
    have none : Ledger.wusdSupply rt (s.set (rt.address .wusdMint) ⟨rt.tokenProgram, .mint ⟨some (rt.address .wusdAuthority), 0, decimals⟩⟩) = 0 := by
      rw [Ledger.wusdSupply, Store.get_set_self]
      rfl
    omega

end Calls

/-! ### Instructions -/

section Instructions

theorem covered_atMargin {m : MarginM Unit} (ran : (atMargin rt inv k m).run s = .ok u t) : Covered rt ever s t := by
  have touches : Touches [.marginAccount] [.marginAccount] s t := Within.keeps.ok ran
  exact covered_of_touches touches (by simp) (by simp)

theorem covered_processDeposit {amount : UInt64} (ran : (processDeposit rt inv amount).run s = .ok () t) : Covered rt ever s t := by
  rw [processDeposit, Exec.bind_check] at ran
  obtain ⟨-, -, ran⟩ := ran
  split at ran
  · simp only [Exec.bind_check, exists_const] at ran
    obtain ⟨signed, -, -, -, -, -, bump, -, m, -, -, -, ran⟩ := ran
    rw [Exec.bind_ok] at ran
    obtain ⟨_, mid, paid, credited⟩ := ran
    have first : Covered rt ever s mid := covered_transfer (ne_of_signer signed _) (invoke_ok.mp paid)
    exact first.trans (covered_atMargin credited)
  · cases ran

theorem covered_processWithdraw {amount : UInt64} (ran : (processWithdraw rt inv amount).run s = .ok () t) : Covered rt ever s t := by
  rw [processWithdraw, Exec.bind_check] at ran
  obtain ⟨-, -, ran⟩ := ran
  split at ran
  · simp only [Exec.bind_check, exists_const] at ran
    obtain ⟨signed, -, -, -, -, -, bump, -, _, ⟨rfl, -⟩, -, ran⟩ := ran
    rw [Exec.bind_ok] at ran
    obtain ⟨_, mid, debited, paid⟩ := ran
    have first : Covered rt ever s mid := covered_atMargin debited
    exact first.trans (covered_transfer (by simp) (invoke_ok.mp paid))
  · cases ran

theorem covered_processSweepFees {amount : UInt64} (ran : (processSweepFees rt inv amount).run s = .ok () t) : Covered rt ever s t := by
  rw [processSweepFees, Exec.bind_check] at ran
  obtain ⟨-, -, ran⟩ := ran
  split at ran
  · simp only [Exec.bind_check, exists_const] at ran
    obtain ⟨-, -, -, -, -, -, -, _, ⟨rfl, -⟩, _, -, a, -, -, ran⟩ := ran
    rw [Exec.bind_ok] at ran
    obtain ⟨_, mid, swept, paid⟩ := ran
    have touches : Touches [.feeTreasury] [.feeTreasury] s mid := Within.keeps.ok swept
    have first : Covered rt ever s mid := covered_of_touches touches (by simp) (by simp)
    exact first.trans (covered_transfer (by simp) (invoke_ok.mp paid))
  · cases ran

/-- The mints that the registry accepts now. -/
def acceptedMints (rt : Runtime) (s : Ledger) : List Pubkey :=
  match s.get (rt.address .stablecoinRegistry) with
  | ⟨o, .stablecoinRegistry r⟩ => if o = rt.programId then r.mints else []
  | _ => []

theorem acceptedMints_of_registry (genuine : Genuine rt s) {r : StablecoinRegistry} (owned : s.owner k = rt.programId)
    (held : s.data k = .stablecoinRegistry r) : acceptedMints rt s = r.mints := by
  have here := genuine.fits k owned
  rw [held] at here
  have account := get_eq_of_data owned held
  rw [← (here : _ = k)] at account
  unfold acceptedMints
  rw [account]
  exact if_pos rfl

theorem requireAccepted_ok {registry wusdMint mint : Pubkey} (ran : (requireAccepted registry wusdMint mint).run s = .ok u t) :
    ∃ r, s.data registry = .stablecoinRegistry r ∧ mint ∈ r.mints := by
  simp only [requireAccepted, Exec.bind_check] at ran
  obtain ⟨r, held, _, -, ran⟩ := ran
  have accepted := (Exec.rejectIf_ok.mp ran).1
  exact ⟨r, held, by simpa [StablecoinRegistry.isAccepted] using accepted⟩

theorem loadReserve_ok {reserve authority mint : Pubkey} {a : TokenAccount} (ran : (loadReserve reserve authority mint).run s = .ok a t) :
    (s.data reserve).unpackToken = .ok a ∧ a.owner = authority ∧ a.mint = mint := by
  simp only [loadReserve, Exec.bind_check] at ran
  obtain ⟨token, found, _, owner, _, of_mint, ran⟩ := ran
  obtain ⟨rfl, -⟩ := Exec.pure_ok.mp ran
  exact ⟨found, not_not.mp owner, not_not.mp of_mint⟩

/-- What is wrapped is minted. -/
theorem covered_processWrapStablecoin {amount : UInt64} (genuine : Genuine rt s) (known : ∀ mint ∈ acceptedMints rt s, mint ∈ ever)
    (ran : (processWrapStablecoin rt inv amount).run s = .ok () t) : Covered rt ever s t := by
  rw [processWrapStablecoin, Exec.bind_check] at ran
  obtain ⟨-, -, ran⟩ := ran
  split at ran
  next user registry sourceMint wusdMint wusdAuthority userSource reserve userWusd tokenProgram rest _ =>
    simp only [Exec.bind_check, exists_const] at ran
    obtain ⟨signed, -, -, -, -, owned, -, _, ⟨rfl, -⟩, _, ⟨rfl, -⟩, _, accepted, a, loaded, ran⟩ := ran
    rw [Exec.bind_ok] at ran
    obtain ⟨_, mid, paid, minted⟩ := ran
    have called := invoke_ok.mp paid
    intro guarded
    obtain ⟨r, held, member⟩ := requireAccepted_ok accepted
    obtain ⟨found, mine, of_mint⟩ := loadReserve_ok loaded
    obtain ⟨-, -, ⟨a', -, before, -⟩, -⟩ := rt.transfer_moves called
    have same : a' = a := by
      rw [Ledger.data, before] at found
      simpa [AccountData.unpackToken] using found
    have reserve : IsReserve rt ever s reserve := by
      refine ⟨a', before, same ▸ mine, ?_⟩
      rw [same, of_mint]
      apply known
      rw [acceptedMints_of_registry genuine (owned _ (by simp)) held]
      exact member
    have gained := (reserves_payIn ever guarded (ne_of_signer signed _) called).2 reserve
    have supply := supply_transfer called
    obtain ⟨guarded', kept, grown⟩ := mintTo_grows ever (guarded_transfer guarded called) (invoke_ok.mp minted)
    rw [if_pos rfl] at grown
    exact ⟨guarded', by omega⟩
  · cases ran

/-- What is unwrapped is burned first. -/
theorem covered_processUnwrapStablecoin {amount : UInt64} (ran : (processUnwrapStablecoin rt inv amount).run s = .ok () t) :
    Covered rt ever s t := by
  rw [processUnwrapStablecoin, Exec.bind_check] at ran
  obtain ⟨-, -, ran⟩ := ran
  split at ran
  next user registry targetMint wusdMint wusdAuthority userWusd reserve userTarget tokenProgram rest _ =>
    simp only [Exec.bind_check, exists_const] at ran
    obtain ⟨signed, -, -, -, -, owned, -, _, ⟨rfl, -⟩, _, ⟨rfl, -⟩, _, -, a, -, -, ran⟩ := ran
    rw [Exec.bind_ok] at ran
    obtain ⟨_, mid, burned, paid⟩ := ran
    intro guarded
    obtain ⟨guarded', kept, shrunk⟩ := burn_shrinks ever guarded (ne_of_signer signed _) (invoke_ok.mp burned)
    rw [if_pos rfl] at shrunk
    have called := invoke_ok.mp paid
    have left := reserves_payOut ever called
    have supply := supply_transfer called
    exact ⟨guarded_transfer guarded' called, by omega⟩
  · cases ran

theorem covered_processInitStablecoinRegistry {args : InitStablecoinRegistryArgs}
    (ran : (processInitStablecoinRegistry rt inv args).run s = .ok () t) : Covered rt ever s t := by
  unfold processInitStablecoinRegistry at ran
  split at ran
  next admin config registry wusdMint wusdAuthority tokenProgram system rent rest _ =>
    simp only [Exec.bind_check, exists_const] at ran
    obtain ⟨-, -, -, -, owned, -, -, _, -, bump, -, _, ⟨rfl, -⟩, _, ⟨rfl, -⟩, ran⟩ := ran
    rw [Exec.bind_ok] at ran
    obtain ⟨_, s1, created, ran⟩ := ran
    rw [Exec.bind_ok] at ran
    obtain ⟨_, s2, ensured, ran⟩ := ran
    simp only [Exec.bind_check, exists_const] at ran
    obtain ⟨-, -, inited⟩ := ran
    have creates : Touches [.raw] [.raw] s s1 := Within.keeps.ok created
    have first : Covered rt ever s s1 := covered_of_touches creates (by simp) (by simp)
    have second : Covered rt ever s1 s2 := by
      rw [ensureWusdMint, Exec.run_bind_get] at ensured
      rcases Exec.when_ok.mp ensured with ⟨-, ensured⟩ | ⟨-, rfl⟩
      · rw [Exec.bind_ok] at ensured
        obtain ⟨_, s3, opened, ensured⟩ := ensured
        have opens : Touches [.raw] [.raw] s1 s3 := Within.keeps.ok opened
        have third : Covered rt ever s1 s3 := covered_of_touches opens (by simp) (by simp)
        exact third.trans (covered_initializeMint (invoke_ok.mp ensured))
      · exact .refl s1
    obtain ⟨blank, same, -⟩ := initAccount_ok inited
    have inits : Touches [.raw] [.stablecoinRegistry] s2 t := by
      rw [same]
      apply touches_setData
      · simp [blank]
      · simp
    exact first.trans (second.trans (covered_of_touches inits (by simp) (by simp)))
  · cases ran

/-- Every instruction covers what it mints. -/
theorem covered_of_process {instr : Instruction} (genuine : Genuine rt s) (known : ∀ mint ∈ acceptedMints rt s, mint ∈ ever)
    (ran : (process rt inv instr).run s = .ok () t) : Covered rt ever s t := by
  have touches := (within_process rt inv instr).keeps.ok ran
  cases instr with
  | deposit amount => exact covered_processDeposit ran
  | withdraw amount => exact covered_processWithdraw ran
  | sweepFees amount => exact covered_processSweepFees ran
  | wrapStablecoin amount => exact covered_processWrapStablecoin genuine known ran
  | unwrapStablecoin amount => exact covered_processUnwrapStablecoin ran
  | initStablecoinRegistry args => exact covered_processInitStablecoinRegistry ran
  | _ => exact covered_of_touches touches (by simp [Instruction.writes]) (by simp [Instruction.leaves, Instruction.writes])

end Instructions

end Polyleverage
