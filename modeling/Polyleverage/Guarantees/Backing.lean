import Polyleverage.Guarantees.Authenticity
import Polyleverage.Invariants.Reserves
import Polyleverage.Sample

/-! # The wrapped coin is backed

Whatever is called, and whatever others open, pay, mint and burn in between, the supply of the wrapped coin
is at most what its authority holds of all the mints that were ever accepted.
-/

namespace Polyleverage

variable {rt : Runtime} {inv : rt.Invocation} {ever : List Pubkey} {s t : Ledger} {k : Pubkey}

/-- A token account without tokens and without a delegate, or a mint. -/
def AccountData.Opened : AccountData → Prop
  | .token a => a.amount = 0 ∧ a.delegate = none
  | .mint _ => True
  | _ => False

/-- Runs of the program in which others open accounts of the token program, and pay, mint and burn what is
theirs. The list has every mint that was ever accepted. -/
inductive TokenRun (rt : Runtime) : List Pubkey → Ledger → Prop where
  | genesis {s : Ledger} : Genesis rt s → TokenRun rt [] s
  | call {ever : List Pubkey} {s : Ledger} (c : Call rt) : TokenRun rt ever s →
    TokenRun rt (ever ++ acceptedMints rt (execute rt c s)) (execute rt c s)
  | opened {ever : List Pubkey} {s : Ledger} {k : Pubkey} {d : AccountData} : TokenRun rt ever s → s.get k = default →
    (∀ seeds, k ≠ rt.address seeds) → d.Opened → TokenRun rt ever (s.set k ⟨rt.tokenProgram, d⟩)
  | transfer {ever : List Pubkey} {s t : Ledger} {source destination authority : Pubkey} {amount : ℕ} : TokenRun rt ever s →
    (∀ seeds, authority ≠ rt.address seeds) → rt.transfer s source destination authority amount = some t → TokenRun rt ever t
  | mintTo {ever : List Pubkey} {s t : Ledger} {mint destination authority : Pubkey} {amount : ℕ} : TokenRun rt ever s →
    (∀ seeds, authority ≠ rt.address seeds) → rt.mintTo s mint destination authority amount = some t → TokenRun rt ever t
  | burn {ever : List Pubkey} {s t : Ledger} {source mint authority : Pubkey} {amount : ℕ} : TokenRun rt ever s →
    (∀ seeds, authority ≠ rt.address seeds) → rt.burn s source mint authority amount = some t → TokenRun rt ever t

/-- The supply is backed by the reserves of the mints that were accepted so far. -/
structure Backed (rt : Runtime) (ever : List Pubkey) (s : Ledger) : Prop where
  genuine : Genuine rt s
  guarded : Guarded rt s
  known : ∀ mint ∈ acceptedMints rt s, mint ∈ ever
  covers : s.wusdSupply rt ≤ s.reserves rt ever

/-! ### Steps of others -/

theorem Foreign.genuine (foreign : Foreign rt s t) (genuine : Genuine rt s) : Genuine rt t := by
  apply Outside.genuine _ genuine
  constructor
  · exact fun k owned => foreign.same k (.inl owned)
  · intro k stranger owned
    rw [Ledger.owner, foreign.same k (.inr owned)] at owned
    exact absurd owned stranger
  · exact foreign.no_delegate genuine

theorem Foreign.acceptedMints_eq (foreign : Foreign rt s t) : acceptedMints rt t = acceptedMints rt s := by
  by_cases owned : s.owner (rt.address .stablecoinRegistry) = rt.programId ∨ t.owner (rt.address .stablecoinRegistry) = rt.programId
  · rw [acceptedMints, foreign.same _ owned]
    rfl
  · rw [not_or] at owned
    have none : ∀ v : Ledger, v.owner (rt.address .stablecoinRegistry) ≠ rt.programId → acceptedMints rt v = [] := by
      intro v stranger
      unfold acceptedMints
      split
      next o r held =>
        rw [Ledger.owner, held] at stranger
        exact if_neg stranger
      · rfl
    rw [none s owned.1, none t owned.2]

/-- A step that leaves the program's accounts alone and is covered. -/
theorem Backed.aside (backed : Backed rt ever s) (foreign : Foreign rt s t) (covered : Covered rt ever s t) : Backed rt ever t := by
  obtain ⟨guarded, change⟩ := covered backed.guarded
  have covers := backed.covers
  refine ⟨foreign.genuine backed.genuine, guarded, ?_, by omega⟩
  rw [foreign.acceptedMints_eq]
  exact backed.known

theorem foreign_opened {d : AccountData} (vacant : s.get k = default) (opened : d.Opened) :
    Foreign rt s (s.set k ⟨rt.tokenProgram, d⟩) where
  same j owned := by
    apply Store.get_set_of_ne
    rintro rfl
    rcases owned with before | after
    · rw [Ledger.owner, vacant] at before
      exact rt.program_ne_system before.symm
    · rw [Ledger.owner, Store.get_set_self] at after
      exact rt.program_ne_token after.symm
  no_delegate genuine j o a seeds held mine := by
    by_cases here : j = k
    · subst here
      rw [Store.get_set_self] at held
      cases held
      exact opened.2
    · rw [Store.get_set_of_ne _ _ here] at held
      exact genuine.no_delegate j o a seeds held mine

theorem covered_opened {d : AccountData} (vacant : s.get k = default) (own : ∀ seeds, k ≠ rt.address seeds) (opened : d.Opened) :
    Covered rt ever s (s.set k ⟨rt.tokenProgram, d⟩) := by
  intro guarded
  refine ⟨⟨fun o m held => ?_, fun j o a held mine => ?_⟩, ?_⟩
  · rw [Store.get_set_of_ne _ _ (own .wusdMint).symm] at held
    exact guarded.minted o m held
  · by_cases here : j = k
    · subst here
      rw [Store.get_set_self] at held
      cases held
      exact opened.2
    · rw [Store.get_set_of_ne _ _ here] at held
      exact guarded.undelegated j o a held mine
  · have reserves : Ledger.reserves rt ever (s.set k ⟨rt.tokenProgram, d⟩) = s.reserves rt ever := by
      apply reserves_congr
      intro j
      by_cases here : j = k
      · subst here
        rw [Store.get_set_self, vacant]
        cases d with
        | token a => simp [Account.reserve, opened.1, default]
        | mint m => rfl
        | _ => exact absurd opened (by simp [AccountData.Opened])
      · rw [Store.get_set_of_ne _ _ here]
    have supply : Ledger.wusdSupply rt (s.set k ⟨rt.tokenProgram, d⟩) = s.wusdSupply rt := by
      rw [Ledger.wusdSupply, Store.get_set_of_ne _ _ (own .wusdMint).symm]
      rfl
    omega

/-! ### Calls -/

theorem reserves_mono {ever' : List Pubkey} (more : ∀ mint ∈ ever, mint ∈ ever') : s.reserves rt ever ≤ s.reserves rt ever' := by
  rw [Ledger.reserves, Ledger.reserves, Store.total, Store.total]
  apply Finset.sum_le_sum
  intro k _
  generalize s.get k = account
  obtain ⟨o, d⟩ := account
  cases d with
  | token a =>
    by_cases counted : o = rt.tokenProgram ∧ a.owner = rt.address .wusdAuthority ∧ a.mint ∈ ever
    · have counted' := And.intro counted.1 (And.intro counted.2.1 (more _ counted.2.2))
      rw [Account.reserve, Account.reserve, if_pos counted, if_pos counted']
    · rw [Account.reserve, if_neg counted]
      exact Nat.zero_le _
  | _ => exact Nat.zero_le _

theorem Backed.call (backed : Backed rt ever s) (c : Call rt) :
    Backed rt (ever ++ acceptedMints rt (execute rt c s)) (execute rt c s) := by
  have more : ∀ mint ∈ ever, mint ∈ ever ++ acceptedMints rt (execute rt c s) := fun mint old =>
    List.mem_append_left _ old
  have accepted : ∀ mint ∈ acceptedMints rt (execute rt c s), mint ∈ ever ++ acceptedMints rt (execute rt c s) :=
    fun mint now => List.mem_append_right _ now
  have wider : (execute rt c s).reserves rt ever ≤ (execute rt c s).reserves rt (ever ++ acceptedMints rt (execute rt c s)) :=
    reserves_mono more
  rcases execute_eq_or_ok c s with same | ran
  · rw [same] at accepted wider ⊢
    exact ⟨backed.genuine, backed.guarded, accepted, backed.covers.trans wider⟩
  · obtain ⟨guarded, change⟩ := covered_of_process backed.genuine backed.known ran backed.guarded
    have covers := backed.covers
    exact ⟨(upkeep_process backed.genuine ran).genuine, guarded, accepted, by omega⟩

theorem backed_genesis (gen : Genesis rt s) : Backed rt [] s where
  genuine := genuine_genesis gen
  guarded :=
    { minted := fun o m held => by
        rw [gen.vacant] at held
        cases congrArg Account.data held
      undelegated := fun k o a held mine => gen.no_delegate k o a _ held mine }
  known := by
    unfold acceptedMints
    rw [gen.vacant]
    simp [default]
  covers := by
    rw [Ledger.wusdSupply, gen.vacant]
    exact Nat.zero_le _

theorem backed_of_run (run : TokenRun rt ever s) : Backed rt ever s := by
  induction run with
  | genesis gen => exact backed_genesis gen
  | call c _ ih => exact ih.call c
  | opened _ vacant own opened ih => exact ih.aside (foreign_opened vacant opened) (covered_opened vacant own opened)
  | transfer _ stranger called ih => exact ih.aside (foreign_transfer called) (covered_transfer (stranger _) called)
  | mintTo _ stranger called ih => exact ih.aside (foreign_mintTo called) (covered_mintTo (stranger _) called)
  | burn _ stranger called ih => exact ih.aside (foreign_burn called) (covered_burn (stranger _) called)

/-- In every run the supply of the wrapped coin is backed, atom for atom, by what its authority holds of the
mints that were ever accepted. -/
theorem wusd_is_backed (run : TokenRun rt ever s) : s.wusdSupply rt ≤ s.reserves rt ever := (backed_of_run run).covers

namespace Sample

def registry : Pubkey := Runtime.sample.address .stablecoinRegistry

def wusdMint : Pubkey := Runtime.sample.address .wusdMint

def wusdAuthority : Pubkey := Runtime.sample.address .wusdAuthority

/-- The wrapped coin accepts the sample's mint. -/
def wrapping : Ledger :=
  runCalls Runtime.sample [call (.initProgramConfig ⟨oracle, 60⟩) [admin] [admin, config, admin, systemProgram],
    call (.initStablecoinRegistry ⟨6, [mint]⟩) [admin]
      [admin, config, registry, wusdMint, wusdAuthority, Runtime.sample.tokenProgram, systemProgram, ⟨2⟩]] genesis

/-- The reserve of the sample's mint, and Alice's account for the wrapped coin. -/
def reserve : Pubkey := ⟨1000⟩

def aliceWusd : Pubkey := ⟨1002⟩

def ready : Ledger :=
  (wrapping.set reserve ⟨Runtime.sample.tokenProgram, .token ⟨mint, wusdAuthority, 0, none⟩⟩).set aliceWusd
    ⟨Runtime.sample.tokenProgram, .token ⟨wusdMint, alice, 0, none⟩⟩

def wrap : Call Runtime.sample :=
  call (.wrapStablecoin 1000) [alice]
    [alice, registry, mint, wusdMint, wusdAuthority, tokensOf alice, reserve, aliceWusd, Runtime.sample.tokenProgram]

def wrapped : Ledger := execute Runtime.sample wrap ready

theorem even_ne_address {k : Pubkey} (even : k.value % 2 = 0) (seeds : Seeds) : k ≠ Runtime.sample.address seeds := by
  rintro rfl
  rw [Runtime.sample_address_odd] at even
  cases even

theorem run_wrapped : ∃ ever, TokenRun Runtime.sample ever wrapped := by
  have configured := TokenRun.call (call (.initProgramConfig ⟨oracle, 60⟩) [admin] [admin, config, admin, systemProgram])
    (.genesis genesis_genesis)
  have accepting := TokenRun.call (call (.initStablecoinRegistry ⟨6, [mint]⟩) [admin]
      [admin, config, registry, wusdMint, wusdAuthority, Runtime.sample.tokenProgram, systemProgram, ⟨2⟩]) configured
  have reserved := accepting.opened (k := reserve) (d := .token ⟨mint, wusdAuthority, 0, none⟩) (by decide +kernel)
    (even_ne_address rfl) ⟨rfl, rfl⟩
  have opened := reserved.opened (k := aliceWusd) (d := .token ⟨wusdMint, alice, 0, none⟩) (by decide +kernel)
    (even_ne_address rfl) ⟨rfl, rfl⟩
  exact ⟨_, opened.call wrap⟩

end Sample

/-- Alice has wrapped a thousand atoms. -/
theorem wusd_is_backed_wrapped : Sample.wrapped.wusdSupply Runtime.sample = 1000 ∧
    ∃ ever, 1000 ≤ Sample.wrapped.reserves Runtime.sample ever := by
  have supply : Sample.wrapped.wusdSupply Runtime.sample = 1000 := by decide +kernel
  obtain ⟨ever, run⟩ := Sample.run_wrapped
  have backed := wusd_is_backed run
  rw [supply] at backed
  exact ⟨supply, ever, backed⟩

end Polyleverage
