import Polyleverage.Invariants.Issued
import Polyleverage.Sample

/-! # Authentic accounts

The program owns no account but blank ones and its own: each lies at the address that its content names
and carries the discriminator and the length of one kind. So an account that loads as one of a kind is
the one of that kind, whoever passes it.
-/

namespace Polyleverage

variable {rt : Runtime} {s t : Ledger} {k : Pubkey}

/-! ### Kinds and homes -/

namespace AccountKind

/-- The first byte of an account of the program. -/
def discriminator : AccountKind → Option ℕ
  | programConfig => some 1
  | marginAccount => some 2
  | instrumentConfig => some 3
  | intentBook => some 4
  | pmlc => some 5
  | marketNonce => some 8
  | feeSchedule => some 10
  | userVolume => some 11
  | feeTreasury => some 12
  | timelock => some 13
  | adminMultisig => some 14
  | bucketRegistry => some 15
  | stablecoinRegistry => some 16
  | session => some 17
  | raw => none
  | token => none
  | mint => none

/-- The lengths an account of this kind may have. A book has any number of slots. -/
def IsLength (kind : AccountKind) (length : ℕ) : Prop :=
  match kind with
  | programConfig => length = 176
  | marginAccount => length = 144
  | instrumentConfig => length = 264
  | intentBook => ∃ slots, length = IntentBook.byteSize slots
  | pmlc => length = 304
  | marketNonce => length = 104
  | feeSchedule => length = 184
  | userVolume => length = 136
  | feeTreasury => length = 88
  | timelock => length = 168
  | adminMultisig => length = 624
  | bucketRegistry => length = 272
  | stablecoinRegistry => length = 624
  | session => length = 440
  | raw => True
  | token => length = 165
  | mint => length = 82

/-- Different kinds of the program's accounts start with different bytes. -/
theorem discriminator_injective {kind other : AccountKind} {byte : ℕ} (one : kind.discriminator = some byte)
    (two : other.discriminator = some byte) : kind = other := by
  cases kind <;> cases other <;> simp_all [discriminator] <;> omega

end AccountKind

namespace AccountData

theorem isLength (d : AccountData) : d.kind.IsLength d.length := by
  cases d with
  | intentBook b => exact ⟨_, rfl⟩
  | raw n => trivial
  | _ => rfl

/-- The seeds that an account's content names: where it has to lie. -/
def home : AccountData → Option Seeds
  | programConfig _ => some .config
  | marginAccount m => some (.margin m.owner m.collateralMint)
  | instrumentConfig c => some c.seeds
  | intentBook b => some (.book b.header.instrument)
  | pmlc p => some (.pmlc p.instrument p.id)
  | marketNonce n => some (.marketNonce n.marketId)
  | feeSchedule _ => some .feeSchedule
  | userVolume v => some (.userVolume v.owner v.collateralMint)
  | feeTreasury f => some (.treasury f.collateralMint)
  | timelock p => some (.timelock p.proposalId)
  | adminMultisig _ => some .adminMultisig
  | bucketRegistry _ => some .bucketRegistry
  | stablecoinRegistry _ => some .stablecoinRegistry
  | session x => some (.session x.owner)
  | raw _ => none
  | token _ => none
  | mint _ => none

end AccountData

/-! ### Runs among outsiders -/

/-- What others may do to a ledger between the calls of the program: nothing to its accounts, only
blank accounts for it, and no delegates for what its addresses hold. -/
structure Outside (rt : Runtime) (s t : Ledger) : Prop where
  owned : ∀ k, s.owner k = rt.programId → t.get k = s.get k
  blank : ∀ k, s.owner k ≠ rt.programId → t.owner k = rt.programId → ∃ n, t.data k = .raw n
  no_delegate : ∀ k o a seeds, t.get k = ⟨o, .token a⟩ → a.owner = rt.address seeds → a.delegate = none

/-- The ledgers that any calls lead to while others act in between. -/
inductive ReachableAmongOthers (rt : Runtime) : Ledger → Prop where
  | genesis {s : Ledger} : Genesis rt s → ReachableAmongOthers rt s
  | call {s : Ledger} (c : Call rt) : ReachableAmongOthers rt s → ReachableAmongOthers rt (execute rt c s)
  | outside {s t : Ledger} : ReachableAmongOthers rt s → Outside rt s t → ReachableAmongOthers rt t

theorem Outside.genuine (outside : Outside rt s t) (genuine : Genuine rt s) : Genuine rt t where
  fits k owned := by
    by_cases before : s.owner k = rt.programId
    · have same := outside.owned k before
      have fits := genuine.fits k before
      rw [Ledger.data, same]
      apply fits.mono
      intro j c listed
      obtain ⟨owned_j, -⟩ := listed.account
      unfold Ledger.Listed Ledger.fixed Ledger.owner Ledger.data
      rw [outside.owned j owned_j]
      exact listed
    · obtain ⟨n, blank⟩ := outside.blank k before owned
      rw [blank]
      trivial
  no_delegate := outside.no_delegate

/-! ### Books lie at home -/

/-- Every book of the program lies at the address of its instrument's book. -/
def BooksAtHome (rt : Runtime) (s : Ledger) : Prop :=
  ∀ k b, s.get k = ⟨rt.programId, .intentBook b⟩ → rt.address (.book b.header.instrument) = k

theorem booksAtHome_of_process {inv : rt.Invocation} {instr : Instruction} (home : BooksAtHome rt s)
    (ran : (process rt inv instr).run s = .ok () t) : BooksAtHome rt t := by
  intro k b held
  cases created : instr.creates with
  | false =>
    obtain ⟨b', before, grown⟩ := (shelves_of_process created ran).back held
    rw [grown.instrument]
    exact home k b' before
  | true =>
    obtain ⟨args, rfl⟩ : ∃ args, instr = .createInstrument args := by
      cases instr <;> simp_all [Instruction.creates]
    rcases books_of_createInstrument ran held with before | ⟨instrument, capacity, bump, rfl, -, rfl⟩
    · exact home k b before
    · rfl

theorem genuine_among_others (reached : ReachableAmongOthers rt s) : Genuine rt s ∧ BooksAtHome rt s := by
  induction reached with
  | genesis gen =>
    refine ⟨genuine_genesis gen, fun k b held => ?_⟩
    exact absurd (congrArg Account.owner held) (gen.not_owned k)
  | @call s c _ ih =>
    rcases execute_eq_or_ok c s with same | ran
    · rwa [same]
    · exact ⟨(upkeep_process ih.1 ran).genuine, booksAtHome_of_process ih.2 ran⟩
  | @outside s t _ outside ih =>
    refine ⟨outside.genuine ih.1, fun k b held => ?_⟩
    by_cases before : s.owner k = rt.programId
    · rw [outside.owned k before] at held
      exact ih.2 k b held
    · obtain ⟨n, blank⟩ := outside.blank k before (congrArg Account.owner held)
      rw [Ledger.data, held] at blank
      cases blank

/-- Content that fits lies at home. -/
theorem home_of_fits {d : AccountData} {listed : Pubkey → InstrumentConfig → Prop} (fits : Fits rt listed k d)
    (written : d.kind ≠ .raw)
    (book : ∀ b, d = .intentBook b → rt.address (.book b.header.instrument) = k) :
    ∃ seeds byte, d.home = some seeds ∧ rt.address seeds = k ∧ d.kind.discriminator = some byte := by
  cases d with
  | raw n => exact absurd rfl written
  | token a => exact fits.elim
  | mint m => exact fits.elim
  | intentBook b => exact ⟨_, _, rfl, book b rfl, rfl⟩
  | marginAccount m => exact ⟨_, _, rfl, fits.1, rfl⟩
  | instrumentConfig c => exact ⟨_, _, rfl, fits.1, rfl⟩
  | pmlc p => exact ⟨_, _, rfl, fits.1, rfl⟩
  | feeSchedule f => exact ⟨_, _, rfl, fits.1, rfl⟩
  | programConfig c => exact ⟨_, _, rfl, fits, rfl⟩
  | marketNonce n => exact ⟨_, _, rfl, fits, rfl⟩
  | userVolume v => exact ⟨_, _, rfl, fits, rfl⟩
  | feeTreasury f => exact ⟨_, _, rfl, fits, rfl⟩
  | timelock p => exact ⟨_, _, rfl, fits, rfl⟩
  | adminMultisig ms => exact ⟨_, _, rfl, fits, rfl⟩
  | bucketRegistry r => exact ⟨_, _, rfl, fits, rfl⟩
  | stablecoinRegistry r => exact ⟨_, _, rfl, fits, rfl⟩
  | session x => exact ⟨_, _, rfl, fits, rfl⟩

/-- An account of the program with content in it lies at home. -/
theorem home_of_reached (reached : ReachableAmongOthers rt s) (owned : s.owner k = rt.programId)
    (written : (s.data k).kind ≠ .raw) :
    ∃ seeds byte, (s.data k).home = some seeds ∧ rt.address seeds = k ∧ (s.data k).kind.discriminator = some byte := by
  obtain ⟨genuine, home⟩ := genuine_among_others reached
  refine home_of_fits (genuine.fits k owned) written fun b held => ?_
  exact home k b (get_eq_of_data owned held)

theorem ReachableAmongOthers.of_reachable {allowed : Instruction → Prop} (reached : Reachable rt allowed s) :
    ReachableAmongOthers rt s := by
  induction reached with
  | genesis gen => exact .genesis gen
  | call c _ _ ih => exact .call c ih

/-- Every account of the program that is not blank starts with the byte and has the length of exactly one
kind, and is the one account at home where its content says. So what loads as the config is the one
config, and what loads as a position is the position of its instrument and number. -/
theorem accounts_are_authentic (reached : ReachableAmongOthers rt s) :
    (∀ k, s.owner k = rt.programId → (s.data k).kind ≠ .raw →
      (∃ byte, (s.data k).kind.discriminator = some byte ∧
        ∃! kind : AccountKind, kind.discriminator = some byte ∧ kind.IsLength (s.data k).length) ∧
      ∃ seeds, (s.data k).home = some seeds ∧ rt.address seeds = k ∧
        ∀ j, s.owner j = rt.programId → (s.data j).home = some seeds → j = k) ∧
    (∀ k c, s.owner k = rt.programId → (s.data k).loadProgramConfig = .ok c → k = rt.address .config) ∧
    ∀ k p, s.owner k = rt.programId → (s.data k).loadPmlc = .ok p → k = rt.address (.pmlc p.instrument p.id) := by
  have atHome : ∀ k seeds, s.owner k = rt.programId → (s.data k).home = some seeds → rt.address seeds = k := by
    intro k seeds owned named
    have written : (s.data k).kind ≠ .raw := by
      intro blank
      cases found : s.data k <;> simp_all [AccountData.home, AccountData.kind]
    obtain ⟨seeds', byte, named', here, -⟩ := home_of_reached reached owned written
    rw [named] at named'
    cases named'
    exact here
  refine ⟨fun k owned written => ?_, fun k c owned loaded => ?_, fun k p owned loaded => ?_⟩
  · obtain ⟨seeds, byte, named, here, starts⟩ := home_of_reached reached owned written
    refine ⟨⟨byte, starts, (s.data k).kind, ⟨starts, (s.data k).isLength⟩, fun other both => ?_⟩, seeds, named, here, ?_⟩
    · exact AccountKind.discriminator_injective both.1 starts
    · intro j owned_j named_j
      exact (atHome j seeds owned_j named_j).symm.trans here
  · rw [AccountData.loadProgramConfig_ok] at loaded
    exact (atHome k _ owned (by rw [loaded]; rfl)).symm
  · rw [AccountData.loadPmlc_ok] at loaded
    exact (atHome k _ owned (by rw [loaded]; rfl)).symm

/-- The position of the sample is the one account at home where it lies. -/
theorem accounts_are_authentic_traded :
    (Sample.traded.data (Sample.pmlc Sample.poly 3)).home = some (.pmlc (Sample.instrument Sample.poly) 3) ∧
      ∀ j, Sample.traded.owner j = Runtime.sample.programId →
        (Sample.traded.data j).home = some (.pmlc (Sample.instrument Sample.poly) 3) → j = Sample.pmlc Sample.poly 3 := by
  have reached : Reachable Runtime.sample (fun _ => True) Sample.traded := Sample.reachable fun _ _ => trivial
  have authentic := accounts_are_authentic (ReachableAmongOthers.of_reachable reached)
  have owned : Sample.traded.owner (Sample.pmlc Sample.poly 3) = Runtime.sample.programId := by decide +kernel
  have written : (Sample.traded.data (Sample.pmlc Sample.poly 3)).kind ≠ .raw := by decide +kernel
  have named : (Sample.traded.data (Sample.pmlc Sample.poly 3)).home = some (.pmlc (Sample.instrument Sample.poly) 3) := by
    decide +kernel
  obtain ⟨seeds, here, -, alone⟩ := (authentic.1 _ owned written).2
  refine ⟨named, fun j owned_j named_j => ?_⟩
  rw [named] at here
  cases here
  exact alone j owned_j named_j

end Polyleverage
