import Polyleverage.Runtime.Ledger

/-! # The runtime around the program

What the program takes from its surroundings: the derivation of addresses, the token program, and
for one invocation the accounts it was given, who signed, what may be written, and the clock. The
token program is not part of the repository; it is given by its operations and by what they are
documented to do.

An inner call that fails takes the whole transaction down, and so does a write to an account that is
not writable or belongs to another program.
-/

namespace Polyleverage

/-- An account's data may grow by this many bytes in one instruction. -/
def MAX_PERMITTED_DATA_INCREASE : ℕ := 10240

/-- The bytes of a mint. -/
def MINT_LEN : ℕ := 82

/-- The token account at `k` pays `minus`, gets `plus`, and stays with its holder. A delegate can only
be used up. -/
def TokenMoved (tokenProgram : Pubkey) (s t : Ledger) (k : Pubkey) (minus plus : ℕ) : Prop :=
  ∃ a a' : TokenAccount, s.get k = ⟨tokenProgram, .token a⟩ ∧ t.get k = ⟨tokenProgram, .token a'⟩ ∧
    a'.mint = a.mint ∧ a'.owner = a.owner ∧ (a'.delegate = a.delegate ∨ a'.delegate = none) ∧
    minus ≤ a.amount ∧ a'.amount + minus = a.amount + plus

/-- The holder of a token account or its delegate. -/
def MayMove (s : Ledger) (k authority : Pubkey) : Prop :=
  ∀ o a, s.get k = ⟨o, .token a⟩ → authority = a.owner ∨ a.delegate = some authority

/-- What the system program or the incinerator holds is anybody's to burn. -/
def MayBurn (incinerator : Pubkey) (s : Ledger) (k authority : Pubkey) : Prop :=
  MayMove s k authority ∨ ∃ o a, s.get k = ⟨o, .token a⟩ ∧ (a.owner = systemProgram ∨ a.owner = incinerator)

structure Runtime where
  programId : Pubkey
  tokenProgram : Pubkey
  incinerator : Pubkey
  instructionsSysvar : Pubkey
  ed25519Program : Pubkey
  findProgramAddress : Seeds → Pubkey × ℕ
  getAssociatedTokenAddress : Pubkey → Pubkey → Pubkey
  transfer : Ledger → Pubkey → Pubkey → Pubkey → ℕ → Option Ledger
  mintTo : Ledger → Pubkey → Pubkey → Pubkey → ℕ → Option Ledger
  burn : Ledger → Pubkey → Pubkey → Pubkey → ℕ → Option Ledger
  initializeMint : Ledger → Pubkey → Pubkey → ℕ → Option Ledger
  /-- The mint in the first bytes of an account of the token program, of whatever kind the account is. -/
  unpackMint : AccountData → Except ProgramError TokenMint
  program_ne_system : programId ≠ systemProgram
  program_ne_token : programId ≠ tokenProgram
  token_ne_system : tokenProgram ≠ systemProgram
  /-- Different seeds derive different addresses. -/
  address_injective : ∀ a b, (findProgramAddress a).1 = (findProgramAddress b).1 → a = b
  address_ne_system : ∀ seeds, (findProgramAddress seeds).1 ≠ systemProgram
  address_ne_incinerator : ∀ seeds, (findProgramAddress seeds).1 ≠ incinerator
  /-- A transfer moves exactly the amount between two accounts of one mint, or fails. -/
  transfer_moves : ∀ {s t source destination authority amount},
    transfer s source destination authority amount = some t →
    MayMove s source authority ∧
    TokenMoved tokenProgram s t source amount (if source = destination then amount else 0) ∧
    TokenMoved tokenProgram s t destination (if source = destination then amount else 0) amount ∧
    (∀ a b, s.data source = .token a → s.data destination = .token b → a.mint = b.mint) ∧
    ∀ k, k ≠ source → k ≠ destination → t.get k = s.get k
  /-- Minting credits one account of the mint and its supply. -/
  mintTo_moves : ∀ {s t mint destination authority amount},
    mintTo s mint destination authority amount = some t →
    (∃ m, s.get mint = ⟨tokenProgram, .mint m⟩ ∧ m.mintAuthority = some authority ∧
      t.get mint = ⟨tokenProgram, .mint { m with supply := m.supply + amount }⟩) ∧
    TokenMoved tokenProgram s t destination 0 amount ∧
    (∀ a, s.data destination = .token a → a.mint = mint) ∧
    ∀ k, k ≠ mint → k ≠ destination → t.get k = s.get k
  /-- Burning debits one account of the mint and its supply. -/
  burn_moves : ∀ {s t source mint authority amount},
    burn s source mint authority amount = some t →
    MayBurn incinerator s source authority ∧
    (∃ m, s.get mint = ⟨tokenProgram, .mint m⟩ ∧ amount ≤ m.supply ∧
      t.get mint = ⟨tokenProgram, .mint { m with supply := m.supply - amount }⟩) ∧
    TokenMoved tokenProgram s t source amount 0 ∧
    (∀ a, s.data source = .token a → a.mint = mint) ∧
    ∀ k, k ≠ mint → k ≠ source → t.get k = s.get k
  /-- Only a fresh account of the token program becomes a mint. -/
  initializeMint_inits : ∀ {s t mint authority decimals},
    initializeMint s mint authority decimals = some t →
    (∃ n, s.get mint = ⟨tokenProgram, .raw n⟩) ∧
    t = s.set mint ⟨tokenProgram, .mint ⟨some authority, 0, decimals⟩⟩
  unpackMint_mint : ∀ m, unpackMint (.mint m) = .ok m
  /-- Nobody asks whether the mint is initialized. -/
  unpackMint_blank : unpackMint (.raw MINT_LEN) = .ok ⟨none, 0, 0⟩

namespace Runtime

/-- The derived address of some seeds. -/
def address (rt : Runtime) (seeds : Seeds) : Pubkey := (rt.findProgramAddress seeds).1

def bump (rt : Runtime) (seeds : Seeds) : ℕ := (rt.findProgramAddress seeds).2

@[simp] theorem address_inj {rt : Runtime} {a b : Seeds} : rt.address a = rt.address b ↔ a = b :=
  ⟨rt.address_injective a b, congrArg rt.address⟩

/-- What a derived address holds is its own to burn. -/
theorem mayMove_of_mayBurn {rt : Runtime} {s : Ledger} {k authority o : Pubkey} {a : TokenAccount} {seeds : Seeds}
    (may : MayBurn rt.incinerator s k authority) (found : s.get k = ⟨o, .token a⟩) (held : a.owner = rt.address seeds) :
    MayMove s k authority := by
  rcases may with may | ⟨o', a', found', free⟩
  · exact may
  · rw [found] at found'
    cases found'
    rcases free with system | burned
    · exact absurd (held.symm.trans system) (rt.address_ne_system seeds)
    · exact absurd (held.symm.trans burned) (rt.address_ne_incinerator seeds)

/-- One call of the program. A derived address never signs. -/
structure Invocation (rt : Runtime) where
  accounts : List Pubkey
  isSigner : Pubkey → Bool
  isWritable : Pubkey → Bool
  slot : ℕ
  unixTimestamp : ℤ
  instructions : List SysvarInstruction
  /-- Whether creating or growing this account finds its rent, with nothing at the address yet. -/
  rentFunded : Pubkey → Bool
  address_not_signer : ∀ seeds, isSigner (rt.address seeds) = false
  slot_lt : slot < 2 ^ 64

end Runtime

variable (rt : Runtime)

/-! ### Checks -/

section Checks

variable (inv : rt.Invocation)

def assertSigner (k : Pubkey) : LedgerM Unit :=
  Exec.rejectIf (inv.isSigner k = false) PolyleverageError.missingSigner

def assertWritable (k : Pubkey) : LedgerM Unit := Exec.rejectIf (inv.isWritable k = false) .invalidAccountData

def assertSystemProgram (k : Pubkey) : LedgerM Unit := Exec.rejectIf (k ≠ systemProgram) .invalidAccountData

def assertTokenProgram (k : Pubkey) : LedgerM Unit := Exec.rejectIf (k ≠ rt.tokenProgram) .invalidAccountData

/-- All these accounts belong to the program. -/
def assertOwned (keys : List Pubkey) : LedgerM Unit := do
  let s ← Exec.get
  Exec.rejectIf (∃ k ∈ keys, s.owner k ≠ rt.programId) PolyleverageError.invalidAccountOwner

/-- The account belongs to the token program. -/
def assertTokenOwned (k : Pubkey) : LedgerM Unit := do
  let s ← Exec.get
  Exec.rejectIf (s.owner k ≠ rt.tokenProgram) PolyleverageError.invalidMint

/-- Derive an address and compare. The result is the bump. -/
def assertPda (seeds : Seeds) (k : Pubkey) : LedgerM ℕ := do
  Exec.rejectIf (rt.address seeds ≠ k) PolyleverageError.invalidPda
  pure (rt.bump seeds)

/-- Nothing was written to the account yet. -/
def assertEmpty (k : Pubkey) : LedgerM Unit := do
  let s ← Exec.get
  Exec.rejectIf ((s.data k).length ≠ 0) PolyleverageError.alreadyInitialized

/-- The clock's wall time, not before the epoch. -/
def nowUnix : ℕ := inv.unixTimestamp.toNat

end Checks

/-! ### Reading and writing accounts -/

def load {α : Type} (view : AccountData → Except ProgramError α) (k : Pubkey) : LedgerM α :=
  Exec.gets fun s => view (s.data k)

/-- Read a mint. Data that is too short for one takes the transaction down. -/
def loadMint (k : Pubkey) : LedgerM TokenMint := do
  let s ← Exec.get
  Exec.abortIf ((s.data k).length < MINT_LEN)
  load rt.unpackMint k

section Writes

variable (inv : rt.Invocation)

/-- The runtime refuses to change this account's data to `d`. -/
def Refuses (s : Ledger) (k : Pubkey) (d : AccountData) : Prop :=
  d ≠ s.data k ∧ (inv.isWritable k = false ∨ s.owner k ≠ rt.programId)

instance (s : Ledger) (k : Pubkey) (d : AccountData) : Decidable (Refuses rt inv s k d) :=
  inferInstanceAs (Decidable (_ ∧ _))

def writeData (k : Pubkey) (d : AccountData) : LedgerM Unit := do
  let s ← Exec.get
  Exec.abortIf (Refuses rt inv s k d)
  Exec.put (s.setData k d)

/-- Borrow an account's data, run a program on what it holds, and leave what the program leaves, also
when it fails. -/
def atAccount {α τ : Type} (view : AccountData → Except ProgramError τ) (data : τ → AccountData) (k : Pubkey)
    (m : Exec ProgramError τ α) : LedgerM α := fun s =>
  match view (s.data k) with
  | .error e => .err e s
  | .ok x =>
    match m.run x with
    | .ok a y => if Refuses rt inv s k (data y) then .abort else .ok a (s.setData k (data y))
    | .err e y => if Refuses rt inv s k (data y) then .abort else .err e (s.setData k (data y))
    | .abort => .abort

def atMargin (k : Pubkey) (m : MarginM Unit) : LedgerM Unit :=
  atAccount rt inv AccountData.loadMargin .marginAccount k m

def atBook {α : Type} (k : Pubkey) (m : BookM α) : LedgerM α :=
  atAccount rt inv AccountData.loadBook .intentBook k m

/-- Replace what an account holds. -/
def updateAccount {τ : Type} (view : AccountData → Except ProgramError τ) (data : τ → AccountData) (k : Pubkey)
    (f : τ → τ) : LedgerM Unit :=
  atAccount rt inv view data k (Exec.modify f)

/-- Write fresh data over zeros. -/
def initAccount (k : Pubkey) (fresh : AccountData) : LedgerM Unit := do
  let s ← Exec.get
  Exec.ofExcept ((s.data k).checkFresh fresh)
  writeData rt inv k fresh

end Writes

/-! ### Inner calls -/

/-- The result of an inner call, which takes the transaction down when it fails. -/
def invoke (call : Ledger → Option Ledger) : LedgerM Unit := fun s =>
  match call s with
  | some t => .ok () t
  | none => .abort

section Calls

variable (inv : rt.Invocation)

/-- Create an account with the payer's lamports. The address must not hold an account yet. -/
def createAccount (payer target : Pubkey) (space : ℕ) (owner : Pubkey) : LedgerM Unit := do
  let s ← Exec.get
  Exec.abortIf (systemProgram ∉ inv.accounts ∨ inv.isSigner payer = false ∨ inv.isWritable payer = false ∨
    inv.isWritable target = false ∨ inv.rentFunded target = false ∨
    MAX_PERMITTED_DATA_INCREASE < space ∨ s.get target ≠ default)
  Exec.put (s.set target ⟨owner, .raw space⟩)

/-- Create an account of the program and write its first data. -/
def createAndInit (payer target : Pubkey) (fresh : AccountData) : LedgerM Unit := do
  createAccount rt inv payer target fresh.length rt.programId
  initAccount rt inv target fresh

end Calls

/-! ### What a successful check, read or write says -/

section Success

variable {rt} {inv : rt.Invocation} {s t : Ledger} {k : Pubkey} {u : Unit}

@[simp] theorem assertSigner_ok : (assertSigner rt inv k).run s = .ok u t ↔ inv.isSigner k = true ∧ s = t := by
  simp [assertSigner, Exec.rejectIf_ok]

@[simp] theorem assertWritable_ok :
    (assertWritable rt inv k).run s = .ok u t ↔ inv.isWritable k = true ∧ s = t := by
  simp [assertWritable, Exec.rejectIf_ok]

@[simp] theorem assertSystemProgram_ok :
    (assertSystemProgram k).run s = .ok u t ↔ k = systemProgram ∧ s = t := by
  simp [assertSystemProgram, Exec.rejectIf_ok]

@[simp] theorem assertTokenProgram_ok :
    (assertTokenProgram rt k).run s = .ok u t ↔ k = rt.tokenProgram ∧ s = t := by
  simp [assertTokenProgram, Exec.rejectIf_ok]

@[simp] theorem assertOwned_ok {keys : List Pubkey} :
    (assertOwned rt keys).run s = .ok u t ↔ (∀ k ∈ keys, s.owner k = rt.programId) ∧ s = t := by
  simp only [assertOwned, Exec.bind_ok, Exec.get_ok, Exec.rejectIf_ok]
  constructor
  · rintro ⟨_, _, ⟨rfl, rfl⟩, owned, rfl⟩
    exact ⟨by simpa using owned, rfl⟩
  · rintro ⟨owned, rfl⟩
    exact ⟨s, s, ⟨rfl, rfl⟩, by simpa using owned, rfl⟩

@[simp] theorem assertTokenOwned_ok :
    (assertTokenOwned rt k).run s = .ok u t ↔ s.owner k = rt.tokenProgram ∧ s = t := by
  simp only [assertTokenOwned, Exec.bind_ok, Exec.get_ok, Exec.rejectIf_ok, not_not]
  constructor
  · rintro ⟨_, _, ⟨rfl, rfl⟩, owned, rfl⟩
    exact ⟨owned, rfl⟩
  · rintro ⟨owned, rfl⟩
    exact ⟨s, s, ⟨rfl, rfl⟩, owned, rfl⟩

@[simp] theorem assertPda_ok {seeds : Seeds} {b : ℕ} :
    (assertPda rt seeds k).run s = .ok b t ↔ rt.address seeds = k ∧ rt.bump seeds = b ∧ s = t := by
  simp only [assertPda, Exec.bind_ok, Exec.rejectIf_ok, Exec.pure_ok, not_not]
  constructor
  · rintro ⟨_, _, ⟨same, rfl⟩, rfl, rfl⟩
    exact ⟨same, rfl, rfl⟩
  · rintro ⟨same, rfl, rfl⟩
    exact ⟨(), s, ⟨same, rfl⟩, rfl, rfl⟩

@[simp] theorem assertEmpty_ok : (assertEmpty k).run s = .ok u t ↔ (s.data k).length = 0 ∧ s = t := by
  simp only [assertEmpty, Exec.bind_ok, Exec.get_ok, Exec.rejectIf_ok, not_not]
  constructor
  · rintro ⟨_, _, ⟨rfl, rfl⟩, empty, rfl⟩
    exact ⟨empty, rfl⟩
  · rintro ⟨empty, rfl⟩
    exact ⟨s, s, ⟨rfl, rfl⟩, empty, rfl⟩

@[simp] theorem load_ok {α : Type} {view : AccountData → Except ProgramError α} {a : α} :
    (load view k).run s = .ok a t ↔ view (s.data k) = .ok a ∧ s = t := by
  rw [load, Exec.gets_ok]

instance : Exec.Checks (assertSigner rt inv k) fun _ _ => inv.isSigner k = true := ⟨assertSigner_ok⟩

instance : Exec.Checks (assertWritable rt inv k) fun _ _ => inv.isWritable k = true := ⟨assertWritable_ok⟩

instance : Exec.Checks (assertSystemProgram k) fun _ _ => k = systemProgram := ⟨assertSystemProgram_ok⟩

instance : Exec.Checks (assertTokenProgram rt k) fun _ _ => k = rt.tokenProgram := ⟨assertTokenProgram_ok⟩

instance (keys : List Pubkey) : Exec.Checks (assertOwned rt keys) fun s _ => ∀ k ∈ keys, s.owner k = rt.programId :=
  ⟨assertOwned_ok⟩

instance : Exec.Checks (assertTokenOwned rt k) fun s _ => s.owner k = rt.tokenProgram := ⟨assertTokenOwned_ok⟩

instance (seeds : Seeds) : Exec.Checks (assertPda rt seeds k) fun _ b => rt.address seeds = k ∧ rt.bump seeds = b where
  run_eq_ok := by
    intro s t b
    rw [assertPda_ok, and_assoc]

instance : Exec.Checks (assertEmpty k) fun s _ => (s.data k).length = 0 := ⟨assertEmpty_ok⟩

instance {α : Type} (view : AccountData → Except ProgramError α) :
    Exec.Checks (load view k) fun s a => view (s.data k) = .ok a := ⟨load_ok⟩

instance : Exec.Checks (loadMint rt k) fun s m => MINT_LEN ≤ (s.data k).length ∧ rt.unpackMint (s.data k) = .ok m where
  run_eq_ok := by
    intro s t m
    simp only [loadMint, Exec.bind_check, load_ok, exists_eq_left', exists_const, not_lt, and_assoc]

/-- A write is not refused when it leaves the account as it was or the account is the program's. -/
theorem allowed_of_not_refuses {d : AccountData} (allowed : ¬ Refuses rt inv s k d) :
    d = s.data k ∨ s.owner k = rt.programId := by
  rw [Refuses, not_and_or, not_not, not_or, not_not] at allowed
  exact allowed.imp_right And.right

theorem writeData_ok {d : AccountData} (wrote : (writeData rt inv k d).run s = .ok u t) :
    t = s.setData k d ∧ (d = s.data k ∨ s.owner k = rt.programId) := by
  simp only [writeData, Exec.bind_check, Exec.put_ok, exists_eq_left', exists_const] at wrote
  obtain ⟨allowed, rfl⟩ := wrote
  exact ⟨rfl, allowed_of_not_refuses allowed⟩

theorem run_atAccount {α τ : Type} {view : AccountData → Except ProgramError τ} {data : τ → AccountData}
    {m : Exec ProgramError τ α} {a : α} {x y : τ} (writable : inv.isWritable k = true)
    (owned : s.owner k = rt.programId) (found : view (s.data k) = .ok x) (ran : m.run x = .ok a y) :
    (atAccount rt inv view data k m).run s = .ok a (s.setData k (data y)) := by
  have allowed : ¬ Refuses rt inv s k (data y) := by
    simp [Refuses, writable, owned]
  simp only [atAccount, Exec.run] at *
  simp only [found, ran, if_neg allowed]

/-- What was left in the account is what it held, or the account is the program's. -/
theorem atAccount_ok {α τ : Type} {view : AccountData → Except ProgramError τ} {data : τ → AccountData}
    {m : Exec ProgramError τ α} {a : α} (ran : (atAccount rt inv view data k m).run s = .ok a t) :
    ∃ x y, view (s.data k) = .ok x ∧ m.run x = .ok a y ∧ t = s.setData k (data y) ∧
      (data y = s.data k ∨ s.owner k = rt.programId) := by
  simp only [atAccount, Exec.run] at ran
  split at ran
  · cases ran
  next x found =>
    split at ran
    next b y inner =>
      split at ran
      · cases ran
      next allowed =>
        cases ran
        exact ⟨x, y, found, inner, rfl, allowed_of_not_refuses allowed⟩
    next e y inner =>
      split at ran <;> cases ran
    · cases ran

/-- In an account that may be written, only the inner program decides. -/
theorem atAccount_eq_ok {α τ : Type} {view : AccountData → Except ProgramError τ} {data : τ → AccountData}
    {m : Exec ProgramError τ α} {a : α} (writable : inv.isWritable k = true) (owned : s.owner k = rt.programId) :
    (atAccount rt inv view data k m).run s = .ok a t ↔
      ∃ x y, view (s.data k) = .ok x ∧ m.run x = .ok a y ∧ s.setData k (data y) = t := by
  constructor
  · intro ran
    obtain ⟨x, y, found, inner, rfl, -⟩ := atAccount_ok ran
    exact ⟨x, y, found, inner, rfl⟩
  · rintro ⟨x, y, found, inner, rfl⟩
    exact run_atAccount writable owned found inner

theorem updateAccount_ok {τ : Type} {view : AccountData → Except ProgramError τ} {data : τ → AccountData}
    {f : τ → τ} (ran : (updateAccount rt inv view data k f).run s = .ok u t) :
    ∃ x, view (s.data k) = .ok x ∧ t = s.setData k (data (f x)) := by
  obtain ⟨x, y, found, inner, rfl, -⟩ := atAccount_ok ran
  rw [Exec.modify_ok] at inner
  exact ⟨x, found, by rw [inner]⟩

theorem atMargin_ok {m : MarginM Unit} (ran : (atMargin rt inv k m).run s = .ok u t) :
    ∃ x y, s.data k = .marginAccount x ∧ m.run x = .ok () y ∧ t = s.setData k (.marginAccount y) := by
  obtain ⟨x, y, found, inner, rfl, -⟩ := atAccount_ok ran
  exact ⟨x, y, AccountData.loadMargin_ok.mp found, inner, rfl⟩

theorem atBook_ok {α : Type} {m : BookM α} {a : α} (ran : (atBook rt inv k m).run s = .ok a t) :
    ∃ x y, s.data k = .intentBook x ∧ m.run x = .ok a y ∧ t = s.setData k (.intentBook y) := by
  obtain ⟨x, y, found, inner, rfl, -⟩ := atAccount_ok ran
  exact ⟨x, y, AccountData.loadBook_ok.mp found, inner, rfl⟩

theorem initAccount_ok {fresh : AccountData} (ran : (initAccount rt inv k fresh).run s = .ok u t) :
    s.data k = .raw fresh.length ∧ t = s.setData k fresh ∧ (fresh = s.data k ∨ s.owner k = rt.programId) := by
  simp only [initAccount, Exec.bind_check, exists_eq_left', exists_const] at ran
  obtain ⟨zeros, wrote⟩ := ran
  exact ⟨AccountData.checkFresh_ok.mp zeros, writeData_ok wrote⟩

theorem invoke_ok {call : Ledger → Option Ledger} : (invoke call).run s = .ok u t ↔ call s = some t := by
  simp only [invoke, Exec.run]
  split <;> simp_all

theorem createAccount_ok {payer target owner : Pubkey} {space : ℕ}
    (ran : (createAccount rt inv payer target space owner).run s = .ok u t) :
    s.get target = default ∧ t = s.set target ⟨owner, .raw space⟩ := by
  simp only [createAccount, Exec.bind_ok, Exec.get_ok, Exec.abortIf_ok, Exec.put_ok, not_or, not_not] at ran
  obtain ⟨_, _, ⟨rfl, rfl⟩, _, _, ⟨⟨_, _, _, _, _, _, vacant⟩, rfl⟩, rfl⟩ := ran
  exact ⟨vacant, rfl⟩

/-- A created account was vacant and holds its first data. -/
theorem createAndInit_ok {payer target : Pubkey} {fresh : AccountData}
    (ran : (createAndInit rt inv payer target fresh).run s = .ok u t) :
    s.get target = default ∧ t = s.set target ⟨rt.programId, fresh⟩ := by
  simp only [createAndInit, Exec.bind_ok] at ran
  obtain ⟨_, mid, created, inited⟩ := ran
  obtain ⟨vacant, rfl⟩ := createAccount_ok created
  obtain ⟨-, rfl, -⟩ := initAccount_ok inited
  refine ⟨vacant, ?_⟩
  rw [Ledger.setData, Ledger.owner, Store.get_set_self]
  exact AList.insert_insert s

end Success

end Polyleverage
