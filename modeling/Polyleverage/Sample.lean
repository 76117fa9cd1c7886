import Mathlib.Data.Nat.Pairing
import Polyleverage.Program

/-! # A runtime that behaves as documented

The token program is known by what it is documented to do. This one does exactly that: it keeps its
accounts and mints in the ledger, and derived addresses are the odd numbers, so that wallets and token
accounts find room at the even ones.
-/

namespace Polyleverage

/-! ### Addresses -/

/-- A number under a label. Addresses stay short, so that an attestation can name a position. -/
def label (a b : ℕ) : ℕ := 2 ^ a * (2 * b + 1)

theorem label_inj {a b c d : ℕ} : label a b = label c d ↔ a = c ∧ b = d := by
  constructor
  · intro same
    unfold label at same
    induction a generalizing c with
    | zero =>
      cases c with
      | zero => omega
      | succ c =>
        rw [pow_succ, mul_comm (2 ^ c), mul_assoc] at same
        omega
    | succ a ih =>
      cases c with
      | zero =>
        rw [pow_succ, mul_comm (2 ^ a), mul_assoc] at same
        omega
      | succ c =>
        rw [pow_succ, pow_succ, mul_comm (2 ^ a), mul_comm (2 ^ c), mul_assoc, mul_assoc] at same
        have halved := ih (Nat.eq_of_mul_eq_mul_left Nat.two_pos same)
        omega
  · rintro ⟨rfl, rfl⟩
    rfl

/-- The number of some seeds. -/
def Seeds.code : Seeds → ℕ
  | .config => label 0 0
  | .margin owner mint => label 1 (Nat.pair owner.value mint.value)
  | .vault mint => label 2 mint.value
  | .instrument source marketId leverageBps collateralBucket twapWindowSlots =>
    label 3 (Nat.pair (Nat.pair source marketId)
      (Nat.pair leverageBps (Nat.pair collateralBucket twapWindowSlots)))
  | .book key => label 4 key.value
  | .pmlc key id => label 5 (label id key.value)
  | .feeSchedule => label 6 0
  | .userVolume owner mint => label 7 (Nat.pair owner.value mint.value)
  | .treasury mint => label 8 mint.value
  | .marketNonce marketId => label 9 marketId
  | .timelock proposalId => label 10 proposalId
  | .adminMultisig => label 11 0
  | .bucketRegistry => label 12 0
  | .stablecoinRegistry => label 13 0
  | .wusdMint => label 14 0
  | .wusdAuthority => label 15 0
  | .session owner => label 16 owner.value

theorem Pubkey.value_inj {a b : Pubkey} : a.value = b.value ↔ a = b := by
  constructor
  · intro same
    exact congrArg Pubkey.mk same
  · rintro rfl
    rfl

theorem Seeds.code_injective (a b : Seeds) (same : a.code = b.code) : a = b := by
  cases a <;> cases b <;> simp_all [Seeds.code, label_inj, Nat.pair_eq_pair, Pubkey.value_inj]

/-- The address of some seeds, with its bump. -/
def sampleAddress (seeds : Seeds) : Pubkey × ℕ := (⟨2 * seeds.code + 1⟩, 255)

/-! ### The token program -/

section Token

variable (tokenProgram : Pubkey)

def tokenAt (s : Ledger) (k : Pubkey) : Option TokenAccount :=
  match s.get k with
  | ⟨o, .token a⟩ => if o = tokenProgram then some a else none
  | _ => none

def mintAt (s : Ledger) (k : Pubkey) : Option TokenMint :=
  match s.get k with
  | ⟨o, .mint m⟩ => if o = tokenProgram then some m else none
  | _ => none

/-- The holder or the delegate of a token account. -/
def TokenAccount.mayMove (a : TokenAccount) (authority : Pubkey) : Bool :=
  authority = a.owner ∨ a.delegate = some authority

def sampleTransfer (s : Ledger) (source destination authority : Pubkey) (amount : ℕ) : Option Ledger :=
  match tokenAt tokenProgram s source, tokenAt tokenProgram s destination with
  | some a, some b =>
    if a.mint = b.mint ∧ a.mayMove authority ∧ amount ≤ a.amount then
      if source = destination then some s
      else some ((s.setData source (.token { a with amount := a.amount - amount })).setData destination
        (.token { b with amount := b.amount + amount }))
    else none
  | _, _ => none

def sampleMintTo (s : Ledger) (mint destination authority : Pubkey) (amount : ℕ) : Option Ledger :=
  match mintAt tokenProgram s mint, tokenAt tokenProgram s destination with
  | some m, some a =>
    if a.mint = mint ∧ m.mintAuthority = some authority then
      some ((s.setData mint (.mint { m with supply := m.supply + amount })).setData destination
        (.token { a with amount := a.amount + amount }))
    else none
  | _, _ => none

def sampleIncinerator : Pubkey := ⟨22⟩

def sampleBurn (s : Ledger) (source mint authority : Pubkey) (amount : ℕ) : Option Ledger :=
  match mintAt tokenProgram s mint, tokenAt tokenProgram s source with
  | some m, some a =>
    if a.mint = mint ∧ (a.mayMove authority ∨ a.owner = systemProgram ∨ a.owner = sampleIncinerator) ∧
        amount ≤ a.amount ∧ amount ≤ m.supply then
      some ((s.setData mint (.mint { m with supply := m.supply - amount })).setData source
        (.token { a with amount := a.amount - amount }))
    else none
  | _, _ => none

def sampleInitializeMint (s : Ledger) (mint authority : Pubkey) (decimals : ℕ) : Option Ledger :=
  match s.get mint with
  | ⟨o, .raw _⟩ =>
    if o = tokenProgram then some (s.set mint ⟨tokenProgram, .mint ⟨some authority, 0, decimals⟩⟩) else none
  | _ => none

/-- Zeros hold a mint; a token account begins with its mint's key, which no mint begins with. -/
def sampleUnpackMint : AccountData → Except ProgramError TokenMint
  | .mint m => .ok m
  | .raw _ => .ok ⟨none, 0, 0⟩
  | _ => .error .invalidAccountData

variable {tokenProgram} {s : Ledger} {j k : Pubkey}

theorem tokenAt_eq_some {a : TokenAccount} : tokenAt tokenProgram s k = some a ↔ s.get k = ⟨tokenProgram, .token a⟩ := by
  unfold tokenAt
  split
  next o a' held =>
    rw [held]
    by_cases same : o = tokenProgram
    · simp [same]
    · simp [same]
  next other =>
    simp only [reduceCtorEq, false_iff]
    intro held
    exact other _ _ held

theorem mintAt_eq_some {m : TokenMint} : mintAt tokenProgram s k = some m ↔ s.get k = ⟨tokenProgram, .mint m⟩ := by
  unfold mintAt
  split
  next o m' held =>
    rw [held]
    by_cases same : o = tokenProgram
    · simp [same]
    · simp [same]
  next other =>
    simp only [reduceCtorEq, false_iff]
    intro held
    exact other _ _ held

theorem mayMove_of_tokenAt {a : TokenAccount} {authority : Pubkey} (held : s.get k = ⟨tokenProgram, .token a⟩)
    (may : a.mayMove authority = true) : MayMove s k authority := by
  intro o a' held'
  rw [held] at held'
  cases held'
  simpa [TokenAccount.mayMove] using may

/-- A write keeps the owner of the account. -/
theorem get_setData_of_get {o : Pubkey} {d d' : AccountData} (held : s.get k = ⟨o, d⟩) :
    (s.setData k d').get k = ⟨o, d'⟩ := by
  rw [Ledger.get_setData_self, Ledger.owner, held]

theorem get_setData_of_get_ne {a : Account} {d : AccountData} (other : j ≠ k) (held : s.get j = a) :
    (s.setData k d).get j = a := by
  rw [Ledger.get_setData_of_ne _ _ other, held]

theorem sampleTransfer_moves {t : Ledger} {source destination authority : Pubkey} {amount : ℕ}
    (ran : sampleTransfer tokenProgram s source destination authority amount = some t) :
    MayMove s source authority ∧
      TokenMoved tokenProgram s t source amount (if source = destination then amount else 0) ∧
      TokenMoved tokenProgram s t destination (if source = destination then amount else 0) amount ∧
      (∀ a b, s.data source = .token a → s.data destination = .token b → a.mint = b.mint) ∧
      ∀ k, k ≠ source → k ≠ destination → t.get k = s.get k := by
  unfold sampleTransfer at ran
  split at ran
  next a b paid got =>
    rw [tokenAt_eq_some] at paid got
    split at ran
    next valid =>
      obtain ⟨same_mint, may, enough⟩ := valid
      have mints : ∀ a b, s.data source = .token a → s.data destination = .token b → a.mint = b.mint := by
        intro a' b' held held'
        rw [Ledger.data, paid] at held
        rw [Ledger.data, got] at held'
        cases held
        cases held'
        exact same_mint
      split at ran
      next here =>
        cases ran
        subst here
        rw [if_pos rfl]
        have unmoved : TokenMoved tokenProgram s s source amount amount :=
          ⟨a, a, paid, paid, rfl, rfl, .inl rfl, enough, rfl⟩
        exact ⟨mayMove_of_tokenAt paid may, unmoved, unmoved, mints, fun _ _ _ => rfl⟩
      next apart =>
        cases ran
        rw [if_neg apart]
        refine ⟨mayMove_of_tokenAt paid may, ⟨a, { a with amount := a.amount - amount }, paid, ?_, rfl, rfl, .inl rfl,
          enough, ?_⟩,
          ⟨b, { b with amount := b.amount + amount }, got, ?_, rfl, rfl, .inl rfl, Nat.zero_le _, rfl⟩, mints, fun k other other' => ?_⟩
        · exact get_setData_of_get_ne apart (get_setData_of_get paid)
        · exact Nat.sub_add_cancel enough
        · exact get_setData_of_get (get_setData_of_get_ne (Ne.symm apart) got)
        · rw [Ledger.get_setData_of_ne _ _ other', Ledger.get_setData_of_ne _ _ other]
    · cases ran
  · cases ran

theorem sampleMintTo_moves {t : Ledger} {mint destination authority : Pubkey} {amount : ℕ}
    (ran : sampleMintTo tokenProgram s mint destination authority amount = some t) :
    (∃ m, s.get mint = ⟨tokenProgram, .mint m⟩ ∧ m.mintAuthority = some authority ∧
      t.get mint = ⟨tokenProgram, .mint { m with supply := m.supply + amount }⟩) ∧
      TokenMoved tokenProgram s t destination 0 amount ∧
      (∀ a, s.data destination = .token a → a.mint = mint) ∧
      ∀ k, k ≠ mint → k ≠ destination → t.get k = s.get k := by
  unfold sampleMintTo at ran
  split at ran
  next m a minted got =>
    rw [mintAt_eq_some] at minted
    rw [tokenAt_eq_some] at got
    have apart : mint ≠ destination := by
      rintro rfl
      rw [minted] at got
      cases got
    split at ran
    next valid =>
      obtain ⟨of_mint, may⟩ := valid
      cases ran
      refine ⟨⟨m, minted, may, ?_⟩,
        ⟨a, { a with amount := a.amount + amount }, got, ?_, rfl, rfl, .inl rfl, Nat.zero_le _, rfl⟩, ?_,
        fun k other other' => ?_⟩
      · exact get_setData_of_get_ne apart (get_setData_of_get minted)
      · exact get_setData_of_get (get_setData_of_get_ne (Ne.symm apart) got)
      · intro a' held
        rw [Ledger.data, got] at held
        cases held
        exact of_mint
      · rw [Ledger.get_setData_of_ne _ _ other', Ledger.get_setData_of_ne _ _ other]
    · cases ran
  · cases ran

theorem sampleBurn_moves {t : Ledger} {source mint authority : Pubkey} {amount : ℕ}
    (ran : sampleBurn tokenProgram s source mint authority amount = some t) :
    MayBurn sampleIncinerator s source authority ∧
      (∃ m, s.get mint = ⟨tokenProgram, .mint m⟩ ∧ amount ≤ m.supply ∧
        t.get mint = ⟨tokenProgram, .mint { m with supply := m.supply - amount }⟩) ∧
      TokenMoved tokenProgram s t source amount 0 ∧
      (∀ a, s.data source = .token a → a.mint = mint) ∧
      ∀ k, k ≠ mint → k ≠ source → t.get k = s.get k := by
  unfold sampleBurn at ran
  split at ran
  next m a minted paid =>
    rw [mintAt_eq_some] at minted
    rw [tokenAt_eq_some] at paid
    have apart : mint ≠ source := by
      rintro rfl
      rw [minted] at paid
      cases paid
    split at ran
    next valid =>
      obtain ⟨of_mint, may, enough, supplied⟩ := valid
      cases ran
      refine ⟨may.imp (mayMove_of_tokenAt paid) fun free => ⟨_, a, paid, free⟩, ⟨m, minted, supplied, ?_⟩,
        ⟨a, { a with amount := a.amount - amount }, paid, ?_, rfl, rfl, .inl rfl, enough, Nat.sub_add_cancel enough⟩, ?_,
        fun k other other' => ?_⟩
      · exact get_setData_of_get_ne apart (get_setData_of_get minted)
      · exact get_setData_of_get (get_setData_of_get_ne (Ne.symm apart) paid)
      · intro a' held
        rw [Ledger.data, paid] at held
        cases held
        exact of_mint
      · rw [Ledger.get_setData_of_ne _ _ other', Ledger.get_setData_of_ne _ _ other]
    · cases ran
  · cases ran

theorem sampleInitializeMint_inits {t : Ledger} {mint authority : Pubkey} {decimals : ℕ}
    (ran : sampleInitializeMint tokenProgram s mint authority decimals = some t) :
    (∃ n, s.get mint = ⟨tokenProgram, .raw n⟩) ∧
      t = s.set mint ⟨tokenProgram, .mint ⟨some authority, 0, decimals⟩⟩ := by
  unfold sampleInitializeMint at ran
  split at ran
  next o n held =>
    split at ran
    next owned =>
      cases ran
      subst owned
      exact ⟨⟨n, held⟩, rfl⟩
    · cases ran
  · cases ran

end Token

/-- The program's own keys are the first even numbers. -/
def Runtime.sample : Runtime where
  programId := ⟨2⟩
  tokenProgram := ⟨4⟩
  incinerator := sampleIncinerator
  instructionsSysvar := ⟨6⟩
  ed25519Program := ⟨8⟩
  findProgramAddress := sampleAddress
  getAssociatedTokenAddress holder mint := ⟨2 * (Nat.pair holder.value mint.value + 1)⟩
  transfer := sampleTransfer ⟨4⟩
  mintTo := sampleMintTo ⟨4⟩
  burn := sampleBurn ⟨4⟩
  initializeMint := sampleInitializeMint ⟨4⟩
  unpackMint := sampleUnpackMint
  program_ne_system := by decide
  program_ne_token := by decide
  token_ne_system := by decide
  address_injective a b same := by
    apply Seeds.code_injective
    have values := congrArg Pubkey.value same
    simp only [sampleAddress] at values
    omega
  address_ne_system seeds same := by
    have values := congrArg Pubkey.value same
    change 2 * seeds.code + 1 = 0 at values
    omega
  address_ne_incinerator seeds same := by
    have values := congrArg Pubkey.value same
    change 2 * seeds.code + 1 = 22 at values
    omega
  transfer_moves := sampleTransfer_moves
  mintTo_moves := sampleMintTo_moves
  burn_moves := sampleBurn_moves
  initializeMint_inits := sampleInitializeMint_inits
  unpackMint_mint _ := rfl
  unpackMint_blank := rfl

theorem Runtime.sample_address_odd (seeds : Seeds) : (Runtime.sample.address seeds).value % 2 = 1 := by
  change (2 * seeds.code + 1) % 2 = 1
  omega

/-- Who may draw on an account for its holder. -/
def AccountData.delegate : AccountData → Option Pubkey
  | token a => a.delegate
  | _ => none

/-- A ledger that holds accounts of others at even addresses, and no delegate, is one to start from. -/
theorem genesis_of_even {s : Ledger}
    (all : ∀ k ∈ s.support, k.value % 2 = 0 ∧ s.owner k ≠ Runtime.sample.programId ∧ (s.data k).delegate = none) :
    Genesis Runtime.sample s where
  not_owned k := by
    by_cases member : k ∈ s.support
    · exact (all k member).2.1
    · rw [Ledger.owner, Store.get_of_notMem member]
      exact Runtime.sample.program_ne_system.symm
  vacant seeds := by
    apply Store.get_of_notMem
    intro member
    have even := (all _ member).1
    rw [Runtime.sample_address_odd] at even
    exact absurd even (by decide)
  no_delegate k o a seeds held _ := by
    by_cases member : k ∈ s.support
    · have free := (all k member).2.2
      rw [Ledger.data, held] at free
      exact free
    · rw [Store.get_of_notMem member] at held
      cases held

namespace Sample

/-! ### Calls on this runtime -/

/-- A call by these signers with these accounts. Wallets sign, derived addresses do not. -/
def callAt (slot : UInt64) (unixTimestamp : ℤ) (instructions : List SysvarInstruction) (instruction : Instruction)
    (signers accounts : List Pubkey) : Call Runtime.sample where
  inv :=
    { accounts
      isSigner := fun k => k ∈ signers ∧ k.value % 2 = 0
      isWritable := fun _ => true
      slot := slot.toNat
      unixTimestamp
      instructions
      rentFunded := fun _ => true
      address_not_signer := by
        intro seeds
        simp [Runtime.sample_address_odd]
      slot_lt := slot.toNat_lt }
  instruction

def call (instruction : Instruction) (signers accounts : List Pubkey) : Call Runtime.sample :=
  callAt 1 0 [] instruction signers accounts

def mint : Pubkey := ⟨10⟩

def admin : Pubkey := ⟨12⟩

def alice : Pubkey := ⟨14⟩

def bob : Pubkey := ⟨16⟩

def carol : Pubkey := ⟨18⟩

/-- The attestation signer. -/
def oracle : Pubkey := ⟨20⟩

/-- A wallet's token account. -/
def tokensOf (holder : Pubkey) : Pubkey := Runtime.sample.getAssociatedTokenAddress holder mint

def vault : Pubkey := tokensOf (Runtime.sample.address (.vault mint))

def marginOf (owner : Pubkey) : Pubkey := Runtime.sample.address (.margin owner mint)

def volumeOf (owner : Pubkey) : Pubkey := Runtime.sample.address (.userVolume owner mint)

def config : Pubkey := Runtime.sample.address .config

def feeSchedule : Pubkey := Runtime.sample.address .feeSchedule

def treasury : Pubkey := Runtime.sample.address (.treasury mint)

/-- Three wallets with tokens, and an empty vault. -/
def genesis : Ledger :=
  [(mint, ⟨Runtime.sample.tokenProgram, .mint ⟨none, 3000000, 6⟩⟩), (tokensOf alice, tokens alice 1000000),
    (tokensOf bob, tokens bob 1000000), (tokensOf carol, tokens carol 1000000),
    (vault, tokens (Runtime.sample.address (.vault mint)) 0)].foldl (fun s (k, a) => s.set k a) (∅ : Ledger)
where
  tokens (holder : Pubkey) (amount : ℕ) : Account :=
    ⟨Runtime.sample.tokenProgram, .token ⟨mint, holder, amount, none⟩⟩

theorem genesis_genesis : Genesis Runtime.sample genesis := by
  apply genesis_of_even
  decide +kernel

/-- A margin account with a deposit. -/
def fund (owner : Pubkey) (amount : UInt64) : List (Call Runtime.sample) :=
  [call .createMarginAccount [owner] [owner, marginOf owner, mint, systemProgram],
   call (.deposit amount) [owner]
     [owner, marginOf owner, mint, tokensOf owner, vault, Runtime.sample.tokenProgram]]

/-- The program is set up, with one fee for everybody, and everybody has funds. -/
def launch (feeBps : UInt16) : List (Call Runtime.sample) :=
  call (.initProgramConfig ⟨oracle, 60⟩) [admin] [admin, config, admin, systemProgram] ::
    call (.initFeeSchedule (Vector.replicate 8 ⟨0, feeBps⟩)) [admin] [admin, config, feeSchedule, systemProgram] ::
    (fund alice 100000 ++ fund bob 100000 ++ fund carol 100000)

/-! ### A market -/

/-- The parameters of the sample's instruments. -/
def market (source : UInt8) (collateralBucket : UInt64) (liquidationBountyBps : UInt16) : CreateInstrumentArgs where
  source
  marketId := 77
  sourceTokenIdA := 1
  sourceTokenIdB := 2
  leverageBps := 20000
  collateralBucket
  twapWindowSlots := 10
  tickFp := 1
  liquidationBps := 1000
  liquidationBountyBps
  maxStalenessSecs := 60
  initialBookCapacity := 16
  referenceUsd := if source = 3 then 1 else 0

section Market

variable (args : CreateInstrumentArgs)

def instrument : Pubkey := Runtime.sample.address args.seeds

def book : Pubkey := Runtime.sample.address (.book (instrument args))

def nonce : Pubkey := Runtime.sample.address (.marketNonce args.marketId)

def pmlc (id : UInt64) : Pubkey := Runtime.sample.address (.pmlc (instrument args) id.toNat)

def openMarket : Call Runtime.sample :=
  call (.createInstrument args) [admin]
    [admin, config, instrument args, book args, mint, systemProgram, nonce args]

/-- Post an intent at half the price of one. -/
def post (owner : Pubkey) (side : UInt8) (contracts : UInt16) : Call Runtime.sample :=
  call (.postIntent ⟨side, 500000000000000000, contracts, 100, 0, 0⟩) [owner]
    [owner, config, instrument args, book args, marginOf owner]

/-- Match a long intent with a short one that takes. -/
def fill (long short : Pubkey) (longId shortId pmlcId : UInt64) : Call Runtime.sample :=
  call (.matchPair ⟨longId, shortId, 1⟩) [carol]
    [carol, instrument args, book args, marginOf long, marginOf short, pmlc args pmlcId, systemProgram,
      feeSchedule, volumeOf short, volumeOf long, treasury]

/-- Alice is long and Bob is short in the first position. -/
def trade : List (Call Runtime.sample) :=
  [openMarket args, post args alice 0 1, post args bob 1 1, fill args alice bob 1 2 3]

end Market

/-- The market that most of the sample is about. -/
def poly : CreateInstrumentArgs := market 0 1000 100

/-- The calls after which Alice is long and Bob is short. -/
def trading : List (Call Runtime.sample) := launch 0 ++ trade poly

def traded : Ledger := runCalls Runtime.sample trading genesis

/-- Alice and Bob have posted, Bob this many contracts. -/
def posted (feeBps contracts : UInt16) : Ledger :=
  runCalls Runtime.sample (launch feeBps ++ [openMarket poly, post poly alice 0 1, post poly bob 1 contracts]) genesis

/-- The same market on another platform. -/
def kalshi : CreateInstrumentArgs := market 3 1000 100

/-- Both traders take one more contract each. -/
def again : List (Call Runtime.sample) := [post poly alice 0 1, post poly bob 1 1, fill poly alice bob 4 5 6]

/-- Both markets have a live position. -/
def tradedTwice : Ledger := runCalls Runtime.sample (trading ++ trade kalshi) genesis

theorem reachable {allowed : Instruction → Prop} {calls : List (Call Runtime.sample)}
    (may : ∀ c ∈ calls, allowed c.instruction) : Reachable Runtime.sample allowed (runCalls Runtime.sample calls genesis) :=
  Reachable.runCalls may (.genesis genesis_genesis)

/-! ### A session -/

/-- Alice lets Bob post for her. -/
def openSession : Call Runtime.sample :=
  call (.createSession ⟨bob, 50, 5000, 8000, []⟩) [alice]
    [alice, config, Runtime.sample.address (.session alice), systemProgram]

/-- Bob posts a long intent of one contract for Alice. -/
def postFor (args : CreateInstrumentArgs) : Call Runtime.sample :=
  call (.postIntentDelegated ⟨0, 500000000000000000, 1, 100, 0, 0⟩) [bob, carol]
    [carol, bob, config, instrument args, book args, marginOf alice, Runtime.sample.address (.session alice)]

def delegating : List (Call Runtime.sample) := launch 0 ++ [openMarket poly, openSession, postFor poly, postFor poly]

/-! ### Attestations -/

/-- The bytes of a number, lowest first. -/
def toLeBytes (count value : ℕ) : List UInt8 := (List.range count).map fun i => UInt8.ofNat (value / 256 ^ i)

/-- A message about the sample's market. -/
def message (type : UInt8) (time nonce : ℕ) (payload : List UInt8) : List UInt8 :=
  ATTESTATION_MAGIC ++ [type, 0, 0, 0] ++ (toLeBytes 32 77).reverse ++ toLeBytes 8 time ++ toLeBytes 8 nonce ++ payload ++
    List.replicate (48 - payload.length) 0

/-- The resolution of the market at this outcome. -/
def resolution (nonce outcomeBps : ℕ) : Attestation where
  bytes := message 2 0 nonce (toLeBytes 2 outcomeBps)
  length_eq := by simp [message, toLeBytes, ATTESTATION_MAGIC, ATTESTATION_LEN]
  magic_eq := by simp [message, ATTESTATION_MAGIC]

/-- The verification that the oracle signed a message. -/
def verified (message : List UInt8) : SysvarInstruction where
  programId := Runtime.sample.ed25519Program
  data := [1, 0, 48, 0, 255, 255, 16, 0, 255, 255, 112, 0, 104, 0, 255, 255] ++ (toLeBytes 32 oracle.value).reverse ++
    List.replicate 64 0 ++ message

def outcome (nonce outcomeBps : ℕ) : SysvarInstruction := verified (resolution nonce outcomeBps).bytes

/-- Resolve the position of these two owners with the first instruction of the transaction. -/
def resolve (args : CreateInstrumentArgs) (long short : Pubkey) (pmlcId : UInt64) (attested : SysvarInstruction) :
    Call Runtime.sample :=
  callAt 1 0 [attested] (.resolve 0) [carol]
    [carol, config, Runtime.sample.instructionsSysvar, instrument args, pmlc args pmlcId, nonce args, marginOf long,
      marginOf short]

/-- The breach of a position at this mark. -/
def breach (pmlc : Pubkey) (nonce markFp : ℕ) : Attestation where
  bytes := message 3 0 nonce ((toLeBytes 32 pmlc.value).reverse ++ toLeBytes 8 markFp ++ toLeBytes 8 0)
  length_eq := by simp [message, toLeBytes, ATTESTATION_MAGIC, ATTESTATION_LEN]
  magic_eq := by simp [message, ATTESTATION_MAGIC]

/-- This keeper liquidates the position of these two owners, at this mark. -/
def liquidate (args : CreateInstrumentArgs) (keeper long short : Pubkey) (pmlcId : UInt64) (attestationNonce markFp : ℕ) :
    Call Runtime.sample :=
  callAt 1 0 [verified (breach (pmlc args pmlcId) attestationNonce markFp).bytes] (.liquidate 0) [keeper]
    [keeper, config, Runtime.sample.instructionsSysvar, instrument args, pmlc args pmlcId, nonce args, marginOf long,
      marginOf short, marginOf keeper]

end Sample

/-- A live position of this instrument lies at `k`. -/
def Ledger.isLive (s : Ledger) (k instrument : Pubkey) : Bool :=
  match s.data k with
  | .pmlc p => p.status = PMLC_STATUS_LIVE ∧ p.instrument = instrument
  | _ => false

theorem Ledger.live_of_isLive {s : Ledger} {k instrument : Pubkey} (isLive : s.isLive k instrument = true) :
    ∃ p, s.data k = .pmlc p ∧ p.status = PMLC_STATUS_LIVE ∧ p.instrument = instrument := by
  unfold Ledger.isLive at isLive
  split at isLive
  next p held => exact ⟨p, held, by simpa using isLive⟩
  · cases isLive

end Polyleverage
