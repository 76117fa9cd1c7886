import Polyleverage.Attestation
import Polyleverage.State.Admin
import Polyleverage.State.Fees
import Polyleverage.State.IntentBook
import Polyleverage.State.MarginAccount
import Polyleverage.State.Market
import Polyleverage.Store.Basic

/-! # Accounts

Every account has an owner program and data. The program reads data only through a length and a
discriminator, so data is kept under its discriminator; data without one is all zeros to it. An
account that was never created is empty and belongs to the system program.
-/

namespace Polyleverage

structure TokenAccount where
  mint : Pubkey
  owner : Pubkey
  amount : ℕ
  delegate : Option Pubkey
  deriving DecidableEq, Repr

structure TokenMint where
  mintAuthority : Option Pubkey
  supply : ℕ
  decimals : ℕ
  deriving DecidableEq, Repr

/-- The data of an account, under its discriminator. -/
inductive AccountData where
  | raw (length : ℕ)
  | programConfig (c : ProgramConfig)
  | marginAccount (m : MarginAccount)
  | instrumentConfig (c : InstrumentConfig)
  | intentBook (b : IntentBook)
  | pmlc (p : Pmlc)
  | marketNonce (n : MarketNonceAccount)
  | feeSchedule (s : FeeSchedule)
  | userVolume (v : UserVolume)
  | feeTreasury (t : FeeTreasury)
  | timelock (p : TimelockProposal)
  | adminMultisig (ms : AdminMultisig)
  | bucketRegistry (r : BucketRegistry)
  | stablecoinRegistry (r : StablecoinRegistry)
  | session (s : Session)
  | token (t : TokenAccount)
  | mint (m : TokenMint)
  deriving DecidableEq, Repr

namespace AccountData

def length : AccountData → ℕ
  | raw n => n
  | programConfig _ => 176
  | marginAccount _ => 144
  | instrumentConfig _ => 264
  | intentBook b => IntentBook.byteSize b.nodes.length
  | pmlc _ => 304
  | marketNonce _ => 104
  | feeSchedule _ => 184
  | userVolume _ => 136
  | feeTreasury _ => 88
  | timelock _ => 168
  | adminMultisig _ => 624
  | bucketRegistry _ => 272
  | stablecoinRegistry _ => 624
  | session _ => 440
  | token _ => 165
  | mint _ => 82

/-- Read data of a fixed length: the length is checked before the discriminator. -/
def loadAs {α : Type} (found : Option α) (length : ℕ) (missing : PolyleverageError) (d : AccountData) :
    Except ProgramError α :=
  match found with
  | some a => .ok a
  | none => .error (if d.length = length then missing else PolyleverageError.accountDataTooSmall)

def loadProgramConfig (d : AccountData) : Except ProgramError ProgramConfig :=
  d.loadAs (match d with | programConfig c => some c | _ => none) 176 .invalidProgramConfig

def loadMargin (d : AccountData) : Except ProgramError MarginAccount :=
  d.loadAs (match d with | marginAccount m => some m | _ => none) 144 .notInitialized

def loadInstrument (d : AccountData) : Except ProgramError InstrumentConfig :=
  d.loadAs (match d with | instrumentConfig c => some c | _ => none) 264 .notInitialized

/-- A book has no fixed length; only its header has to fit. -/
def loadBook (d : AccountData) : Except ProgramError IntentBook :=
  match d with
  | intentBook b => .ok b
  | d =>
    .error (if d.length < INTENT_BOOK_HEADER_LEN then PolyleverageError.accountDataTooSmall
      else PolyleverageError.notInitialized)

def loadPmlc (d : AccountData) : Except ProgramError Pmlc :=
  d.loadAs (match d with | pmlc p => some p | _ => none) 304 .notInitialized

def loadMarketNonce (d : AccountData) : Except ProgramError MarketNonceAccount :=
  d.loadAs (match d with | marketNonce n => some n | _ => none) 104 .notInitialized

def loadFeeSchedule (d : AccountData) : Except ProgramError FeeSchedule :=
  d.loadAs (match d with | feeSchedule s => some s | _ => none) 184 .feeScheduleNotInitialized

def loadUserVolume (d : AccountData) : Except ProgramError UserVolume :=
  d.loadAs (match d with | userVolume v => some v | _ => none) 136 .notInitialized

def loadFeeTreasury (d : AccountData) : Except ProgramError FeeTreasury :=
  d.loadAs (match d with | feeTreasury t => some t | _ => none) 88 .notInitialized

def loadTimelock (d : AccountData) : Except ProgramError TimelockProposal :=
  d.loadAs (match d with | timelock p => some p | _ => none) 168 .notInitialized

def loadAdminMultisig (d : AccountData) : Except ProgramError AdminMultisig :=
  d.loadAs (match d with | adminMultisig ms => some ms | _ => none) 624 .notInitialized

def loadBucketRegistry (d : AccountData) : Except ProgramError BucketRegistry :=
  d.loadAs (match d with | bucketRegistry r => some r | _ => none) 272 .notInitialized

def loadStablecoinRegistry (d : AccountData) : Except ProgramError StablecoinRegistry :=
  d.loadAs (match d with | stablecoinRegistry r => some r | _ => none) 624 .notInitialized

def loadSession (d : AccountData) : Except ProgramError Session :=
  d.loadAs (match d with | session s => some s | _ => none) 440 .notInitialized

/-- Zeros of the right length unpack to an account that is not initialized. -/
def unpackToken (d : AccountData) : Except ProgramError TokenAccount :=
  match d with
  | token t => .ok t
  | raw n => if n = 165 then .ok ⟨default, default, 0, none⟩ else .error .invalidAccountData
  | _ => .error .invalidAccountData

/-- Fresh data may be written over zeros of its length only. -/
def checkFresh (old fresh : AccountData) : Except ProgramError Unit :=
  if old.length ≠ fresh.length then .error PolyleverageError.accountDataTooSmall
  else
    match old with
    | raw _ => .ok ()
    | _ => .error PolyleverageError.alreadyInitialized

section Loads

variable {d : AccountData}

@[simp] theorem loadProgramConfig_ok {c : ProgramConfig} : d.loadProgramConfig = .ok c ↔ d = programConfig c := by
  cases d <;> simp [loadProgramConfig, loadAs]

@[simp] theorem loadMargin_ok {m : MarginAccount} : d.loadMargin = .ok m ↔ d = marginAccount m := by
  cases d <;> simp [loadMargin, loadAs]

@[simp] theorem loadInstrument_ok {c : InstrumentConfig} : d.loadInstrument = .ok c ↔ d = instrumentConfig c := by
  cases d <;> simp [loadInstrument, loadAs]

@[simp] theorem loadBook_ok {b : IntentBook} : d.loadBook = .ok b ↔ d = intentBook b := by
  cases d <;> simp [loadBook]

@[simp] theorem loadPmlc_ok {p : Pmlc} : d.loadPmlc = .ok p ↔ d = pmlc p := by
  cases d <;> simp [loadPmlc, loadAs]

@[simp] theorem loadMarketNonce_ok {n : MarketNonceAccount} : d.loadMarketNonce = .ok n ↔ d = marketNonce n := by
  cases d <;> simp [loadMarketNonce, loadAs]

@[simp] theorem loadFeeSchedule_ok {s : FeeSchedule} : d.loadFeeSchedule = .ok s ↔ d = feeSchedule s := by
  cases d <;> simp [loadFeeSchedule, loadAs]

@[simp] theorem loadUserVolume_ok {v : UserVolume} : d.loadUserVolume = .ok v ↔ d = userVolume v := by
  cases d <;> simp [loadUserVolume, loadAs]

@[simp] theorem loadFeeTreasury_ok {t : FeeTreasury} : d.loadFeeTreasury = .ok t ↔ d = feeTreasury t := by
  cases d <;> simp [loadFeeTreasury, loadAs]

@[simp] theorem loadTimelock_ok {p : TimelockProposal} : d.loadTimelock = .ok p ↔ d = timelock p := by
  cases d <;> simp [loadTimelock, loadAs]

@[simp] theorem loadAdminMultisig_ok {ms : AdminMultisig} : d.loadAdminMultisig = .ok ms ↔ d = adminMultisig ms := by
  cases d <;> simp [loadAdminMultisig, loadAs]

@[simp] theorem loadBucketRegistry_ok {r : BucketRegistry} : d.loadBucketRegistry = .ok r ↔ d = bucketRegistry r := by
  cases d <;> simp [loadBucketRegistry, loadAs]

@[simp] theorem loadStablecoinRegistry_ok {r : StablecoinRegistry} :
    d.loadStablecoinRegistry = .ok r ↔ d = stablecoinRegistry r := by
  cases d <;> simp [loadStablecoinRegistry, loadAs]

@[simp] theorem loadSession_ok {s : Session} : d.loadSession = .ok s ↔ d = session s := by
  cases d <;> simp [loadSession, loadAs]

/-- Only zeros are written over. -/
theorem checkFresh_ok {fresh : AccountData} : d.checkFresh fresh = .ok () ↔ d = raw fresh.length := by
  unfold checkFresh
  split
  next differ =>
    constructor
    · intro impossible
      cases impossible
    · rintro rfl
      exact absurd rfl differ
  next same =>
    rw [not_not] at same
    cases d with
    | raw n => exact ⟨fun _ => congrArg raw same, fun _ => rfl⟩
    | _ => simp

end Loads

end AccountData

/-- The system program's address is all zeros. -/
def systemProgram : Pubkey := default

structure Account where
  owner : Pubkey
  data : AccountData
  deriving DecidableEq, Repr

/-- An account that does not exist. -/
instance : Inhabited Account := ⟨⟨systemProgram, .raw 0⟩⟩

@[simp] theorem owner_default : (default : Account).owner = systemProgram := rfl

@[simp] theorem data_default : (default : Account).data = .raw 0 := rfl

abbrev Ledger := Store Pubkey Account

abbrev LedgerM := Exec ProgramError Ledger

namespace Ledger

def owner (s : Ledger) (k : Pubkey) : Pubkey := (s.get k).owner

def data (s : Ledger) (k : Pubkey) : AccountData := (s.get k).data

/-- Write data into an account, which keeps its owner. -/
def setData (s : Ledger) (k : Pubkey) (d : AccountData) : Ledger := s.set k ⟨s.owner k, d⟩

section Writes

variable (s : Ledger) {j k : Pubkey} (d : AccountData)

@[simp] theorem data_setData_self : (s.setData k d).data k = d := by
  simp [setData, data]

theorem data_setData_of_ne (other : j ≠ k) : (s.setData k d).data j = s.data j := by
  simp [setData, data, Store.get_set_of_ne s _ other]

@[simp] theorem owner_setData : (s.setData k d).owner j = s.owner j := by
  by_cases same : j = k
  · subst same
    simp [setData, owner]
  · simp [setData, owner, Store.get_set_of_ne s _ same]

theorem get_setData_of_ne (other : j ≠ k) : (s.setData k d).get j = s.get j :=
  Store.get_set_of_ne s _ other

theorem get_setData_self : (s.setData k d).get k = ⟨s.owner k, d⟩ :=
  Store.get_set_self s k _

theorem setData_setData (d' : AccountData) : (s.setData k d).setData k d' = s.setData k d' := by
  have owned : (s.setData k d).owner k = s.owner k := owner_setData s d
  simp only [setData] at owned ⊢
  rw [owned]
  exact AList.insert_insert s

/-- Data that is written again is not seen in between. -/
theorem setData_between (d' d'' : AccountData) (other : j ≠ k) :
    ((s.setData j d).setData k d').setData j d'' = (s.setData k d').setData j d'' := by
  have owned : ((s.setData j d).setData k d').owner j = (s.setData k d').owner j := by
    rw [owner_setData, owner_setData, owner_setData]
  have owned' : (s.setData j d).owner k = s.owner k := owner_setData s d
  simp only [setData] at owned owned' ⊢
  rw [owned, owned', Store.set_between _ _ _ _ other]

end Writes

end Ledger

end Polyleverage
