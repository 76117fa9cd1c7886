import Polyleverage.Guarantees.Ranges
import Polyleverage.Ranges.Pod

/-! # The bytes of every account

The program works on bytes: it checks a length, then the first byte, and takes the rest for fields. Whatever
it was called with, the bytes of its accounts show every loader what the accounts hold, and nothing else has
these bytes.
-/

namespace Polyleverage

open Codec

variable {τ : Type} {rt : Runtime} {s : Ledger} {d d' : AccountData} {bytes : List UInt8}

/-- Every loader finds in the bytes what it finds in the data, or fails alike. -/
structure LoadsAlike (d : AccountData) (bytes : List UInt8) : Prop where
  programConfig : ProgramConfig.pod.load bytes = d.loadProgramConfig.map some
  margin : MarginAccount.pod.load bytes = d.loadMargin.map some
  instrument : InstrumentConfig.pod.load bytes = d.loadInstrument.map some
  book : IntentBook.loadBytes bytes = d.loadBook.map some
  pmlc : Pmlc.pod.load bytes = d.loadPmlc.map some
  marketNonce : MarketNonceAccount.pod.load bytes = d.loadMarketNonce.map some
  feeSchedule : FeeSchedule.pod.load bytes = d.loadFeeSchedule.map some
  userVolume : UserVolume.pod.load bytes = d.loadUserVolume.map some
  feeTreasury : FeeTreasury.pod.load bytes = d.loadFeeTreasury.map some
  timelock : TimelockProposal.pod.load bytes = d.loadTimelock.map some
  adminMultisig : AdminMultisig.pod.load bytes = d.loadAdminMultisig.map some
  bucketRegistry : BucketRegistry.pod.load bytes = d.loadBucketRegistry.map some
  stablecoinRegistry : StablecoinRegistry.pod.load bytes = d.loadStablecoinRegistry.map some
  session : Session.pod.load bytes = d.loadSession.map some

/-! ### First bytes -/

/-- The first byte of an account of this kind, if it is not empty. -/
def AccountKind.tag : AccountKind → Option UInt8
  | raw => some 0
  | programConfig => some 1
  | marginAccount => some 2
  | instrumentConfig => some 3
  | intentBook => some 4
  | pmlc => some 5
  | marketNonce => some 8
  | feeSchedule => some 10
  | userVolume => some 11
  | feeTreasury => some 12
  | timelock => some 13
  | adminMultisig => some 14
  | bucketRegistry => some 15
  | stablecoinRegistry => some 16
  | session => some 17
  | token | mint => none

/-- No two kinds of accounts begin with the same byte. -/
theorem AccountKind.tag_injective {kind kind' : AccountKind} {b : UInt8} (first : kind.tag = some b)
    (second : kind'.tag = some b) : kind = kind' := by
  rw [← second] at first
  revert first second
  cases kind <;> cases kind' <;> simp [tag]

theorem AccountData.tag_of_image (shown : d.image = some bytes) {b : UInt8} (first : bytes.head? = some b) :
    d.kind.tag = some b := by
  cases d with
  | token _ | mint _ => cases shown
  | raw n =>
    cases shown
    cases n with
    | zero => cases first
    | succ n => exact first
  | _ =>
    cases shown
    exact first

/-! ### Records -/

/-- A layout and the loader that reads it. -/
class LaidOut (p : Pod τ) (view : outParam (AccountData → Except ProgramError τ))
    (data : outParam (τ → AccountData)) (kind : outParam AccountKind) : Prop where
  image : ∀ a, (data a).image = some (p.image a)
  valid : ∀ a, (data a).InRange → p.fields.Valid a
  length : ∀ a, (data a).length = p.size
  tag : kind.tag = some p.discriminator
  missing : ∀ d, d.kind ≠ kind →
    view d = .error (if d.length = p.size then p.missing else PolyleverageError.accountDataTooSmall)
  of_kind : ∀ d, d.kind = kind → ∃ a, d = data a

instance : LaidOut ProgramConfig.pod AccountData.loadProgramConfig .programConfig .programConfig where
  image _ := rfl
  valid _ fits := ProgramConfig.InRange.valid fits
  length _ := rfl
  tag := rfl
  missing d other := by cases d <;> first | rfl | exact absurd rfl other
  of_kind d same := by cases d <;> first | exact ⟨_, rfl⟩ | cases same

instance : LaidOut MarginAccount.pod AccountData.loadMargin .marginAccount .marginAccount where
  image _ := rfl
  valid _ fits := MarginAccount.InRange.valid fits
  length _ := rfl
  tag := rfl
  missing d other := by cases d <;> first | rfl | exact absurd rfl other
  of_kind d same := by cases d <;> first | exact ⟨_, rfl⟩ | cases same

instance : LaidOut InstrumentConfig.pod AccountData.loadInstrument .instrumentConfig .instrumentConfig where
  image _ := rfl
  valid _ fits := InstrumentConfig.InRange.valid fits
  length _ := rfl
  tag := rfl
  missing d other := by cases d <;> first | rfl | exact absurd rfl other
  of_kind d same := by cases d <;> first | exact ⟨_, rfl⟩ | cases same

instance : LaidOut Pmlc.pod AccountData.loadPmlc .pmlc .pmlc where
  image _ := rfl
  valid _ fits := Pmlc.InRange.valid fits
  length _ := rfl
  tag := rfl
  missing d other := by cases d <;> first | rfl | exact absurd rfl other
  of_kind d same := by cases d <;> first | exact ⟨_, rfl⟩ | cases same

instance : LaidOut MarketNonceAccount.pod AccountData.loadMarketNonce .marketNonce .marketNonce where
  image _ := rfl
  valid _ fits := MarketNonceAccount.InRange.valid fits
  length _ := rfl
  tag := rfl
  missing d other := by cases d <;> first | rfl | exact absurd rfl other
  of_kind d same := by cases d <;> first | exact ⟨_, rfl⟩ | cases same

instance : LaidOut FeeSchedule.pod AccountData.loadFeeSchedule .feeSchedule .feeSchedule where
  image _ := rfl
  valid _ fits := FeeSchedule.InRange.valid fits
  length _ := rfl
  tag := rfl
  missing d other := by cases d <;> first | rfl | exact absurd rfl other
  of_kind d same := by cases d <;> first | exact ⟨_, rfl⟩ | cases same

instance : LaidOut UserVolume.pod AccountData.loadUserVolume .userVolume .userVolume where
  image _ := rfl
  valid _ fits := UserVolume.InRange.valid fits
  length _ := rfl
  tag := rfl
  missing d other := by cases d <;> first | rfl | exact absurd rfl other
  of_kind d same := by cases d <;> first | exact ⟨_, rfl⟩ | cases same

instance : LaidOut FeeTreasury.pod AccountData.loadFeeTreasury .feeTreasury .feeTreasury where
  image _ := rfl
  valid _ fits := FeeTreasury.InRange.valid fits
  length _ := rfl
  tag := rfl
  missing d other := by cases d <;> first | rfl | exact absurd rfl other
  of_kind d same := by cases d <;> first | exact ⟨_, rfl⟩ | cases same

instance : LaidOut TimelockProposal.pod AccountData.loadTimelock .timelock .timelock where
  image _ := rfl
  valid _ fits := TimelockProposal.InRange.valid fits
  length _ := rfl
  tag := rfl
  missing d other := by cases d <;> first | rfl | exact absurd rfl other
  of_kind d same := by cases d <;> first | exact ⟨_, rfl⟩ | cases same

instance : LaidOut AdminMultisig.pod AccountData.loadAdminMultisig .adminMultisig .adminMultisig where
  image _ := rfl
  valid _ fits := AdminMultisig.InRange.valid fits
  length _ := rfl
  tag := rfl
  missing d other := by cases d <;> first | rfl | exact absurd rfl other
  of_kind d same := by cases d <;> first | exact ⟨_, rfl⟩ | cases same

instance : LaidOut BucketRegistry.pod AccountData.loadBucketRegistry .bucketRegistry .bucketRegistry where
  image _ := rfl
  valid _ fits := BucketRegistry.InRange.valid fits
  length _ := rfl
  tag := rfl
  missing d other := by cases d <;> first | rfl | exact absurd rfl other
  of_kind d same := by cases d <;> first | exact ⟨_, rfl⟩ | cases same

instance :
    LaidOut StablecoinRegistry.pod AccountData.loadStablecoinRegistry .stablecoinRegistry .stablecoinRegistry where
  image _ := rfl
  valid _ fits := StablecoinRegistry.InRange.valid fits
  length _ := rfl
  tag := rfl
  missing d other := by cases d <;> first | rfl | exact absurd rfl other
  of_kind d same := by cases d <;> first | exact ⟨_, rfl⟩ | cases same

instance : LaidOut Session.pod AccountData.loadSession .session .session where
  image _ := rfl
  valid _ fits := Session.InRange.valid fits
  length _ := rfl
  tag := rfl
  missing d other := by cases d <;> first | rfl | exact absurd rfl other
  of_kind d same := by cases d <;> first | exact ⟨_, rfl⟩ | cases same

section Records

variable {p : Pod τ} {view : AccountData → Except ProgramError τ} {data : τ → AccountData} {kind : AccountKind}
  [laidOut : LaidOut p view data kind]

include laidOut in
theorem LaidOut.length_image {a : τ} (fits : (data a).InRange) : (p.image a).length = (data a).length := by
  rw [Pod.image, List.length_cons, p.sized a (laidOut.valid a fits), laidOut.length a]

theorem Pod.load_image (p : Pod τ) {a : τ} (valid : p.fields.Valid a) : p.load (p.image a) = .ok (some a) := by
  have length : (p.image a).length = p.size := by rw [image, List.length_cons, p.sized a valid]
  have first : (p.image a).head? = some p.discriminator := rfl
  unfold load
  rw [if_neg (not_not_intro length), if_neg (not_not_intro first)]
  exact congrArg Except.ok (p.fields.decode_serialize valid)

/-- Other bytes fail as the length says. -/
theorem Pod.load_other (p : Pod τ) (other : bytes.head? ≠ some p.discriminator) :
    p.load bytes = .error (if bytes.length = p.size then p.missing else PolyleverageError.accountDataTooSmall) := by
  unfold load
  by_cases length : bytes.length = p.size
  · rw [if_neg (not_not_intro length), if_pos other, if_pos length]
  · rw [if_pos length, if_neg length]

include laidOut in
theorem LaidOut.load_eq [views : Views view data kind] (fits : d.InRange) (shown : d.image = some bytes)
    (length : bytes.length = d.length) : p.load bytes = (view d).map some := by
  by_cases own : d.kind = kind
  · obtain ⟨a, rfl⟩ := laidOut.of_kind d own
    rw [laidOut.image a] at shown
    cases shown
    rw [views.eq_data.mpr rfl, p.load_image (laidOut.valid a fits)]
    rfl
  · have other : bytes.head? ≠ some p.discriminator := by
      intro first
      exact own (AccountKind.tag_injective (AccountData.tag_of_image shown first) laidOut.tag)
    rw [p.load_other other, laidOut.missing d own, length]
    rfl

end Records

/-! ### Books -/

namespace IntentBook

theorem length_image {b : IntentBook} (fits : b.InRange) : b.image.length = byteSize b.nodes.length := by
  have sized : Sized (fields b.nodes.length) (119 + b.nodes.length * NODE_SIZE) := inferInstance
  rw [image, List.length_cons, sized.length b fits.valid, byteSize, INTENT_BOOK_HEADER_LEN]
  omega

theorem loadBytes_image {b : IntentBook} (fits : b.InRange) : loadBytes b.image = .ok (some b) := by
  have slots : b.image.length - INTENT_BOOK_HEADER_LEN = b.nodes.length * NODE_SIZE := by
    rw [length_image fits, byteSize]
    omega
  have room : ¬ b.image.length < INTENT_BOOK_HEADER_LEN := by
    rw [length_image fits, byteSize]
    omega
  have first : b.image.head? = some discriminator := rfl
  have positive : 0 < NODE_SIZE := by decide
  unfold loadBytes
  rw [if_neg room, if_neg (not_not_intro first), slots, if_neg (not_not_intro (Nat.mul_mod_left _ _)),
    Nat.mul_div_cancel _ positive]
  exact congrArg Except.ok ((fields _).decode_serialize fits.valid)

theorem loadBytes_eq (fits : d.InRange) (shown : d.image = some bytes) (length : bytes.length = d.length) :
    loadBytes bytes = d.loadBook.map some := by
  have other (different : d.kind ≠ .intentBook) : loadBytes bytes =
      .error (if d.length < INTENT_BOOK_HEADER_LEN then PolyleverageError.accountDataTooSmall
        else PolyleverageError.notInitialized) := by
    have first : bytes.head? ≠ some discriminator := by
      intro first
      exact different (AccountKind.tag_injective (AccountData.tag_of_image shown first) rfl)
    unfold loadBytes
    rw [length, if_pos first]
    split <;> rfl
  cases d with
  | intentBook b =>
    cases shown
    exact loadBytes_image fits
  | _ => exact other (by simp)

end IntentBook

/-! ### Accounts -/

theorem AccountData.length_image (fits : d.InRange) (shown : d.image = some bytes) : bytes.length = d.length := by
  cases d with
  | token _ | mint _ => cases shown
  | raw n =>
    cases shown
    exact List.length_replicate
  | intentBook b =>
    cases shown
    exact IntentBook.length_image fits
  | _ =>
    cases shown
    exact LaidOut.length_image fits

theorem loadsAlike_of_image (fits : d.InRange) (shown : d.image = some bytes) : LoadsAlike d bytes := by
  have length := AccountData.length_image fits shown
  constructor
  case book => exact IntentBook.loadBytes_eq fits shown length
  all_goals exact LaidOut.load_eq fits shown length

/-- Data that is found by a loader is the only data that shows the loader the same. -/
theorem Views.eq_of_alike {view : AccountData → Except ProgramError τ} {data : τ → AccountData}
    {kind : AccountKind} [views : Views view data kind] {a : τ} (same : (view d').map some = (view (data a)).map some) :
    d' = data a := by
  rw [views.eq_data.mpr rfl] at same
  cases found : view d' with
  | error e =>
    rw [found] at same
    cases same
  | ok a' =>
    rw [found] at same
    cases same
    exact views.eq_data.mp found

/-- Data of the program is read off the bytes. -/
theorem AccountData.eq_of_image_of_kind (fits : d.InRange) (fits' : d'.InRange) (shown : d.image = some bytes)
    (shown' : d'.image = some bytes) (written : d.kind ≠ .raw) : d' = d := by
  have alike := loadsAlike_of_image fits shown
  have alike' := loadsAlike_of_image fits' shown'
  cases d with
  | raw _ => exact absurd rfl written
  | token _ | mint _ => cases shown
  | programConfig _ => exact Views.eq_of_alike (alike'.programConfig.symm.trans alike.programConfig)
  | marginAccount _ => exact Views.eq_of_alike (alike'.margin.symm.trans alike.margin)
  | instrumentConfig _ => exact Views.eq_of_alike (alike'.instrument.symm.trans alike.instrument)
  | intentBook _ => exact Views.eq_of_alike (alike'.book.symm.trans alike.book)
  | pmlc _ => exact Views.eq_of_alike (alike'.pmlc.symm.trans alike.pmlc)
  | marketNonce _ => exact Views.eq_of_alike (alike'.marketNonce.symm.trans alike.marketNonce)
  | feeSchedule _ => exact Views.eq_of_alike (alike'.feeSchedule.symm.trans alike.feeSchedule)
  | userVolume _ => exact Views.eq_of_alike (alike'.userVolume.symm.trans alike.userVolume)
  | feeTreasury _ => exact Views.eq_of_alike (alike'.feeTreasury.symm.trans alike.feeTreasury)
  | timelock _ => exact Views.eq_of_alike (alike'.timelock.symm.trans alike.timelock)
  | adminMultisig _ => exact Views.eq_of_alike (alike'.adminMultisig.symm.trans alike.adminMultisig)
  | bucketRegistry _ => exact Views.eq_of_alike (alike'.bucketRegistry.symm.trans alike.bucketRegistry)
  | stablecoinRegistry _ => exact Views.eq_of_alike (alike'.stablecoinRegistry.symm.trans alike.stablecoinRegistry)
  | session _ => exact Views.eq_of_alike (alike'.session.symm.trans alike.session)

theorem AccountData.image_injective (fits : d.InRange) (fits' : d'.InRange) (shown : d.image = some bytes)
    (shown' : d'.image = some bytes) : d' = d := by
  by_cases written : d.kind = .raw
  · by_cases written' : d'.kind = .raw
    · have length := (length_image fits' shown').symm.trans (length_image fits shown)
      cases d <;> cases written
      cases d' <;> cases written'
      exact congrArg raw length
    · exact (eq_of_image_of_kind fits' fits shown' shown written').symm
  · exact eq_of_image_of_kind fits fits' shown shown' written

/-- Whatever the program was called with, the bytes of an account have its length, show every loader what the
account holds, and belong to nothing else. -/
theorem image_runEntryCalls (bumps : rt.BumpsFit) {calls : List (EntryCall rt)} (fits : ∀ c ∈ calls, c.inv.InRange)
    (start : s.InRange) {k : Pubkey} (shown : ((runEntryCalls calls s).data k).image = some bytes) :
    bytes.length = ((runEntryCalls calls s).data k).length ∧ LoadsAlike ((runEntryCalls calls s).data k) bytes ∧
      ∀ d, d.InRange → d.image = some bytes → d = (runEntryCalls calls s).data k := by
  have held : ((runEntryCalls calls s).data k).InRange :=
    runEntryCalls_induct (fun c member _ inRange => EntryCall.inRange_execute bumps (fits c member) inRange) start k
  refine ⟨AccountData.length_image held shown, loadsAlike_of_image held shown, ?_⟩
  intro d inRange same
  exact AccountData.image_injective held inRange shown same

/-- The margin account of a trader who posted an intent: 144 bytes, from which its loader takes the reserve. -/
theorem image_sending : ∃ bytes m,
    ((runEntryCalls Sample.sending Sample.genesis).data (Sample.marginOf Sample.alice)).image = some bytes ∧
      bytes.length = 144 ∧ MarginAccount.pod.load bytes = .ok (some m) ∧ m.reservedCollateral = 3000 := by
  have bumps : Runtime.sample.BumpsFit := fun _ => (by decide : 255 < 2 ^ 8)
  have fits : ∀ c ∈ Sample.sending, c.inv.InRange := by decide +kernel
  have read :
      ((runEntryCalls Sample.sending Sample.genesis).data (Sample.marginOf Sample.alice)).loadMargin.toOption.map
        (fun m => m.reservedCollateral) = some 3000 := by
    decide +kernel
  have kind : ((runEntryCalls Sample.sending Sample.genesis).data (Sample.marginOf Sample.alice)).kind =
      .marginAccount := by
    decide +kernel
  have laidOut : LaidOut MarginAccount.pod AccountData.loadMargin .marginAccount .marginAccount := inferInstance
  obtain ⟨m, held⟩ := laidOut.of_kind _ kind
  rw [held] at read
  have reserved : m.reservedCollateral = 3000 := Option.some.inj read
  have shown : ((runEntryCalls Sample.sending Sample.genesis).data (Sample.marginOf Sample.alice)).image =
      some (MarginAccount.pod.image m) := by
    rw [held]
    rfl
  obtain ⟨length, alike, -⟩ := @image_runEntryCalls Runtime.sample Sample.genesis (MarginAccount.pod.image m) bumps
    Sample.sending fits Sample.inRange_genesis (Sample.marginOf Sample.alice) shown
  refine ⟨_, m, shown, ?_, ?_, reserved⟩
  · rw [length, held]
    rfl
  · rw [alike.margin, held]
    rfl

end Polyleverage
