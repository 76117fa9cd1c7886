import Mathlib.Data.List.Infix
import Polyleverage.Guarantees.Encodings

/-! # The seeds of derived addresses

An address is derived by hashing its seeds one after the other, with no separators, then a bump, the
program and a fixed marker. The program's seeds begin with a label for the kind of account, and labels
and widths are such that the bytes of two different seeds never run together into the same input.
-/

namespace Polyleverage

open Codec

/-- The bytes of a label. -/
def ascii (text : String) : List UInt8 := text.toList.map fun c => UInt8.ofNat c.toNat

/-- What an account is for. -/
inductive SeedKind where
  | config
  | margin
  | vault
  | instrument
  | book
  | pmlc
  | feeSchedule
  | userVolume
  | treasury
  | marketNonce
  | timelock
  | adminMultisig
  | bucketRegistry
  | stablecoinRegistry
  | wusdMint
  | wusdAuthority
  | session
  deriving DecidableEq, Repr

namespace SeedKind

def label : SeedKind → List UInt8
  | config => ascii "config"
  | margin => ascii "margin"
  | vault => ascii "vault"
  | instrument => ascii "instr"
  | book => ascii "book"
  | pmlc => ascii "pmlc"
  | feeSchedule => ascii "fee_schedule"
  | userVolume => ascii "volume"
  | treasury => ascii "treasury"
  | marketNonce => ascii "nonce"
  | timelock => ascii "timelock"
  | adminMultisig => ascii "admin_multisig"
  | bucketRegistry => ascii "bucket_registry"
  | stablecoinRegistry => ascii "stablecoin_registry"
  | wusdMint => ascii "wusd_mint"
  | wusdAuthority => ascii "wusd_authority"
  | session => ascii "session"

/-- How many bytes follow the label. -/
def width : SeedKind → ℕ
  | margin | userVolume => 64
  | vault | book | treasury | marketNonce | session => 32
  | instrument => 53
  | pmlc => 40
  | timelock => 8
  | _ => 0

def all : List SeedKind :=
  [config, margin, vault, instrument, book, pmlc, feeSchedule, userVolume, treasury, marketNonce, timelock,
    adminMultisig, bucketRegistry, stablecoinRegistry, wusdMint, wusdAuthority, session]

theorem mem_all (kind : SeedKind) : kind ∈ all := by
  cases kind <;> decide

/-- Where two labels could run into each other, the seeds differ in length. -/
theorem eq_of_overlap : ∀ kind ∈ all, ∀ kind' ∈ all,
    kind.label.length + kind.width = kind'.label.length + kind'.width →
    kind.label <+: kind'.label ∨ kind'.label <+: kind.label → kind = kind' := by
  decide +kernel

end SeedKind

namespace Seeds

def kind : Seeds → SeedKind
  | config => .config
  | margin _ _ => .margin
  | vault _ => .vault
  | instrument _ _ _ _ _ => .instrument
  | book _ => .book
  | pmlc _ _ => .pmlc
  | feeSchedule => .feeSchedule
  | userVolume _ _ => .userVolume
  | treasury _ => .treasury
  | marketNonce _ => .marketNonce
  | timelock _ => .timelock
  | adminMultisig => .adminMultisig
  | bucketRegistry => .bucketRegistry
  | stablecoinRegistry => .stablecoinRegistry
  | wusdMint => .wusdMint
  | wusdAuthority => .wusdAuthority
  | session _ => .session

/-- The seeds after the label. -/
def fields : Seeds → List (List UInt8)
  | margin owner mint | userVolume owner mint => [pubkey.serialize owner, pubkey.serialize mint]
  | vault key | book key | treasury key | session key => [pubkey.serialize key]
  | instrument source marketId leverageBps collateralBucket twapWindowSlots =>
    [(word 1).serialize source, bytes32.serialize marketId, (word 4).serialize leverageBps,
      (word 8).serialize collateralBucket, (word 8).serialize twapWindowSlots]
  | pmlc key id => [pubkey.serialize key, (word 8).serialize id]
  | marketNonce marketId => [bytes32.serialize marketId]
  | timelock proposalId => [(word 8).serialize proposalId]
  | _ => []

/-- All seeds, in the order in which they are hashed. -/
def components (seeds : Seeds) : List (List UInt8) := seeds.kind.label :: seeds.fields

/-- The keys and numbers lie in the ranges of their bytes. -/
def InRange : Seeds → Prop
  | margin owner mint | userVolume owner mint => owner.IsBytes ∧ mint.IsBytes
  | vault key | book key | treasury key | session key => key.IsBytes
  | instrument source marketId leverageBps collateralBucket twapWindowSlots =>
    source < 256 ^ 1 ∧ marketId < 2 ^ 256 ∧ leverageBps < 256 ^ 4 ∧ collateralBucket < 256 ^ 8 ∧
      twapWindowSlots < 256 ^ 8
  | pmlc key id => key.IsBytes ∧ id < 256 ^ 8
  | marketNonce marketId => marketId < 2 ^ 256
  | timelock proposalId => proposalId < 256 ^ 8
  | _ => True

end Seeds

/-! ### The limits of the derivation -/

theorem length_bytes32 (v : ℕ) : (bytes32.serialize v).length = 32 := by
  change ((wordBytes 32 v).reverse).length = 32
  rw [List.length_reverse, length_wordBytes]

theorem length_pubkey (k : Pubkey) : (pubkey.serialize k).length = 32 := length_bytes32 k.value

theorem length_word (n v : ℕ) : ((word n).serialize v).length = n := length_wordBytes n v

namespace Seeds

theorem length_flatten_fields (seeds : Seeds) : seeds.fields.flatten.length = seeds.kind.width := by
  cases seeds <;> simp [fields, kind, SeedKind.width, length_pubkey, length_bytes32, length_word]

/-! ### Different seeds are different bytes -/

/-- Seeds of one kind are told apart by their fields. -/
theorem eq_of_fields {a b : Seeds} (kinds : a.kind = b.kind) (inRange : a.InRange) (inRange' : b.InRange)
    (same : a.fields.flatten = b.fields.flatten) : a = b := by
  cases a with
  | margin owner mint | userVolume owner mint =>
    cases b <;> cases kinds
    next owner' mint' =>
      simp only [fields, List.flatten_cons, List.flatten_nil, List.append_nil] at same
      have both : (owner, mint) = (owner', mint') := (pubkey.prod pubkey).serialize_injective inRange inRange' same
      cases both
      rfl
  | vault key | book key | treasury key | session key =>
    cases b <;> cases kinds
    next key' =>
      simp only [fields, List.flatten_cons, List.flatten_nil, List.append_nil] at same
      rw [pubkey.serialize_injective inRange inRange' same]
  | instrument source market leverage bucket window =>
    cases b <;> cases kinds
    next source' market' leverage' bucket' window' =>
      simp only [fields, List.flatten_cons, List.flatten_nil, List.append_nil] at same
      have all : (source, market, leverage, bucket, window) = (source', market', leverage', bucket', window') :=
        ((word 1).prod (bytes32.prod ((word 4).prod ((word 8).prod (word 8))))).serialize_injective inRange inRange' same
      cases all
      rfl
  | pmlc key id =>
    cases b <;> cases kinds
    next key' id' =>
      simp only [fields, List.flatten_cons, List.flatten_nil, List.append_nil] at same
      have both : (key, id) = (key', id') := (pubkey.prod (word 8)).serialize_injective inRange inRange' same
      cases both
      rfl
  | marketNonce market =>
    cases b <;> cases kinds
    next market' =>
      simp only [fields, List.flatten_cons, List.flatten_nil, List.append_nil] at same
      rw [bytes32.serialize_injective inRange inRange' same]
  | timelock id =>
    cases b <;> cases kinds
    next id' =>
      simp only [fields, List.flatten_cons, List.flatten_nil, List.append_nil] at same
      rw [(word 8).serialize_injective inRange inRange' same]
  | config | feeSchedule | adminMultisig | bucketRegistry | stablecoinRegistry | wusdMint | wusdAuthority =>
    cases b <;> cases kinds
    rfl

/-- Two seeds whose bytes are the same are the same. -/
theorem components_injective {a b : Seeds} (inRange : a.InRange) (inRange' : b.InRange)
    (same : a.components.flatten = b.components.flatten) : a = b := by
  simp only [components, List.flatten_cons] at same
  have length := congrArg List.length same
  rw [List.length_append, List.length_append, length_flatten_fields, length_flatten_fields] at length
  have overlap : a.kind.label <+: b.kind.label ∨ b.kind.label <+: a.kind.label := by
    have first : a.kind.label <+: b.kind.label ++ b.fields.flatten := same ▸ List.prefix_append _ _
    exact List.prefix_or_prefix_of_prefix first (List.prefix_append _ _)
  have kinds := SeedKind.eq_of_overlap a.kind (SeedKind.mem_all _) b.kind (SeedKind.mem_all _) length overlap
  rw [kinds] at same
  exact eq_of_fields kinds inRange inRange' (List.append_cancel_left same)

/-- The input of the hash: the seeds, the bump, the program and a marker. -/
def preimage (seeds : Seeds) (bump : UInt8) (programId : Pubkey) : List UInt8 :=
  seeds.components.flatten ++ (bump :: (pubkey.serialize programId ++ ascii "ProgramDerivedAddress"))

/-- Two accounts of the program are never hashed from the same bytes, whatever their bumps, and neither is
one account under two bumps: only a collision of the hash itself makes two of them meet. -/
theorem preimage_eq_iff {a b : Seeds} {bump bump' : UInt8} {programId : Pubkey} (inRange : a.InRange)
    (inRange' : b.InRange) : a.preimage bump programId = b.preimage bump' programId ↔ a = b ∧ bump = bump' := by
  constructor
  · intro same
    obtain ⟨components, rest⟩ := List.append_inj' same (by simp)
    exact ⟨components_injective inRange inRange' components, (List.cons.inj rest).1⟩
  · rintro ⟨rfl, rfl⟩
    rfl

/-- The seeds of a margin account and of a volume account have the same length. -/
theorem preimage_eq_iff_margin_volume :
    (margin ⟨7⟩ ⟨9⟩).preimage 255 ⟨1⟩ ≠ (userVolume ⟨7⟩ ⟨9⟩).preimage 254 ⟨1⟩ := by
  have inRange : Pubkey.IsBytes ⟨7⟩ ∧ Pubkey.IsBytes ⟨9⟩ := ⟨by norm_num [Pubkey.IsBytes], by norm_num [Pubkey.IsBytes]⟩
  rw [Ne, preimage_eq_iff (a := margin ⟨7⟩ ⟨9⟩) (b := userVolume ⟨7⟩ ⟨9⟩) inRange inRange]
  rintro ⟨impossible, -⟩
  cases impossible

end Seeds

end Polyleverage
