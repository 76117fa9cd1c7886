import Polyleverage.Address
import Polyleverage.Error
import Polyleverage.Math.Machine

/-! # Attestations

An attestation is a message of fixed length: a magic, a type, a market, a timestamp, a nonce and a
payload that depends on the type. It is accepted from an Ed25519 instruction of the same transaction,
which the runtime has verified; the program only checks that the verified key and message lie in that
one instruction.
-/

namespace Polyleverage

open Machine

/-- The number whose bytes these are, lowest first. -/
def fromLeBytes : List UInt8 → ℕ
  | [] => 0
  | b :: rest => b.toNat + 256 * fromLeBytes rest

/-- The number whose bytes these are, highest first. -/
def fromBeBytes (bytes : List UInt8) : ℕ := fromLeBytes bytes.reverse

def Pubkey.ofBytes (bytes : List UInt8) : Pubkey := ⟨fromBeBytes bytes⟩

def ATTESTATION_MAGIC : List UInt8 := [65, 84, 84, 49]

def ATTESTATION_LEN : ℕ := 104

def ATTESTATION_PAYLOAD_OFFSET : ℕ := 56

def ATT_TYPE_PRICE_TWAP : ℕ := 1

def ATT_TYPE_RESOLUTION : ℕ := 2

def ATT_TYPE_HISTORICAL_LIQUIDATION : ℕ := 3

/-- A message with the right length and magic. -/
structure Attestation where
  bytes : List UInt8
  length_eq : bytes.length = ATTESTATION_LEN
  magic_eq : bytes.take 4 = ATTESTATION_MAGIC
  deriving DecidableEq

namespace Attestation

def parse (bytes : List UInt8) : Except ProgramError Attestation :=
  if length : bytes.length = ATTESTATION_LEN then
    if magic : bytes.take 4 = ATTESTATION_MAGIC then .ok ⟨bytes, length, magic⟩
    else .error PolyleverageError.attestationBadMagic
  else .error PolyleverageError.invalidInstructionData

/-- The bytes from an offset on. -/
def field (att : Attestation) (offset length : ℕ) : List UInt8 := (att.bytes.drop offset).take length

def attestationType (att : Attestation) : ℕ := fromLeBytes (att.field 4 1)

def marketId (att : Attestation) : ℕ := fromBeBytes (att.field 8 32)

def timestamp (att : Attestation) : ℕ := fromLeBytes (att.field 40 8)

def nonce (att : Attestation) : ℕ := fromLeBytes (att.field 48 8)

/-- A payload field of one type of attestation. -/
def payload (att : Attestation) (type offset length : ℕ) : Except ProgramError (List UInt8) :=
  if att.attestationType ≠ type then .error PolyleverageError.attestationWrongType
  else .ok (att.field (ATTESTATION_PAYLOAD_OFFSET + offset) length)

def priceFp (att : Attestation) : Except ProgramError ℕ :=
  (att.payload ATT_TYPE_PRICE_TWAP 0 8).map fromLeBytes

def twapWindowSlots (att : Attestation) : Except ProgramError ℕ :=
  (att.payload ATT_TYPE_PRICE_TWAP 8 8).map fromLeBytes

def finalOutcomeBps (att : Attestation) : Except ProgramError ℕ :=
  (att.payload ATT_TYPE_RESOLUTION 0 2).map fromLeBytes

def breachPmlcPubkey (att : Attestation) : Except ProgramError Pubkey :=
  (att.payload ATT_TYPE_HISTORICAL_LIQUIDATION 0 32).map Pubkey.ofBytes

def breachMarkFp (att : Attestation) : Except ProgramError ℕ :=
  (att.payload ATT_TYPE_HISTORICAL_LIQUIDATION 32 8).map fromLeBytes

def breachUnixTs (att : Attestation) : Except ProgramError ℤ :=
  (att.payload ATT_TYPE_HISTORICAL_LIQUIDATION 40 8).map fun bytes => toSigned 64 (fromLeBytes bytes)

/-- Freshness, nonce and market of an attestation against what was accepted before. -/
def validateFreshnessAndNonce (att : Attestation)
    (expectedMarketId lastAcceptedNonce nowUnixSecs maxStalenessSecs : ℕ) : Except ProgramError Unit :=
  if att.marketId ≠ expectedMarketId then .error PolyleverageError.attestationWrongMarket
  else if nowUnixSecs < att.timestamp then .error PolyleverageError.attestationStale
  else if maxStalenessSecs < nowUnixSecs - att.timestamp then .error PolyleverageError.attestationStale
  else if att.nonce ≤ lastAcceptedNonce then .error PolyleverageError.attestationNonceReplayed
  else .ok ()

theorem validateFreshnessAndNonce_ok {att : Attestation} {market last now staleness : ℕ} :
    att.validateFreshnessAndNonce market last now staleness = .ok () ↔
      att.marketId = market ∧ att.timestamp ≤ now ∧ now - att.timestamp ≤ staleness ∧ last < att.nonce := by
  unfold validateFreshnessAndNonce
  by_cases market' : att.marketId = market <;> by_cases past : now < att.timestamp <;>
    by_cases stale : staleness < now - att.timestamp <;> by_cases replayed : att.nonce ≤ last <;>
    simp [market', past, stale, replayed] <;> omega

/-- A message is its bytes. -/
theorem eq_of_bytes {att att' : Attestation} (same : att.bytes = att'.bytes) : att = att' := by
  cases att
  cases att'
  cases same
  rfl

/-- A payload field exists exactly on attestations of its type. -/
theorem payload_ok {att : Attestation} {type offset length : ℕ} {bytes : List UInt8} :
    att.payload type offset length = .ok bytes ↔
      att.attestationType = type ∧ att.field (ATTESTATION_PAYLOAD_OFFSET + offset) length = bytes := by
  unfold payload
  split <;> simp_all

/-- What is read from the payload tells the type. -/
theorem attestationType_of_payload {α : Type} {att : Attestation} {type offset length : ℕ} {f : List UInt8 → α} {a : α}
    (read : (att.payload type offset length).map f = .ok a) : att.attestationType = type := by
  cases found : att.payload type offset length with
  | error e =>
    rw [found] at read
    cases read
  | ok bytes => exact (payload_ok.mp found).1

end Attestation

/-! ### Ed25519 introspection -/

/-- An instruction of the running transaction, as the instructions sysvar shows it. -/
structure SysvarInstruction where
  programId : Pubkey
  data : List UInt8
  deriving DecidableEq, Repr

/-- The bytes of a range, when it lies inside. -/
def slice? (data : List UInt8) (offset length : ℕ) : Option (List UInt8) :=
  if offset + length ≤ data.length then some ((data.drop offset).take length) else none

def readU16 (data : List UInt8) (offset : ℕ) : ℕ := fromLeBytes ((data.drop offset).take 2)

/-- The one signed message of an Ed25519 instruction that keeps key, signature and message in its own
data. -/
def extractVerifiedEd25519Message (data : List UInt8) (expectedPubkey : Pubkey) :
    Except ProgramError (List UInt8) :=
  if data.length < 16 then .error PolyleverageError.missingEd25519Verify
  else if data.take 2 ≠ [1, 0] then .error PolyleverageError.missingEd25519Verify
  else if readU16 data 4 ≠ maxValue 16 ∨ readU16 data 8 ≠ maxValue 16 ∨ readU16 data 14 ≠ maxValue 16 then
    .error PolyleverageError.missingEd25519Verify
  else
    match slice? data (readU16 data 6) 32, slice? data (readU16 data 2) 64,
      slice? data (readU16 data 10) (readU16 data 12) with
    | some pk, some _, some message =>
      if Pubkey.ofBytes pk ≠ expectedPubkey then .error PolyleverageError.ed25519PubkeyMismatch
      else if message.length ≠ ATTESTATION_LEN then .error PolyleverageError.ed25519MessageMismatch
      else .ok message
    | _, _, _ => .error PolyleverageError.missingEd25519Verify

/-- One verification has one message and one signer. -/
theorem extractVerifiedEd25519Message_unique {data : List UInt8} {signer signer' : Pubkey} {message message' : List UInt8}
    (verified : extractVerifiedEd25519Message data signer = .ok message)
    (verified' : extractVerifiedEd25519Message data signer' = .ok message') : signer = signer' ∧ message = message' := by
  unfold extractVerifiedEd25519Message at verified verified'
  split_ifs at verified
  split_ifs at verified'
  split at verified
  next key signature body =>
    rw [key, signature, body] at verified'
    dsimp only at verified'
    split_ifs at verified with wrong
    split_ifs at verified' with wrong'
    cases verified
    cases verified'
    rw [not_not] at wrong wrong'
    exact ⟨wrong.symm.trans wrong', rfl⟩
  · cases verified

end Polyleverage
