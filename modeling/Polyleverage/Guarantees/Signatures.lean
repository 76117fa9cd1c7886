import Polyleverage.Attestation
import Polyleverage.Exec.Keeping

/-! # What is taken from an Ed25519 instruction

The parser accepts the form with one signature whose key, signature and message lie in the instruction itself,
and nothing else. The bytes that it returns are the ones that the precompile has checked against the key.
-/

namespace Polyleverage

open Machine

/-! ### Numbers and keys as bytes -/

theorem fromLeBytes_injective {xs ys : List UInt8} (length : xs.length = ys.length) (same : fromLeBytes xs = fromLeBytes ys) :
    xs = ys := by
  induction xs generalizing ys with
  | nil => exact (List.length_eq_zero_iff.mp length.symm).symm
  | cons x xs ih =>
    cases ys with
    | nil => cases length
    | cons y ys =>
      simp only [fromLeBytes] at same
      have lowx := x.toNat_lt
      have lowy := y.toNat_lt
      have low : x.toNat = y.toNat := by omega
      rw [UInt8.toNat_inj.mp low, ih (Nat.succ.inj length) (by omega)]

theorem Pubkey.ofBytes_injective {xs ys : List UInt8} (length : xs.length = ys.length)
    (same : Pubkey.ofBytes xs = Pubkey.ofBytes ys) : xs = ys := by
  have values : fromBeBytes xs = fromBeBytes ys := congrArg Pubkey.value same
  exact List.reverse_inj.mp (fromLeBytes_injective (by simpa using length) values)

/-- A range that lies inside has all its bytes. -/
theorem slice?_eq_some {data bytes : List UInt8} {offset length : ℕ} :
    slice? data offset length = some bytes ↔ offset + length ≤ data.length ∧ (data.drop offset).take length = bytes := by
  rw [slice?]
  split
  next inside => simp [inside]
  next outside => simp [outside]

theorem length_of_slice? {data bytes : List UInt8} {offset length : ℕ} (found : slice? data offset length = some bytes) :
    bytes.length = length := by
  obtain ⟨inside, rfl⟩ := slice?_eq_some.mp found
  rw [List.length_take, List.length_drop]
  omega

/-! ### The accepted form -/

/-- One signature by the key, in the instruction itself, over a message as long as an attestation. -/
structure Canonical (data key message : List UInt8) : Prop where
  header : 16 ≤ data.length
  one_signature : data[0]? = some 1
  padding : data[1]? = some 0
  signature_index : readU16 data 4 = 0xFFFF
  key_index : readU16 data 8 = 0xFFFF
  message_index : readU16 data 14 = 0xFFFF
  key_inside : readU16 data 6 + 32 ≤ data.length
  signature_inside : readU16 data 2 + 64 ≤ data.length
  message_inside : readU16 data 10 + readU16 data 12 ≤ data.length
  key_eq : (data.drop (readU16 data 6)).take 32 = key
  size : readU16 data 12 = 104
  message_eq : (data.drop (readU16 data 10)).take (readU16 data 12) = message

theorem take_two {data : List UInt8} {a b : UInt8} : data.take 2 = [a, b] ↔ data[0]? = some a ∧ data[1]? = some b := by
  rcases data with _ | ⟨x, _ | ⟨y, rest⟩⟩ <;> simp

/-- The three ranges of the header. -/
theorem extractVerifiedEd25519Message_ok {data key message : List UInt8} (full : key.length = 32) :
    extractVerifiedEd25519Message data (Pubkey.ofBytes key) = .ok message ↔ Canonical data key message := by
  constructor
  · intro extracted
    unfold extractVerifiedEd25519Message at extracted
    split_ifs at extracted with short other_form elsewhere
    rw [not_not, take_two] at other_form
    simp only [not_or, not_not] at elsewhere
    split at extracted
    next pk signature body key_range signature_range message_range =>
      split_ifs at extracted with wrong_key wrong_size
      cases extracted
      obtain ⟨key_inside, key_eq⟩ := slice?_eq_some.mp key_range
      obtain ⟨message_inside, message_eq⟩ := slice?_eq_some.mp message_range
      have size := length_of_slice? message_range
      have same_key : pk = key := by
        apply Pubkey.ofBytes_injective _ (not_not.mp wrong_key)
        rw [length_of_slice? key_range, full]
      exact
        { header := Nat.not_lt.mp short
          one_signature := other_form.1
          padding := other_form.2
          signature_index := elsewhere.1
          key_index := elsewhere.2.1
          message_index := elsewhere.2.2
          key_inside
          signature_inside := (slice?_eq_some.mp signature_range).1
          message_inside
          key_eq := key_eq.trans same_key
          size := size.symm.trans (not_not.mp wrong_size)
          message_eq }
    · cases extracted
  · intro form
    have key_range := slice?_eq_some.mpr ⟨form.key_inside, form.key_eq⟩
    have signature_range := slice?_eq_some.mpr ⟨form.signature_inside, rfl⟩
    have message_range := slice?_eq_some.mpr ⟨form.message_inside, form.message_eq⟩
    have length : message.length = ATTESTATION_LEN := (length_of_slice? message_range).trans form.size
    have indices : ¬ (readU16 data 4 ≠ maxValue 16 ∨ readU16 data 8 ≠ maxValue 16 ∨ readU16 data 14 ≠ maxValue 16) := by
      simp only [not_or, not_not]
      exact ⟨form.signature_index, form.key_index, form.message_index⟩
    have announced := take_two.mpr ⟨form.one_signature, form.padding⟩
    rw [extractVerifiedEd25519Message, if_neg (Nat.not_lt.mpr form.header), if_neg (not_not.mpr announced), if_neg indices,
      key_range, signature_range, message_range]
    dsimp only
    rw [if_neg (not_not.mpr rfl), if_neg (not_not.mpr length)]

/-! ### Every access lies inside -/

variable {σ : Type}

/-- `data[i]`, which panics outside. -/
def byteAt (data : List UInt8) (i : ℕ) : Exec ProgramError σ UInt8 :=
  match data[i]? with
  | some byte => pure byte
  | none => Exec.abort

/-- Two bytes as a number, lowest first. -/
def u16At (data : List UInt8) (i : ℕ) : Exec ProgramError σ ℕ := do
  let low ← byteAt data i
  let high ← byteAt data (i + 1)
  pure (fromLeBytes [low, high])

/-- The end of a range; an overflow panics. -/
def rangeEnd (offset length : ℕ) : Exec ProgramError σ ℕ :=
  match checkedAdd 64 offset length with
  | some stop => pure stop
  | none => Exec.abort

/-- `data.get(start..stop)`. -/
def getRange (data : List UInt8) (start stop : ℕ) : Option (List UInt8) :=
  if start ≤ stop ∧ stop ≤ data.length then some ((data.drop start).take (stop - start)) else none

/-- Copying panics when the lengths differ. -/
def copyFromSlice (length : ℕ) (bytes : List UInt8) : Exec ProgramError σ (List UInt8) := do
  Exec.abortIf (bytes.length ≠ length)
  pure bytes

/-- The parser with every access that could panic. -/
def extractStepwise (data expectedPubkey : List UInt8) : Exec ProgramError σ (List UInt8) := do
  Exec.rejectIf (data.length < 16) PolyleverageError.missingEd25519Verify
  let numSignatures ← byteAt data 0
  let padding ← byteAt data 1
  Exec.rejectIf (numSignatures ≠ 1 ∨ padding ≠ 0) PolyleverageError.missingEd25519Verify
  let signatureOffset ← u16At data 2
  let signatureIxIndex ← u16At data 4
  let publicKeyOffset ← u16At data 6
  let publicKeyIxIndex ← u16At data 8
  let messageOffset ← u16At data 10
  let messageSize ← u16At data 12
  let messageIxIndex ← u16At data 14
  Exec.rejectIf
    (signatureIxIndex ≠ maxValue 16 ∨ publicKeyIxIndex ≠ maxValue 16 ∨ messageIxIndex ≠ maxValue 16)
    PolyleverageError.missingEd25519Verify
  let publicKeyEnd ← rangeEnd publicKeyOffset 32
  let pkBytes ← Exec.orErr (getRange data publicKeyOffset publicKeyEnd) PolyleverageError.missingEd25519Verify
  let signatureEnd ← rangeEnd signatureOffset 64
  let _ ← Exec.orErr (getRange data signatureOffset signatureEnd) PolyleverageError.missingEd25519Verify
  let messageEnd ← rangeEnd messageOffset messageSize
  let msgBytes ← Exec.orErr (getRange data messageOffset messageEnd) PolyleverageError.missingEd25519Verify
  Exec.rejectIf (pkBytes ≠ expectedPubkey) PolyleverageError.ed25519PubkeyMismatch
  Exec.rejectIf (msgBytes.length ≠ ATTESTATION_LEN) PolyleverageError.ed25519MessageMismatch
  copyFromSlice ATTESTATION_LEN msgBytes

section Stepwise

variable {data key : List UInt8} {s : σ} {i : ℕ}

theorem run_byteAt (inside : i < data.length) : (byteAt data i : Exec ProgramError σ UInt8).run s = .ok data[i] s := by
  rw [byteAt, List.getElem?_eq_getElem inside]
  rfl

theorem run_u16At (inside : i + 1 < data.length) : (u16At data i : Exec ProgramError σ ℕ).run s = .ok (readU16 data i) s := by
  have bytes : (data.drop i).take 2 = [data[i], data[i + 1]] := by
    rw [List.drop_eq_getElem_cons (by omega), List.drop_eq_getElem_cons inside]
    rfl
  rw [u16At, Exec.run_bind_of_ok (run_byteAt (by omega)), Exec.run_bind_of_ok (run_byteAt inside), Exec.run_pure, readU16, bytes]

theorem readU16_lt (data : List UInt8) (i : ℕ) : readU16 data i < 2 ^ 16 := by
  rw [readU16]
  rcases data.drop i with _ | ⟨x, _ | ⟨y, rest⟩⟩
  · decide
  · have := x.toNat_lt
    simp only [List.take, fromLeBytes]
    omega
  · have := x.toNat_lt
    have := y.toNat_lt
    simp only [List.take, fromLeBytes]
    omega

theorem run_rangeEnd {offset length : ℕ} (small : offset < 2 ^ 16) (small' : length < 2 ^ 16) :
    (rangeEnd offset length : Exec ProgramError σ ℕ).run s = .ok (offset + length) s := by
  have fits : checkedAdd 64 offset length = some (offset + length) := checkedAdd_eq_some.mpr ⟨by omega, rfl⟩
  rw [rangeEnd, fits]
  rfl

theorem run_orErr {α β : Type} (a : α) (e : ProgramError) (f : α → Exec ProgramError σ β) :
    ((Exec.orErr (some a) e : Exec ProgramError σ α) >>= f).run s = (f a).run s := rfl

/-- Keys are the same when their bytes are. -/
theorem same_key {pk : List UInt8} (length : pk.length = 32) (full : key.length = 32) :
    Pubkey.ofBytes pk ≠ Pubkey.ofBytes key ↔ pk ≠ key := by
  rw [not_iff_not]
  constructor
  · exact Pubkey.ofBytes_injective (length.trans full.symm)
  · exact congrArg Pubkey.ofBytes

theorem getRange_eq (data : List UInt8) (offset length : ℕ) : getRange data offset (offset + length) = slice? data offset length := by
  rw [getRange, slice?, Nat.add_sub_cancel_left]
  simp only [Nat.le_add_right, true_and]

/-- No access panics, and the parser is the one that the program uses. -/
theorem run_extractStepwise (full : key.length = 32) (s : σ) :
    (extractStepwise data key : Exec ProgramError σ (List UInt8)).run s =
      (Exec.ofExcept (extractVerifiedEd25519Message data (Pubkey.ofBytes key))).run s := by
  rw [extractStepwise, Exec.run_bind, Exec.run_rejectIf, extractVerifiedEd25519Message]
  split
  · rfl
  next long =>
    rw [Nat.not_lt] at long
    rw [Outcome.bind_ok, Exec.run_bind_of_ok (run_byteAt (by omega)), Exec.run_bind_of_ok (run_byteAt (by omega)),
      Exec.run_bind, Exec.run_rejectIf]
    have header : (data[0] ≠ 1 ∨ data[1] ≠ 0) ↔ data.take 2 ≠ [1, 0] := by
      rw [ne_eq (data.take 2), take_two, List.getElem?_eq_getElem, List.getElem?_eq_getElem, Option.some.injEq,
        Option.some.injEq, ← not_and_or]
    simp only [header]
    split
    · rfl
    · rw [Outcome.bind_ok, Exec.run_bind_of_ok (run_u16At (by omega)), Exec.run_bind_of_ok (run_u16At (by omega)),
        Exec.run_bind_of_ok (run_u16At (by omega)), Exec.run_bind_of_ok (run_u16At (by omega)),
        Exec.run_bind_of_ok (run_u16At (by omega)), Exec.run_bind_of_ok (run_u16At (by omega)),
        Exec.run_bind_of_ok (run_u16At (by omega)), Exec.run_bind, Exec.run_rejectIf]
      split
      · rfl
      · rw [Outcome.bind_ok, Exec.run_bind_of_ok (run_rangeEnd (readU16_lt data 6) (by decide)), getRange_eq]
        cases key_range : slice? data (readU16 data 6) 32 with
        | none => rfl
        | some pk =>
          rw [run_orErr, Exec.run_bind_of_ok (run_rangeEnd (readU16_lt data 2) (by decide)), getRange_eq]
          cases slice? data (readU16 data 2) 64 with
          | none => rfl
          | some signature =>
            rw [run_orErr, Exec.run_bind_of_ok (run_rangeEnd (readU16_lt data 10) (readU16_lt data 12)), getRange_eq]
            cases slice? data (readU16 data 10) (readU16 data 12) with
            | none => rfl
            | some message =>
              rw [run_orErr, Exec.run_bind, Exec.run_rejectIf]
              simp only [same_key (length_of_slice? key_range) full]
              split
              · rfl
              · rw [Outcome.bind_ok, Exec.run_bind, Exec.run_rejectIf]
                split
                · rfl
                next size => rw [Outcome.bind_ok, copyFromSlice, Exec.run_bind, Exec.run_abortIf, if_neg size]; rfl

end Stepwise

/-! ### What the precompile has checked -/

/-- What the precompile has checked of an instruction that it let pass. For every signature that the header
announces, a block of offsets says where signature, key and message lie: in the instruction itself, or in
another one of the transaction. -/
def PrecompileVerified (valid : (key message signature : List UInt8) → Prop) (others : ℕ → List UInt8) (data : List UInt8) :
    Prop :=
  ∀ (i : ℕ) count, data[0]? = some count → i < count.toNat →
    let block := 2 + 14 * i
    let source := fun index => if index = 0xFFFF then data else others index
    ∃ signature key message,
      slice? (source (readU16 data (block + 2))) (readU16 data block) 64 = some signature ∧
        slice? (source (readU16 data (block + 6))) (readU16 data (block + 4)) 32 = some key ∧
          slice? (source (readU16 data (block + 12))) (readU16 data (block + 8)) (readU16 data (block + 10)) = some message ∧
            valid key message signature

theorem Canonical.signed {data key message : List UInt8} {valid : (key message signature : List UInt8) → Prop}
    {others : ℕ → List UInt8} (form : Canonical data key message) (verified : PrecompileVerified valid others data) :
    ∃ signature, slice? data (readU16 data 2) 64 = some signature ∧ valid key message signature := by
  obtain ⟨signature, pk, body, signature_range, key_range, message_range, holds⟩ :=
    verified 0 1 form.one_signature (by decide)
  simp only [Nat.mul_zero, Nat.add_zero, Nat.reduceAdd, form.signature_index, form.key_index, form.message_index, if_true]
    at signature_range key_range message_range
  obtain ⟨-, rfl⟩ := slice?_eq_some.mp key_range
  obtain ⟨-, rfl⟩ := slice?_eq_some.mp message_range
  rw [form.key_eq, form.message_eq] at holds
  exact ⟨signature, signature_range, holds⟩

/-! ### The usual layout -/

/-- Sixteen bits, lowest byte first. -/
def u16LeBytes (value : ℕ) : List UInt8 := [UInt8.ofNat value, UInt8.ofNat (value / 256)]

/-- An instruction with the header, room for the signature, the key and the message, one after the other. -/
def buildEd25519IxData (pubkey msg : List UInt8) : List UInt8 :=
  [1, 0] ++ u16LeBytes 16 ++ u16LeBytes 0xFFFF ++ u16LeBytes (16 + 64) ++ u16LeBytes 0xFFFF ++ u16LeBytes (16 + 64 + 32) ++
    u16LeBytes (truncate 16 msg.length) ++ u16LeBytes 0xFFFF ++ List.replicate 64 0 ++ pubkey ++ msg

/-- The header in front of a message as long as an attestation. -/
theorem build_eq {key message : List UInt8} (size : message.length = 104) :
    buildEd25519IxData key message =
      [1, 0, 16, 0, 255, 255, 80, 0, 255, 255, 112, 0, 104, 0, 255, 255] ++ (List.replicate 64 0 ++ (key ++ message)) := by
  simp only [buildEd25519IxData, size, List.append_assoc]
  rfl

theorem canonical_build {key message : List UInt8} (full : key.length = 32) (size : message.length = 104) :
    Canonical (buildEd25519IxData key message) key message := by
  rw [build_eq size]
  generalize header : ([1, 0, 16, 0, 255, 255, 80, 0, 255, 255, 112, 0, 104, 0, 255, 255] : List UInt8) = bytes
  have sixteen : bytes.length = 16 := by
    rw [← header]
    rfl
  have length : (bytes ++ (List.replicate 64 0 ++ (key ++ message))).length = 216 := by
    simp only [List.length_append, List.length_replicate, full, size, sixteen]
  have read : ∀ i, i + 2 ≤ 16 → readU16 (bytes ++ (List.replicate 64 0 ++ (key ++ message))) i = readU16 bytes i := by
    intro i inside
    rw [readU16, readU16, List.drop_append_of_le_length (by omega), List.take_append_of_le_length]
    rw [List.length_drop]
    omega
  have signature_offset : readU16 bytes 2 = 16 := by subst header; decide
  have key_offset : readU16 bytes 6 = 80 := by subst header; decide
  have message_offset : readU16 bytes 10 = 112 := by subst header; decide
  have message_size : readU16 bytes 12 = 104 := by subst header; decide
  have key_first : (bytes ++ (List.replicate 64 0 ++ (key ++ message))).drop 80 = key ++ message := by
    rw [← List.append_assoc, List.drop_left']
    rw [List.length_append, List.length_replicate, sixteen]
  have message_first : (bytes ++ (List.replicate 64 0 ++ (key ++ message))).drop 112 = message := by
    rw [show 112 = 80 + 32 from rfl, ← List.drop_drop, key_first, List.drop_left' full]
  exact
    { header := by omega
      one_signature := by subst header; rfl
      padding := by subst header; rfl
      signature_index := by rw [read 4 (by omega)]; subst header; decide
      key_index := by rw [read 8 (by omega)]; subst header; decide
      message_index := by rw [read 14 (by omega)]; subst header; decide
      key_inside := by rw [read 6 (by omega), length, key_offset]; decide
      signature_inside := by rw [read 2 (by omega), length, signature_offset]; decide
      message_inside := by rw [read 10 (by omega), read 12 (by omega), length, message_offset, message_size]
      key_eq := by rw [read 6 (by omega), key_offset, key_first, List.take_left' full]
      size := by rw [read 12 (by omega), message_size]
      message_eq := by
        rw [read 10 (by omega), read 12 (by omega), message_offset, message_size, message_first]
        exact List.take_of_length_le size.le }

/-- The parser never panics and accepts exactly the canonical form with one signature. What it returns was signed by
the key when the precompile has let the instruction pass, and the usual layout is accepted for every message. -/
theorem canonical_form_exact (data key : List UInt8) (full : key.length = 32) :
    (extractStepwise data key : Exec ProgramError Unit (List UInt8)).run () ≠ .abort ∧
      (∀ message, (extractStepwise data key : Exec ProgramError Unit (List UInt8)).run () = .ok message () ↔
        16 ≤ data.length ∧ data[0]? = some 1 ∧ data[1]? = some 0 ∧
          (readU16 data 4 = 0xFFFF ∧ readU16 data 8 = 0xFFFF ∧ readU16 data 14 = 0xFFFF) ∧
          (readU16 data 6 + 32 ≤ data.length ∧ readU16 data 2 + 64 ≤ data.length ∧
            readU16 data 10 + readU16 data 12 ≤ data.length) ∧
          (data.drop (readU16 data 6)).take 32 = key ∧ readU16 data 12 = 104 ∧
            message = (data.drop (readU16 data 10)).take (readU16 data 12)) ∧
      (∀ (valid : (key message signature : List UInt8) → Prop) (others : ℕ → List UInt8) (message : List UInt8),
        PrecompileVerified valid others data →
          (extractStepwise data key : Exec ProgramError Unit (List UInt8)).run () = .ok message () →
            ∃ signature, slice? data (readU16 data 2) 64 = some signature ∧ valid key message signature) ∧
      ∀ message, message.length = 104 →
        (extractStepwise (buildEd25519IxData key message) key : Exec ProgramError Unit (List UInt8)).run () =
          .ok message () := by
  have accepts : ∀ (bytes : List UInt8) message,
      (extractStepwise bytes key : Exec ProgramError Unit (List UInt8)).run () = .ok message () ↔ Canonical bytes key message := by
    intro bytes message
    rw [run_extractStepwise full, Exec.ofExcept_ok, extractVerifiedEd25519Message_ok full]
    exact and_iff_left rfl
  refine ⟨?_, ?_, ?_, ?_⟩
  · rw [run_extractStepwise full]
    cases extractVerifiedEd25519Message data (Pubkey.ofBytes key) <;> simp [Exec.ofExcept]
  · intro message
    rw [accepts]
    constructor
    · intro form
      exact ⟨form.header, form.one_signature, form.padding, ⟨form.signature_index, form.key_index, form.message_index⟩,
        ⟨form.key_inside, form.signature_inside, form.message_inside⟩, form.key_eq, form.size, form.message_eq.symm⟩
    · rintro ⟨header, one_signature, padding, ⟨signature_index, key_index, message_index⟩,
        ⟨key_inside, signature_inside, message_inside⟩, key_eq, size, message_eq⟩
      exact
        { header, one_signature, padding, signature_index, key_index, message_index, key_inside, signature_inside,
          message_inside, key_eq, size, message_eq := message_eq.symm }
  · intro valid others message verified extracted
    exact ((accepts data message).mp extracted).signed verified
  · intro message size
    exact (accepts _ message).mpr (canonical_build full size)

namespace Sample

def keyBytes : List UInt8 := (List.range 32).map UInt8.ofNat

def signatureBytes : List UInt8 := (List.range 64).map fun i => UInt8.ofNat (32 + i)

def messageBytes : List UInt8 := (List.range 104).map fun i => UInt8.ofNat (96 + i)

/-- One signature, with the key in front of it. -/
def keyFirst : List UInt8 :=
  [1, 0] ++ u16LeBytes 48 ++ u16LeBytes 0xFFFF ++ u16LeBytes 16 ++ u16LeBytes 0xFFFF ++ u16LeBytes 112 ++ u16LeBytes 104 ++
    u16LeBytes 0xFFFF ++ keyBytes ++ signatureBytes ++ messageBytes

/-- What this precompile checks of a signature. -/
def SignedBy (key message signature : List UInt8) : Prop :=
  key = keyBytes ∧ message = messageBytes ∧ signature = signatureBytes

theorem keyFirst_verified : PrecompileVerified SignedBy (fun _ => []) keyFirst := by
  intro i count one inside
  obtain rfl : count = 1 := Option.some.inj (one.symm.trans (by decide))
  obtain rfl : i = 0 := Nat.lt_one_iff.mp inside
  exact ⟨signatureBytes, keyBytes, messageBytes, by decide +kernel, by decide +kernel, by decide +kernel, rfl, rfl, rfl⟩

end Sample

/-- The key may come before the signature. What is cut off inside the message is rejected. -/
theorem canonical_form_exact_key_first :
    (extractStepwise Sample.keyFirst Sample.keyBytes : Exec ProgramError Unit (List UInt8)).run () = .ok Sample.messageBytes () ∧
      (∃ signature, slice? Sample.keyFirst 48 64 = some signature ∧
        Sample.SignedBy Sample.keyBytes Sample.messageBytes signature) ∧
      (∀ message, (extractStepwise (Sample.keyFirst.take 200) Sample.keyBytes : Exec ProgramError Unit (List UInt8)).run () ≠
        .ok message ()) ∧
      (extractStepwise (Sample.keyFirst.take 200) Sample.keyBytes : Exec ProgramError Unit (List UInt8)).run () ≠ .abort ∧
      (extractStepwise (buildEd25519IxData Sample.keyBytes Sample.messageBytes) Sample.keyBytes :
        Exec ProgramError Unit (List UInt8)).run () = .ok Sample.messageBytes () := by
  obtain ⟨-, accepts, signed, builds⟩ := canonical_form_exact Sample.keyFirst Sample.keyBytes (by decide)
  obtain ⟨returns, accepts_cut, -⟩ := canonical_form_exact (Sample.keyFirst.take 200) Sample.keyBytes (by decide)
  have accepted := (accepts Sample.messageBytes).mpr (by decide +kernel)
  refine ⟨accepted, ?_, ?_, returns, builds Sample.messageBytes (by decide)⟩
  · exact signed Sample.SignedBy (fun _ => []) Sample.messageBytes Sample.keyFirst_verified accepted
  · intro message extracted
    obtain ⟨-, -, -, -, ⟨-, -, message_inside⟩, -⟩ := (accepts_cut message).mp extracted
    exact absurd message_inside (by decide +kernel)

end Polyleverage
