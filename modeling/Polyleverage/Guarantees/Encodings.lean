import Polyleverage.Wire

/-! # The encoding of instructions

Which byte strings are which instruction, exactly; and that calling the program with byte strings
reaches the same ledgers as calling it with instructions that have an encoding. What holds of every
ledger that calls lead to therefore holds at the entrypoint.
-/

namespace Polyleverage

open Codec

/-! ### What can be sent -/

/-- The key is 32 bytes. -/
def Pubkey.IsBytes (k : Pubkey) : Prop := k.value < 2 ^ 256

/-- A list of keys whose length fits its prefix. -/
def KeysFit (keys : List Pubkey) : Prop := keys.length < 2 ^ 32 ∧ ∀ k ∈ keys, k.IsBytes

/-- The arguments lie in the ranges their encoding has. -/
def Instruction.Sendable : Instruction → Prop
  | .initProgramConfig args => args.attestationSigner.IsBytes
  | .createInstrument args =>
    args.marketId < 2 ^ 256 ∧ args.sourceTokenIdA < 2 ^ 256 ∧ args.sourceTokenIdB < 2 ^ 256
  | .createSession args => args.delegate.IsBytes ∧ KeysFit args.allowedInstruments
  | .proposeSetAttestationSigner args => args.newSigner.IsBytes
  | .initAdminMultisig args => KeysFit args.signers
  | .rotateAdminMultisig args => KeysFit args.signers
  | .initBucketRegistry args => args.leverageBps.length < 2 ^ 32 ∧ args.collateralBuckets.length < 2 ^ 32
  | .setBucketRegistry args => args.leverageBps.length < 2 ^ 32 ∧ args.collateralBuckets.length < 2 ^ 32
  | .initStablecoinRegistry args => KeysFit args.initialMints
  | _ => True

namespace Instruction

def tag : Instruction → InstructionTag
  | initProgramConfig _ => .initProgramConfig
  | setGlobalPause _ => .setGlobalPause
  | createInstrument _ => .createInstrument
  | pauseInstrument => .pauseInstrument
  | resumeInstrument => .resumeInstrument
  | expandIntentBook _ => .expandIntentBook
  | createMarginAccount => .createMarginAccount
  | deposit _ => .deposit
  | withdraw _ => .withdraw
  | postIntent _ => .postIntent
  | cancelIntent _ => .cancelIntent
  | matchPair _ => .matchPair
  | matchBestAvailable => .matchBestAvailable
  | pruneExpired => .pruneExpired
  | createSession _ => .createSession
  | revokeSession => .revokeSession
  | postIntentDelegated _ => .postIntentDelegated
  | cancelIntentDelegated _ => .cancelIntentDelegated
  | liquidate _ => .liquidate
  | resolve _ => .resolve
  | closeMutual _ => .closeMutual
  | claimReentry _ => .claimReentry
  | novate _ => .novate
  | matchSubstitute _ => .matchSubstitute
  | matchSubstituteWithSettle _ => .matchSubstituteWithSettle
  | closePmlc => .closePmlc
  | initFeeSchedule _ => .initFeeSchedule
  | setFeeSchedule _ => .setFeeSchedule
  | sweepFees _ => .sweepFees
  | proposeSetAttestationSigner _ => .proposeSetAttestationSigner
  | executeSetAttestationSigner _ => .executeSetAttestationSigner
  | cancelTimelockProposal _ => .cancelTimelockProposal
  | initAdminMultisig _ => .initAdminMultisig
  | rotateAdminMultisig _ => .rotateAdminMultisig
  | initBucketRegistry _ => .initBucketRegistry
  | setBucketRegistry _ => .setBucketRegistry
  | initStablecoinRegistry _ => .initStablecoinRegistry
  | addStablecoinMint => .addStablecoinMint
  | removeStablecoinMint => .removeStablecoinMint
  | wrapStablecoin _ => .wrapStablecoin
  | unwrapStablecoin _ => .unwrapStablecoin

/-- The bytes of the arguments. -/
def arguments : Instruction → List UInt8
  | initProgramConfig args => initProgramConfigArgs.serialize args
  | createInstrument args => createInstrumentArgs.serialize args
  | expandIntentBook additionalNodes => u32.serialize additionalNodes
  | deposit amount | withdraw amount | sweepFees amount | wrapStablecoin amount | unwrapStablecoin amount =>
    u64.serialize amount
  | postIntent args | postIntentDelegated args => postIntentArgs.serialize args
  | cancelIntent intentId | cancelIntentDelegated intentId => u64.serialize intentId
  | matchPair args | matchSubstitute args | matchSubstituteWithSettle args => matchPairArgs.serialize args
  | createSession args => createSessionArgs.serialize args
  | liquidate offset | resolve offset | closeMutual offset => u8.serialize offset
  | claimReentry args => claimReentryArgs.serialize args
  | novate side => u8.serialize side
  | initFeeSchedule tiers | setFeeSchedule tiers => feeTiers.serialize tiers
  | proposeSetAttestationSigner args => proposeSetAttestationSignerArgs.serialize args
  | executeSetAttestationSigner proposalId | cancelTimelockProposal proposalId => u64.serialize proposalId
  | initAdminMultisig args | rotateAdminMultisig args => multisigArgs.serialize args
  | initBucketRegistry args | setBucketRegistry args => bucketRegistryArgs.serialize args
  | initStablecoinRegistry args => initStablecoinRegistryArgs.serialize args
  | setGlobalPause _ | pauseInstrument | resumeInstrument | createMarginAccount | matchBestAvailable | pruneExpired
  | revokeSession | closePmlc | addStablecoinMint | removeStablecoinMint => []

/-- The bytes that may follow the arguments: the number of pairs, which nothing reads; any byte that says
whether to pause; and anything at all after a tag that has no arguments. -/
def Trails : Instruction → List UInt8 → Prop
  | setGlobalPause paused, rest => ∃ b : UInt8, rest = [b] ∧ (b ≠ 0 ↔ paused = true)
  | postIntent _, rest | postIntentDelegated _, rest | matchBestAvailable, rest => rest.length = 1
  | pauseInstrument, _ | resumeInstrument, _ | createMarginAccount, _ | pruneExpired, _ | revokeSession, _
  | closePmlc, _ | addStablecoinMint, _ | removeStablecoinMint, _ => True
  | _, rest => rest = []

/-- An encoding of the instruction: the tag, the arguments and what may follow them. -/
def pack (i : Instruction) (rest : List UInt8) : List UInt8 := i.tag.toByte :: (i.arguments ++ rest)

end Instruction

/-! ### What is accepted -/

section Accepted

variable {α : Type} {c : Codec α} {payload rest : List UInt8} {i : Instruction}

theorem serialize_u8 (v : UInt8) : u8.serialize v = [v] := by
  have same : UInt8.ofNat v.toNat = v := UInt8.ofNat_toNat
  change [UInt8.ofNat v.toNat] = [v]
  rw [same]

theorem valid_keys {keys : List Pubkey} : pubkey.vec.Valid keys ↔ KeysFit keys := valid_vec

/-- Every machine word can be written, so only the number of words counts. -/
theorem valid_words (all : ∀ a, c.Valid a) {l : List α} : c.vec.Valid l ↔ l.length < 2 ^ 32 := by
  rw [valid_vec]
  constructor
  · exact And.left
  · intro length
    exact ⟨length, fun a _ => all a⟩

theorem valid_bucketRegistryArgs {args : BucketRegistryArgs} :
    bucketRegistryArgs.Valid args ↔ args.leverageBps.length < 2 ^ 32 ∧ args.collateralBuckets.length < 2 ^ 32 :=
  and_congr (valid_words fun _ => trivial) (valid_words fun _ => trivial)

theorem valid_createSessionArgs {args : CreateSessionArgs} :
    createSessionArgs.Valid args ↔ args.delegate.IsBytes ∧ KeysFit args.allowedInstruments := by
  constructor
  · rintro ⟨delegate, -, -, -, keys⟩
    exact ⟨delegate, valid_keys.mp keys⟩
  · rintro ⟨delegate, keys⟩
    exact ⟨delegate, trivial, trivial, trivial, valid_keys.mpr keys⟩

theorem valid_feeTiers (tiers : FeeTierArgs) : feeTiers.Valid tiers := fun _ _ => ⟨trivial, trivial⟩

/-- A payload that is nothing but arguments. -/
theorem decode_map_eq_some {f : α → Instruction} :
    (c.decode payload).map f = some i ↔ ∃ a, c.Valid a ∧ payload = c.serialize a ∧ f a = i := by
  simp only [Option.map_eq_some_iff, c.decode_eq_some, and_assoc]

theorem decode_map_serialize {f : α → Instruction} {a : α} (valid : c.Valid a) :
    (c.decode (c.serialize a ++ [])).map f = some (f a) := by
  rw [List.append_nil, c.decode_serialize valid]
  rfl

/-- A payload of arguments and one byte that nothing reads. -/
theorem decode_map_fst_eq_some {f : α → Instruction} :
    ((c.prod u8).decode payload).map (fun p => f p.1) = some i ↔
      ∃ a, c.Valid a ∧ (∃ rest, rest.length = 1 ∧ payload = c.serialize a ++ rest) ∧ f a = i := by
  rw [decode_map_eq_some]
  constructor
  · rintro ⟨⟨a, b⟩, ⟨valid, -⟩, rfl, same⟩
    exact ⟨a, valid, ⟨u8.serialize b, by rw [serialize_u8]; rfl, rfl⟩, same⟩
  · rintro ⟨a, valid, ⟨rest, length, rfl⟩, same⟩
    obtain ⟨b, rfl⟩ := List.length_eq_one_iff.mp length
    refine ⟨(a, b), ⟨valid, trivial⟩, ?_, same⟩
    rw [← serialize_u8 b]
    rfl

end Accepted

/-- What a payload decodes to can be sent, and the payload is its arguments and what may follow. -/
theorem sendable_of_decode {tag : InstructionTag} {payload : List UInt8} {i : Instruction}
    (read : tag.decode payload = some i) :
    i.tag = tag ∧ i.Sendable ∧ ∃ rest, i.Trails rest ∧ payload = i.arguments ++ rest := by
  have whole (bytes : List UInt8) : bytes = bytes ++ [] := (List.append_nil bytes).symm
  cases tag with
  | setGlobalPause =>
    simp only [InstructionTag.decode] at read
    split at read
    next b =>
      cases read
      exact ⟨rfl, trivial, [b], ⟨b, rfl, by simp⟩, rfl⟩
    · cases read
  | pauseInstrument | resumeInstrument | createMarginAccount | pruneExpired | revokeSession | closePmlc
  | addStablecoinMint | removeStablecoinMint =>
    cases read
    exact ⟨rfl, trivial, payload, trivial, rfl⟩
  | postIntent | postIntentDelegated =>
    obtain ⟨args, -, ⟨rest, length, rfl⟩, rfl⟩ := decode_map_fst_eq_some.mp read
    exact ⟨rfl, trivial, rest, length, rfl⟩
  | matchBestAvailable =>
    obtain ⟨b, -, rfl, rfl⟩ := decode_map_eq_some.mp read
    exact ⟨rfl, trivial, u8.serialize b, by rw [serialize_u8]; rfl, rfl⟩
  | initProgramConfig =>
    obtain ⟨args, ⟨signer, -⟩, rfl, rfl⟩ := decode_map_eq_some.mp read
    exact ⟨rfl, signer, [], rfl, whole _⟩
  | proposeSetAttestationSigner =>
    obtain ⟨args, ⟨-, signer⟩, rfl, rfl⟩ := decode_map_eq_some.mp read
    exact ⟨rfl, signer, [], rfl, whole _⟩
  | createInstrument =>
    obtain ⟨args, ⟨-, market, first, second, -⟩, rfl, rfl⟩ := decode_map_eq_some.mp read
    exact ⟨rfl, ⟨market, first, second⟩, [], rfl, whole _⟩
  | createSession =>
    obtain ⟨args, valid, rfl, rfl⟩ := decode_map_eq_some.mp read
    exact ⟨rfl, valid_createSessionArgs.mp valid, [], rfl, whole _⟩
  | initAdminMultisig | rotateAdminMultisig | initStablecoinRegistry =>
    obtain ⟨args, ⟨-, keys⟩, rfl, rfl⟩ := decode_map_eq_some.mp read
    exact ⟨rfl, valid_keys.mp keys, [], rfl, whole _⟩
  | initBucketRegistry | setBucketRegistry =>
    obtain ⟨args, valid, rfl, rfl⟩ := decode_map_eq_some.mp read
    exact ⟨rfl, valid_bucketRegistryArgs.mp valid, [], rfl, whole _⟩
  | expandIntentBook | deposit | withdraw | cancelIntent | matchPair | cancelIntentDelegated | liquidate | resolve
  | closeMutual | claimReentry | novate | matchSubstitute | matchSubstituteWithSettle | initFeeSchedule
  | setFeeSchedule | sweepFees | executeSetAttestationSigner | cancelTimelockProposal | wrapStablecoin
  | unwrapStablecoin =>
    obtain ⟨args, -, rfl, rfl⟩ := decode_map_eq_some.mp read
    exact ⟨rfl, trivial, [], rfl, whole _⟩

/-- The arguments of an instruction that can be sent are read back, whatever follows them. -/
theorem decode_arguments {i : Instruction} {rest : List UInt8} (sendable : i.Sendable) (trails : i.Trails rest) :
    i.tag.decode (i.arguments ++ rest) = some i := by
  cases i with
  | setGlobalPause paused =>
    obtain ⟨b, rfl, means⟩ := trails
    have same : decide (b ≠ 0) = paused := by
      rw [Bool.eq_iff_iff, decide_eq_true_iff]
      exact means
    exact congrArg (fun p => some (Instruction.setGlobalPause p)) same
  | pauseInstrument | resumeInstrument | createMarginAccount | pruneExpired | revokeSession | closePmlc
  | addStablecoinMint | removeStablecoinMint => rfl
  | postIntent args =>
    exact decode_map_fst_eq_some.mpr ⟨args, ⟨trivial, trivial, trivial, trivial, trivial, trivial⟩, ⟨rest, trails, rfl⟩, rfl⟩
  | postIntentDelegated args =>
    exact decode_map_fst_eq_some.mpr ⟨args, ⟨trivial, trivial, trivial, trivial, trivial, trivial⟩, ⟨rest, trails, rfl⟩, rfl⟩
  | matchBestAvailable =>
    obtain ⟨b, rfl⟩ := List.length_eq_one_iff.mp trails
    have read : u8.decode [b] = some b := u8.decode_eq_some.mpr ⟨trivial, (serialize_u8 b).symm⟩
    exact congrArg (Option.map fun _ => Instruction.matchBestAvailable) read
  | initProgramConfig args =>
    cases trails
    have valid : initProgramConfigArgs.Valid args := ⟨sendable, trivial⟩
    exact decode_map_serialize valid
  | proposeSetAttestationSigner args =>
    cases trails
    have valid : proposeSetAttestationSignerArgs.Valid args := ⟨trivial, sendable⟩
    exact decode_map_serialize valid
  | createInstrument args =>
    cases trails
    obtain ⟨market, first, second⟩ := sendable
    have valid : createInstrumentArgs.Valid args :=
      ⟨trivial, market, first, second, trivial, trivial, trivial, trivial, trivial, trivial, trivial, trivial, trivial⟩
    exact decode_map_serialize valid
  | createSession args =>
    cases trails
    exact decode_map_serialize (valid_createSessionArgs.mpr sendable)
  | initAdminMultisig args | rotateAdminMultisig args | initStablecoinRegistry args =>
    cases trails
    apply decode_map_serialize
    exact ⟨trivial, valid_keys.mpr sendable⟩
  | initBucketRegistry args | setBucketRegistry args =>
    cases trails
    exact decode_map_serialize (valid_bucketRegistryArgs.mpr sendable)
  | initFeeSchedule tiers | setFeeSchedule tiers =>
    cases trails
    exact decode_map_serialize (valid_feeTiers tiers)
  | matchPair args | matchSubstitute args | matchSubstituteWithSettle args =>
    cases trails
    have valid : matchPairArgs.Valid args := ⟨trivial, trivial, trivial⟩
    exact decode_map_serialize valid
  | claimReentry args =>
    cases trails
    have valid : claimReentryArgs.Valid args := ⟨trivial, trivial⟩
    exact decode_map_serialize valid
  | deposit n | withdraw n | cancelIntent n | cancelIntentDelegated n | sweepFees n | executeSetAttestationSigner n
  | cancelTimelockProposal n | wrapStablecoin n | unwrapStablecoin n =>
    cases trails
    have valid : u64.Valid n := trivial
    exact decode_map_serialize valid
  | expandIntentBook n =>
    cases trails
    have valid : u32.Valid n := trivial
    exact decode_map_serialize valid
  | liquidate n | resolve n | closeMutual n | novate n =>
    cases trails
    have valid : u8.Valid n := trivial
    exact decode_map_serialize valid

/-- What the program reads can be sent, and the data is one of its encodings. -/
theorem sendable_of_unpack {data : List UInt8} {i : Instruction} (read : unpack data = .ok i) :
    i.Sendable ∧ ∃ rest, i.Trails rest ∧ data = i.pack rest := by
  cases data with
  | nil => cases read
  | cons tagByte payload =>
    simp only [unpack] at read
    cases tagged : InstructionTag.tryFrom tagByte with
    | error e =>
      rw [tagged] at read
      cases read
    | ok tag =>
      rw [tagged] at read
      cases decoded : tag.decode payload with
      | none =>
        simp only [bind, Except.bind, decoded] at read
        cases read
      | some j =>
        simp only [bind, Except.bind, decoded] at read
        cases read
        obtain ⟨rfl, sendable, rest, trails, rfl⟩ := sendable_of_decode decoded
        rw [InstructionTag.tryFrom_eq_ok.mp tagged]
        exact ⟨sendable, rest, trails, rfl⟩

/-- An encoding is read back. -/
theorem unpack_pack {i : Instruction} {rest : List UInt8} (sendable : i.Sendable) (trails : i.Trails rest) :
    unpack (i.pack rest) = .ok i := by
  simp only [Instruction.pack, unpack, InstructionTag.tryFrom_toByte, bind, Except.bind,
    decode_arguments sendable trails]

/-- The program reads an instruction out of exactly its encodings: the instructions it reads are the ones
whose arguments are in range, each is read back from every one of its encodings, and no other data is
taken for it. -/
theorem unpack_eq_ok {data : List UInt8} {i : Instruction} :
    unpack data = .ok i ↔ i.Sendable ∧ ∃ rest, i.Trails rest ∧ data = i.pack rest := by
  constructor
  · exact sendable_of_unpack
  · rintro ⟨sendable, rest, trails, rfl⟩
    exact unpack_pack sendable trails

/-- Data is refused for a byte that is no tag, or for its payload. -/
theorem unpack_eq_error {data : List UInt8} {e : EntryError} :
    unpack data = .error e ↔
      (e = .unsupportedInstruction ∧ ∃ b rest, data = b :: rest ∧ ∀ tag : InstructionTag, b ≠ tag.toByte) ∨
      (e = .program PolyleverageError.invalidInstructionData ∧
        (data = [] ∨ ∃ (tag : InstructionTag) (payload : _), data = tag.toByte :: payload ∧ tag.decode payload = none)) := by
  cases data with
  | nil =>
    constructor
    · intro refused
      cases refused
      exact .inr ⟨rfl, .inl rfl⟩
    · rintro (⟨-, b, rest, impossible, -⟩ | ⟨rfl, -⟩)
      · cases impossible
      · rfl
  | cons b rest =>
    cases tagged : InstructionTag.tryFrom b with
    | ok tag =>
      obtain rfl := InstructionTag.tryFrom_eq_ok.mp tagged
      cases decoded : tag.decode rest with
      | none =>
        simp only [unpack, tagged, bind, Except.bind, decoded, Except.error.injEq]
        constructor
        · rintro rfl
          exact .inr ⟨rfl, .inr ⟨tag, rest, rfl, decoded⟩⟩
        · rintro (⟨-, b, rest', same, none⟩ | ⟨rfl, -⟩)
          · cases same
            exact absurd rfl (none tag)
          · rfl
      | some i =>
        simp only [unpack, tagged, bind, Except.bind, decoded, reduceCtorEq, false_iff]
        rintro (⟨-, b, rest', same, none⟩ | ⟨-, empty | ⟨tag', payload, same, refused⟩⟩)
        · cases same
          exact none tag rfl
        · cases empty
        · obtain ⟨byte, rfl⟩ := List.cons.inj same
          rw [byte, InstructionTag.tryFrom_toByte] at tagged
          cases tagged
          rw [refused] at decoded
          cases decoded
    | error e' =>
      have unknown (tag : InstructionTag) : b ≠ tag.toByte := by
        rintro rfl
        rw [InstructionTag.tryFrom_toByte] at tagged
        cases tagged
      have only : e' = .unsupportedInstruction := by
        unfold InstructionTag.tryFrom at tagged
        split at tagged <;> cases tagged
        rfl
      subst only
      simp only [unpack, tagged, bind, Except.bind, Except.error.injEq]
      constructor
      · rintro rfl
        exact .inl ⟨rfl, b, rest, rfl, unknown⟩
      · rintro (⟨rfl, -⟩ | ⟨-, empty | ⟨tag, payload, same, -⟩⟩)
        · rfl
        · cases empty
        · exact absurd (List.cons.inj same).1 (unknown tag)

/-- Two instructions with an encoding in common are one instruction. -/
theorem Instruction.pack_injective {i j : Instruction} {rest rest' : List UInt8} (sendable : i.Sendable)
    (sendable' : j.Sendable) (trails : i.Trails rest) (trails' : j.Trails rest') (same : i.pack rest = j.pack rest') :
    i = j := by
  have read : unpack (i.pack rest) = .ok i := unpack_pack sendable trails
  have read' : unpack (j.pack rest') = .ok j := unpack_pack sendable' trails'
  rw [same, read'] at read
  exact (Except.ok.inj read).symm

/-- Every instruction has bytes that may follow its arguments. -/
theorem Instruction.exists_trails (i : Instruction) : ∃ rest, i.Trails rest := by
  cases i with
  | setGlobalPause paused =>
    cases paused with
    | false => exact ⟨[0], 0, rfl, by simp⟩
    | true => exact ⟨[1], 1, rfl, by simp⟩
  | postIntent _ | postIntentDelegated _ | matchBestAvailable => exact ⟨[0], rfl⟩
  | pauseInstrument | resumeInstrument | createMarginAccount | pruneExpired | revokeSession | closePmlc
  | addStablecoinMint | removeStablecoinMint => exact ⟨[], trivial⟩
  | _ => exact ⟨[], rfl⟩

/-! ### Calls by their data -/

section Entry

variable {rt : Runtime} {allowed : Instruction → Prop}

theorem EntryCall.execute_of_ok {c : EntryCall rt} {i : Instruction} (read : unpack c.data = .ok i) (s : Ledger) :
    c.execute s = Polyleverage.execute rt ⟨c.inv, i⟩ s := by
  simp only [EntryCall.execute, programEntry, Exec.run, read, Polyleverage.execute]
  cases process rt c.inv i s <;> rfl

theorem EntryCall.execute_of_error {c : EntryCall rt} {e : EntryError} (read : unpack c.data = .error e) (s : Ledger) :
    c.execute s = s := by
  simp only [EntryCall.execute, programEntry, Exec.run, read]

variable (rt) in
/-- The ledgers that byte strings lead to, when all instructions among them are of some kind. -/
inductive EntryReachable (allowed : Instruction → Prop) : Ledger → Prop where
  | genesis {s : Ledger} : Genesis rt s → EntryReachable allowed s
  | call {s : Ledger} (c : EntryCall rt) :
    EntryReachable allowed s → (∀ i, unpack c.data = .ok i → allowed i) → EntryReachable allowed (c.execute s)

/-- Calling the program with arbitrary data leads to exactly the ledgers that calling it with instructions
in range does. -/
theorem entryReachable_iff {s : Ledger} :
    EntryReachable rt allowed s ↔ Reachable rt (fun i => i.Sendable ∧ allowed i) s := by
  constructor
  · intro reached
    induction reached with
    | genesis gen => exact .genesis gen
    | call c _ may ih =>
      cases read : unpack c.data with
      | error e => rwa [EntryCall.execute_of_error read]
      | ok i =>
        rw [EntryCall.execute_of_ok read]
        exact .call _ ih ⟨(sendable_of_unpack read).1, may i read⟩
  · intro reached
    induction reached with
    | genesis gen => exact .genesis gen
    | @call s c _ may ih =>
      obtain ⟨inv, i⟩ := c
      obtain ⟨sendable, kind⟩ := may
      obtain ⟨rest, trails⟩ := i.exists_trails
      have read : unpack (i.pack rest) = .ok i := unpack_pack sendable trails
      have only : ∀ j, unpack (i.pack rest) = .ok j → allowed j := by
        intro j read'
        rw [read] at read'
        cases read'
        exact kind
      have step : EntryReachable rt allowed (EntryCall.execute ⟨inv, i.pack rest⟩ s) := .call _ ih only
      rwa [EntryCall.execute_of_ok (i := i) read] at step

end Entry

end Polyleverage
