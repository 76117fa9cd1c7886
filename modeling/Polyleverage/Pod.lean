import Polyleverage.Codec.Records
import Polyleverage.Wire

/-! # Accounts as bytes

An account of the program is a record with a fixed layout: a discriminator, the fields one after the other
and reserved bytes. Nobody writes what is padding or reserved, so it stays zero, and so do the cells of an
array from its count on. A book is a header and as many slots as there is room for.
-/

namespace Polyleverage

open Codec

/-- A record that is the whole data of an account, with the error for data that is something else. -/
structure Pod (τ : Type) where
  size : ℕ
  discriminator : UInt8
  missing : PolyleverageError
  /-- What follows the discriminator. -/
  fields : Codec τ
  sized : ∀ a, fields.Valid a → (fields.serialize a).length + 1 = size

namespace Pod

variable {τ : Type}

def image (p : Pod τ) (a : τ) : List UInt8 := p.discriminator :: p.fields.serialize a

/-- The length is checked before the discriminator. There is no record if bytes that nobody writes are not
zero. -/
def load (p : Pod τ) (bytes : List UInt8) : Except ProgramError (Option τ) :=
  if bytes.length ≠ p.size then .error PolyleverageError.accountDataTooSmall
  else if bytes.head? ≠ some p.discriminator then .error p.missing
  else .ok (p.fields.decode bytes.tail)

end Pod

/-! ### The program and its administration -/

def ProgramConfig.fields : Codec ProgramConfig :=
  ((word 1).prod (((word 1).padded 5).prod (pubkey.prod (pubkey.prod (pubkey.prod ((word 8).padded 64)))))).imap
    { toFun := fun p => ⟨p.1, p.2.1, p.2.2.1, p.2.2.2.1, p.2.2.2.2.1, p.2.2.2.2.2⟩
      invFun := fun c =>
        (c.globalPause, c.bump, c.admin, c.feeTreasuryAuthority, c.attestationSigner, c.defaultMaxStalenessSecs)
      left_inv := fun _ => rfl
      right_inv := fun _ => rfl }

/-- The payload of a proposal is a new signer and as many bytes again. -/
def TimelockProposal.fields : Codec TimelockProposal :=
  ((word 1).prod ((word 1).prod (((word 1).padded 4).prod ((word 8).prod (pubkey.prod ((pubkey.padded 32).prod
    ((word 8).prod (i64.prod (i64.padded 32))))))))).imap
    { toFun := fun p =>
        { kind := p.1
          status := p.2.1
          bump := p.2.2.1
          proposalId := p.2.2.2.1
          proposer := p.2.2.2.2.1
          newSigner := p.2.2.2.2.2.1
          proposedSlot := p.2.2.2.2.2.2.1
          proposedUnixTs := p.2.2.2.2.2.2.2.1
          executableAfterUnixTs := p.2.2.2.2.2.2.2.2 }
      invFun := fun p =>
        (p.kind, p.status, p.bump, p.proposalId, p.proposer, p.newSigner, p.proposedSlot, p.proposedUnixTs,
          p.executableAfterUnixTs)
      left_inv := fun _ => rfl
      right_inv := fun _ => rfl }

/-- The keys of an account, behind their count and some fields. -/
def countedKeys {α : Type} (cells : ℕ) (middle : Codec α) : Codec (α × List Pubkey) :=
  (word 1).keyed (fun p => p.2.length) (fun n => middle.prod ((pubkey.cells 32 cells n).padded 64))
    (fun _ _ valid => (valid_cells.mp valid.2).2.1)

def AdminMultisig.fields : Codec AdminMultisig :=
  ((word 1).prod ((word 1).prod (countedKeys MAX_MULTISIG_SIGNERS (fixed (zeros 4) (pubkey.prod (word 8)))))).imap
    { toFun := fun p => ⟨p.1, p.2.1, p.2.2.1.1, p.2.2.1.2, p.2.2.2⟩
      invFun := fun ms => (ms.bump, ms.threshold, (ms.bootstrapAdmin, ms.version), ms.signers)
      left_inv := fun _ => rfl
      right_inv := fun _ => rfl }

def BucketRegistry.fields : Codec BucketRegistry :=
  ((word 1).prod (((word 1).prod (word 1)).keyed (fun p => (p.2.1.length, p.2.2.length))
    (fun n => (fixed (zeros 4) (word 8)).prod (((word 4).cells 4 MAX_LEVERAGE_SLOTS n.1).prod
      (((word 8).cells 8 MAX_COLLATERAL_SLOTS n.2).padded 64)))
    (fun _ _ valid => Prod.ext (valid_cells.mp valid.2.1).2.1 (valid_cells.mp valid.2.2).2.1))).imap
    { toFun := fun p => ⟨p.1, p.2.1, p.2.2.1, p.2.2.2⟩
      invFun := fun r => (r.bump, r.version, r.leverageBps, r.collateralBuckets)
      left_inv := fun _ => rfl
      right_inv := fun _ => rfl }

def StablecoinRegistry.fields : Codec StablecoinRegistry :=
  ((word 1).prod (countedKeys MAX_STABLECOIN_SLOTS (((word 1).padded 4).prod (pubkey.prod (word 8))))).imap
    { toFun := fun p => ⟨p.1, p.2.1.1, p.2.1.2.1, p.2.1.2.2, p.2.2⟩
      invFun := fun r => (r.bump, (r.wusdDecimals, r.wusdMint, r.version), r.mints)
      left_inv := fun _ => rfl
      right_inv := fun _ => rfl }

def Session.fields : Codec Session :=
  ((word 1).prod ((word 1).prod (countedKeys MAX_SESSION_INSTRUMENTS (fixed (zeros 4) (pubkey.prod (pubkey.prod
    ((word 8).prod ((word 8).prod ((word 8).prod ((word 8).prod ((word 8).prod (word 8)))))))))))).imap
    { toFun := fun p =>
        { bump := p.1
          revoked := p.2.1
          owner := p.2.2.1.1
          delegate := p.2.2.1.2.1
          expiresAtSlot := p.2.2.1.2.2.1
          perIntentMaxCollateralAtoms := p.2.2.1.2.2.2.1
          cumulativeCollateralUsed := p.2.2.1.2.2.2.2.1
          cumulativeCollateralCap := p.2.2.1.2.2.2.2.2.1
          createdAtSlot := p.2.2.1.2.2.2.2.2.2.1
          version := p.2.2.1.2.2.2.2.2.2.2
          allowedInstruments := p.2.2.2 }
      invFun := fun s =>
        (s.bump, s.revoked, (s.owner, s.delegate, s.expiresAtSlot, s.perIntentMaxCollateralAtoms,
          s.cumulativeCollateralUsed, s.cumulativeCollateralCap, s.createdAtSlot, s.version), s.allowedInstruments)
      left_inv := fun _ => rfl
      right_inv := fun _ => rfl }

/-! ### Traders, fees and markets -/

/-- The flags of a margin account are never set. -/
def MarginAccount.fields : Codec MarginAccount :=
  (((word 1).padded 6).prod (pubkey.prod (pubkey.prod ((word 8).prod ((word 8).prod ((word 8).prod
    (i64.padded (8 + 32)))))))).imap
    { toFun := fun p => ⟨p.1, p.2.1, p.2.2.1, p.2.2.2.1, p.2.2.2.2.1, p.2.2.2.2.2.1, p.2.2.2.2.2.2⟩
      invFun := fun m =>
        (m.bump, m.owner, m.collateralMint, m.freeCollateral, m.reservedCollateral, m.lockedCollateral, m.realizedPnl)
      left_inv := fun _ => rfl
      right_inv := fun _ => rfl }

def FeeTierRaw.fields : Codec FeeTierRaw :=
  ((word 8).prod ((word 2).padded 6)).imap
    { toFun := fun p => ⟨p.1, p.2⟩
      invFun := fun t => (t.volumeThreshold, t.feeBps)
      left_inv := fun _ => rfl
      right_inv := fun _ => rfl }

def FeeSchedule.fields : Codec FeeSchedule :=
  (((word 1).padded 6).prod ((array FEE_SCHEDULE_MAX_TIERS FeeTierRaw.fields).prod (((word 2).padded 6).prod
    ((word 8).padded 32)))).imap
    { toFun := fun p => ⟨p.1, p.2.1, p.2.2.1, p.2.2.2⟩
      invFun := fun s => (s.bump, s.tiers, s.maxTierFeeBps, s.lastUpdatedSlot)
      left_inv := fun _ => rfl
      right_inv := fun _ => rfl }

def UserVolume.fields : Codec UserVolume :=
  (((word 1).padded 6).prod (pubkey.prod (pubkey.prod ((word 8).prod ((word 8).prod ((word 8).prod
    ((word 8).padded 32))))))).imap
    { toFun := fun p => ⟨p.1, p.2.1, p.2.2.1, p.2.2.2.1, p.2.2.2.2.1, p.2.2.2.2.2.1, p.2.2.2.2.2.2⟩
      invFun := fun v =>
        (v.bump, v.owner, v.collateralMint, v.volumeCurrentAtoms, v.volumePrevAtoms, v.epochStartSlot,
          v.epochLengthSlots)
      left_inv := fun _ => rfl
      right_inv := fun _ => rfl }

def FeeTreasury.fields : Codec FeeTreasury :=
  (((word 1).padded 6).prod (pubkey.prod ((word 8).prod ((word 8).padded 32)))).imap
    { toFun := fun p => ⟨p.1, p.2.1, p.2.2.1, p.2.2.2⟩
      invFun := fun t => (t.bump, t.collateralMint, t.accruedAtoms, t.totalSweptAtoms)
      left_inv := fun _ => rfl
      right_inv := fun _ => rfl }

def InstrumentConfig.fields : Codec InstrumentConfig :=
  ((word 1).prod ((word 1).prod (((word 1).padded 4).prod (bytes32.prod (bytes32.prod (bytes32.prod (pubkey.prod
    (pubkey.prod (((word 4).padded 4).prod ((word 8).prod ((word 8).prod ((word 8).prod ((word 4).prod
      (((word 2).padded 2).prod ((word 8).prod ((word 8).padded 40)))))))))))))))).imap
    { toFun := fun p =>
        { status := p.1
          bump := p.2.1
          source := p.2.2.1
          marketId := p.2.2.2.1
          sourceTokenIdA := p.2.2.2.2.1
          sourceTokenIdB := p.2.2.2.2.2.1
          collateralMint := p.2.2.2.2.2.2.1
          intentBook := p.2.2.2.2.2.2.2.1
          leverageBps := p.2.2.2.2.2.2.2.2.1
          collateralBucket := p.2.2.2.2.2.2.2.2.2.1
          twapWindowSlots := p.2.2.2.2.2.2.2.2.2.2.1
          tickFp := p.2.2.2.2.2.2.2.2.2.2.2.1
          liquidationBps := p.2.2.2.2.2.2.2.2.2.2.2.2.1
          liquidationBountyBps := p.2.2.2.2.2.2.2.2.2.2.2.2.2.1
          maxStalenessSecs := p.2.2.2.2.2.2.2.2.2.2.2.2.2.2.1
          referenceUsd := p.2.2.2.2.2.2.2.2.2.2.2.2.2.2.2 }
      invFun := fun c =>
        (c.status, c.bump, c.source, c.marketId, c.sourceTokenIdA, c.sourceTokenIdB, c.collateralMint, c.intentBook,
          c.leverageBps, c.collateralBucket, c.twapWindowSlots, c.tickFp, c.liquidationBps, c.liquidationBountyBps,
          c.maxStalenessSecs, c.referenceUsd)
      left_inv := fun _ => rfl
      right_inv := fun _ => rfl }

def Pmlc.fields : Codec Pmlc :=
  ((word 1).prod ((word 1).prod ((word 1).prod (((word 1).padded 3).prod ((word 8).prod (pubkey.prod (pubkey.prod
    (bytes32.prod (pubkey.prod (pubkey.prod ((word 8).prod (((word 4).padded 4).prod ((word 8).prod ((word 8).prod
      ((word 8).prod ((word 8).prod ((word 8).prod ((word 8).prod ((word 8).prod
        ((word 8).padded 48)))))))))))))))))))).imap
    { toFun := fun p =>
        { status := p.1
          closeReason := p.2.1
          flags := p.2.2.1
          bump := p.2.2.2.1
          id := p.2.2.2.2.1
          instrument := p.2.2.2.2.2.1
          collateralMint := p.2.2.2.2.2.2.1
          marketId := p.2.2.2.2.2.2.2.1
          longOwner := p.2.2.2.2.2.2.2.2.1
          shortOwner := p.2.2.2.2.2.2.2.2.2.1
          collateralPerSide := p.2.2.2.2.2.2.2.2.2.2.1
          leverageBps := p.2.2.2.2.2.2.2.2.2.2.2.1
          entryPriceFp := p.2.2.2.2.2.2.2.2.2.2.2.2.1
          notionalAtoms := p.2.2.2.2.2.2.2.2.2.2.2.2.2.1
          sizeFpLo := p.2.2.2.2.2.2.2.2.2.2.2.2.2.2.1
          sizeFpHi := p.2.2.2.2.2.2.2.2.2.2.2.2.2.2.2.1
          openedSlot := p.2.2.2.2.2.2.2.2.2.2.2.2.2.2.2.2.1
          lastMarkSlot := p.2.2.2.2.2.2.2.2.2.2.2.2.2.2.2.2.2.1
          longReentryPriceFp := p.2.2.2.2.2.2.2.2.2.2.2.2.2.2.2.2.2.2.1
          shortReentryPriceFp := p.2.2.2.2.2.2.2.2.2.2.2.2.2.2.2.2.2.2.2 }
      invFun := fun p =>
        (p.status, p.closeReason, p.flags, p.bump, p.id, p.instrument, p.collateralMint, p.marketId, p.longOwner,
          p.shortOwner, p.collateralPerSide, p.leverageBps, p.entryPriceFp, p.notionalAtoms, p.sizeFpLo, p.sizeFpHi,
          p.openedSlot, p.lastMarkSlot, p.longReentryPriceFp, p.shortReentryPriceFp)
      left_inv := fun _ => rfl
      right_inv := fun _ => rfl }

def MarketNonceAccount.fields : Codec MarketNonceAccount :=
  ((word 1).prod (((word 1).padded 5).prod (bytes32.prod ((word 8).prod ((word 8).prod ((word 8).prod
    ((word 2).padded (6 + 32)))))))).imap
    { toFun := fun p => ⟨p.1, p.2.1, p.2.2.1, p.2.2.2.1, p.2.2.2.2.1, p.2.2.2.2.2.1, p.2.2.2.2.2.2⟩
      invFun := fun n =>
        (n.isResolved, n.bump, n.marketId, n.lastAcceptedCreNonce, n.lastAcceptedTwapFp, n.lastAcceptedTs,
          n.finalOutcomeBps)
      left_inv := fun _ => rfl
      right_inv := fun _ => rfl }

/-! ### Books -/

def rbColor : Codec RedBlack.Color :=
  choice (fun c => match c with | .red => 0 | .black => 1)
    (fun b => if b = 0 then some .red else if b = 1 then some .black else none)
    (by
      intro b c
      cases c <;> split <;> simp_all)

def IntentNode.fields : Codec IntentNode :=
  ((word 1).prod (rbColor.prod ((word 1).prod ((word 4).prod ((word 4).prod (((word 4).padded 8).prod
    (((word 8).padded 16).prod ((word 8).prod ((word 4).prod ((word 2).prod ((word 2).prod ((word 8).prod
      ((word 8).prod ((word 8).prod (word 8))))))))))))))).imap
    { toFun := fun p =>
        { side := p.1
          color := p.2.1
          flags := p.2.2.1
          left := p.2.2.2.1
          right := p.2.2.2.2.1
          parent := p.2.2.2.2.2.1
          priceFp := p.2.2.2.2.2.2.1
          id := p.2.2.2.2.2.2.2.1
          ownerSeat := p.2.2.2.2.2.2.2.2.1
          contractsTotal := p.2.2.2.2.2.2.2.2.2.1
          contractsRemaining := p.2.2.2.2.2.2.2.2.2.2.1
          expirationSlot := p.2.2.2.2.2.2.2.2.2.2.2.1
          postSeq := p.2.2.2.2.2.2.2.2.2.2.2.2.1
          reservedCollateral := p.2.2.2.2.2.2.2.2.2.2.2.2.2.1
          feeBuffer := p.2.2.2.2.2.2.2.2.2.2.2.2.2.2 }
      invFun := fun node =>
        (node.side, node.color, node.flags, node.left, node.right, node.parent, node.priceFp, node.id, node.ownerSeat,
          node.contractsTotal, node.contractsRemaining, node.expirationSlot, node.postSeq, node.reservedCollateral,
          node.feeBuffer)
      left_inv := fun _ => rfl
      right_inv := fun _ => rfl }

/-- The flags of a seat are never set. -/
def SeatNode.fields : Codec SeatNode :=
  ((rbColor.padded 2).prod ((word 4).prod ((word 4).prod (((word 4).padded 4).prod (pubkey.prod
    ((word 4).padded (4 + 36))))))).imap
    { toFun := fun p => ⟨p.1, p.2.1, p.2.2.1, p.2.2.2.1, p.2.2.2.2.1, p.2.2.2.2.2⟩
      invFun := fun node => (node.color, node.left, node.right, node.parent, node.trader, node.activeIntentCount)
      left_inv := fun _ => rfl
      right_inv := fun _ => rfl }

namespace RawNode

def tag : RawNode → ℕ
  | free _ => 0
  | intent _ => 1
  | seat _ => 2

/-- The number of a free slot's successor, behind the tag. -/
def freeFields : Codec ℕ := fixed (zeros 3) ((word 4).padded 88)

/-- What a slot with this tag holds. -/
def fields : ℕ → Codec RawNode
  | 0 => freeFields.along free (fun node => match node with | free next => some next | _ => none)
      (by
        rintro (next | node | node) n <;> simp)
  | 1 => IntentNode.fields.along intent (fun node => match node with | intent node => some node | _ => none)
      (by
        rintro (next | node | node) n <;> simp)
  | 2 => SeatNode.fields.along seat (fun node => match node with | seat node => some node | _ => none)
      (by
        rintro (next | node | node) n <;> simp)
  | _ + 3 => void

theorem tag_of_valid (t : ℕ) (node : RawNode) (valid : (fields t).Valid node) : node.tag = t := by
  match t, valid with
  | 0, ⟨_, same, _⟩ => rw [same]; rfl
  | 1, ⟨_, same, _⟩ => rw [same]; rfl
  | 2, ⟨_, same, _⟩ => rw [same]; rfl

/-- A slot: its tag and what it holds. -/
def layout : Codec RawNode := (word 1).keyed tag fields tag_of_valid

end RawNode

def IntentBookHeader.fields : Codec IntentBookHeader :=
  (((word 1).padded 6).prod (pubkey.prod ((word 4).prod ((word 4).prod ((word 4).prod ((word 4).prod ((word 4).prod
    ((word 4).prod ((word 8).prod ((word 8).prod ((word 2).padded (6 + 32)))))))))))).imap
    { toFun := fun p =>
        { bump := p.1
          instrument := p.2.1
          longTreeRoot := p.2.2.1
          shortTreeRoot := p.2.2.2.1
          seatTreeRoot := p.2.2.2.2.1
          freelistHead := p.2.2.2.2.2.1
          nodeCount := p.2.2.2.2.2.2.1
          capacity := p.2.2.2.2.2.2.2.1
          nextIntentId := p.2.2.2.2.2.2.2.2.1
          nextSeq := p.2.2.2.2.2.2.2.2.2.1
          cachedMaxFeeBps := p.2.2.2.2.2.2.2.2.2.2 }
      invFun := fun h =>
        (h.bump, h.instrument, h.longTreeRoot, h.shortTreeRoot, h.seatTreeRoot, h.freelistHead, h.nodeCount, h.capacity,
          h.nextIntentId, h.nextSeq, h.cachedMaxFeeBps)
      left_inv := fun _ => rfl
      right_inv := fun _ => rfl }

namespace IntentBook

/-- The header without its discriminator, and as many slots as given. -/
def fields (slots : ℕ) : Codec IntentBook :=
  (IntentBookHeader.fields.prod (RawNode.layout.many slots)).imap
    { toFun := fun p => ⟨p.1, p.2⟩
      invFun := fun b => (b.header, b.nodes)
      left_inv := fun _ => rfl
      right_inv := fun _ => rfl }

def discriminator : UInt8 := 4

def image (b : IntentBook) : List UInt8 := discriminator :: (fields b.nodes.length).serialize b

/-- The slots take what is behind the header, and have to take all of it. -/
def loadBytes (bytes : List UInt8) : Except ProgramError (Option IntentBook) :=
  if bytes.length < INTENT_BOOK_HEADER_LEN then .error PolyleverageError.accountDataTooSmall
  else if bytes.head? ≠ some discriminator then .error PolyleverageError.notInitialized
  else if (bytes.length - INTENT_BOOK_HEADER_LEN) % NODE_SIZE ≠ 0 then .error PolyleverageError.accountDataTooSmall
  else .ok ((fields ((bytes.length - INTENT_BOOK_HEADER_LEN) / NODE_SIZE)).decode bytes.tail)

end IntentBook

/-! ### Sizes -/

section Sizes

instance : Sized bytes32 32 where
  length v _ := by
    show (wordBytes 32 v).reverse.length = 32
    rw [List.length_reverse, length_wordBytes]

instance : Sized pubkey 32 := by
  unfold pubkey
  infer_instance

instance {α : Type} (cells : ℕ) (middle : Codec α) {n : ℕ} [Sized middle n] :
    Sized (countedKeys cells middle) (1 + (n + (cells * 32 + 64))) := by
  unfold countedKeys
  infer_instance

instance : Sized FeeTierRaw.fields 16 := by
  unfold FeeTierRaw.fields
  infer_instance

instance : Sized rbColor 1 := by
  unfold rbColor
  infer_instance

instance : Sized RawNode.freeFields 95 := by
  unfold RawNode.freeFields
  infer_instance

instance : Sized IntentNode.fields 95 := by
  unfold IntentNode.fields
  infer_instance

instance : Sized SeatNode.fields 95 := by
  unfold SeatNode.fields
  infer_instance

/-- Whatever its tag, a slot takes as many bytes. -/
instance (tag : ℕ) : Sized (RawNode.fields tag) 95 := by
  unfold RawNode.fields
  split
  · infer_instance
  · infer_instance
  · infer_instance
  · exact ⟨fun _ impossible => impossible.elim⟩

instance : Sized RawNode.layout NODE_SIZE := by
  unfold RawNode.layout
  infer_instance

instance : Sized IntentBookHeader.fields 119 := by
  unfold IntentBookHeader.fields
  infer_instance

instance (slots : ℕ) : Sized (IntentBook.fields slots) (119 + slots * NODE_SIZE) := by
  unfold IntentBook.fields
  infer_instance

theorem size_eq {τ : Type} {c : Codec τ} {n size : ℕ} [sized : Sized c n] (same : n + 1 = size) (a : τ)
    (valid : c.Valid a) :
    (c.serialize a).length + 1 = size := by
  rw [sized.length a valid, same]

end Sizes

/-! ### The accounts -/

def ProgramConfig.pod : Pod ProgramConfig where
  size := 176
  discriminator := 1
  missing := .invalidProgramConfig
  fields := ProgramConfig.fields
  sized := by
    unfold ProgramConfig.fields
    exact size_eq rfl

def MarginAccount.pod : Pod MarginAccount where
  size := 144
  discriminator := 2
  missing := .notInitialized
  fields := MarginAccount.fields
  sized := by
    unfold MarginAccount.fields
    exact size_eq rfl

def InstrumentConfig.pod : Pod InstrumentConfig where
  size := 264
  discriminator := 3
  missing := .notInitialized
  fields := InstrumentConfig.fields
  sized := by
    unfold InstrumentConfig.fields
    exact size_eq rfl

def Pmlc.pod : Pod Pmlc where
  size := 304
  discriminator := 5
  missing := .notInitialized
  fields := Pmlc.fields
  sized := by
    unfold Pmlc.fields
    exact size_eq rfl

def MarketNonceAccount.pod : Pod MarketNonceAccount where
  size := 104
  discriminator := 8
  missing := .notInitialized
  fields := MarketNonceAccount.fields
  sized := by
    unfold MarketNonceAccount.fields
    exact size_eq rfl

def FeeSchedule.pod : Pod FeeSchedule where
  size := 184
  discriminator := 10
  missing := .feeScheduleNotInitialized
  fields := FeeSchedule.fields
  sized := by
    unfold FeeSchedule.fields
    exact size_eq rfl

def UserVolume.pod : Pod UserVolume where
  size := 136
  discriminator := 11
  missing := .notInitialized
  fields := UserVolume.fields
  sized := by
    unfold UserVolume.fields
    exact size_eq rfl

def FeeTreasury.pod : Pod FeeTreasury where
  size := 88
  discriminator := 12
  missing := .notInitialized
  fields := FeeTreasury.fields
  sized := by
    unfold FeeTreasury.fields
    exact size_eq rfl

def TimelockProposal.pod : Pod TimelockProposal where
  size := 168
  discriminator := 13
  missing := .notInitialized
  fields := TimelockProposal.fields
  sized := by
    unfold TimelockProposal.fields
    exact size_eq rfl

def AdminMultisig.pod : Pod AdminMultisig where
  size := 624
  discriminator := 14
  missing := .notInitialized
  fields := AdminMultisig.fields
  sized := by
    unfold AdminMultisig.fields
    exact size_eq rfl

def BucketRegistry.pod : Pod BucketRegistry where
  size := 272
  discriminator := 15
  missing := .notInitialized
  fields := BucketRegistry.fields
  sized := by
    unfold BucketRegistry.fields
    exact size_eq rfl

def StablecoinRegistry.pod : Pod StablecoinRegistry where
  size := 624
  discriminator := 16
  missing := .notInitialized
  fields := StablecoinRegistry.fields
  sized := by
    unfold StablecoinRegistry.fields
    exact size_eq rfl

def Session.pod : Pod Session where
  size := 440
  discriminator := 17
  missing := .notInitialized
  fields := Session.fields
  sized := by
    unfold Session.fields
    exact size_eq rfl

/-- The bytes of an account. Tokens are laid out by another program. -/
def AccountData.image : AccountData → Option (List UInt8)
  | raw n => some (zeros n)
  | programConfig c => some (ProgramConfig.pod.image c)
  | marginAccount m => some (MarginAccount.pod.image m)
  | instrumentConfig c => some (InstrumentConfig.pod.image c)
  | intentBook b => some b.image
  | pmlc p => some (Pmlc.pod.image p)
  | marketNonce n => some (MarketNonceAccount.pod.image n)
  | feeSchedule s => some (FeeSchedule.pod.image s)
  | userVolume v => some (UserVolume.pod.image v)
  | feeTreasury t => some (FeeTreasury.pod.image t)
  | timelock p => some (TimelockProposal.pod.image p)
  | adminMultisig ms => some (AdminMultisig.pod.image ms)
  | bucketRegistry r => some (BucketRegistry.pod.image r)
  | stablecoinRegistry r => some (StablecoinRegistry.pod.image r)
  | session s => some (Session.pod.image s)
  | token _ | mint _ => none

end Polyleverage
