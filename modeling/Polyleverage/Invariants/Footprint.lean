import Polyleverage.Program

/-! # What an instruction may write

An account holds one kind of data. However a program ends, it writes only accounts of a few kinds and
leaves only a few kinds behind. The kinds of a composed program are found by instance search.
-/

namespace Polyleverage

open Machine

inductive AccountKind where
  | raw
  | programConfig
  | marginAccount
  | instrumentConfig
  | intentBook
  | pmlc
  | marketNonce
  | feeSchedule
  | userVolume
  | feeTreasury
  | timelock
  | adminMultisig
  | bucketRegistry
  | stablecoinRegistry
  | session
  | token
  | mint
  deriving DecidableEq

@[reducible] def AccountData.kind : AccountData → AccountKind
  | raw _ => .raw
  | programConfig _ => .programConfig
  | marginAccount _ => .marginAccount
  | instrumentConfig _ => .instrumentConfig
  | intentBook _ => .intentBook
  | pmlc _ => .pmlc
  | marketNonce _ => .marketNonce
  | feeSchedule _ => .feeSchedule
  | userVolume _ => .userVolume
  | feeTreasury _ => .feeTreasury
  | timelock _ => .timelock
  | adminMultisig _ => .adminMultisig
  | bucketRegistry _ => .bucketRegistry
  | stablecoinRegistry _ => .stablecoinRegistry
  | session _ => .session
  | token _ => .token
  | mint _ => .mint

/-- Every account is left alone, or it held one of the old kinds and holds one of the new kinds now. -/
def Touches (old new : List AccountKind) (s t : Ledger) : Prop :=
  ∀ k, t.get k = s.get k ∨ ((s.data k).kind ∈ old ∧ (t.data k).kind ∈ new)

section Touches

variable {old new : List AccountKind} {s t : Ledger} {k : Pubkey}

instance : Std.Refl (Touches old new) := ⟨fun _ _ => .inl rfl⟩

instance : IsTrans Ledger (Touches old new) where
  trans s t u first next k := by
    rcases first k with same | ⟨before, between⟩
    · rcases next k with same' | ⟨between, after⟩
      · exact .inl (same'.trans same)
      · rw [Ledger.data, same] at between
        exact .inr ⟨between, after⟩
    · rcases next k with same' | ⟨-, after⟩
      · rw [Ledger.data, ← same'] at between
        exact .inr ⟨before, between⟩
      · exact .inr ⟨before, after⟩

/-- An account that held another kind is left alone. -/
theorem Touches.get_eq (touches : Touches old new s t) (other : (s.data k).kind ∉ old) : t.get k = s.get k :=
  (touches k).resolve_right fun both => other both.1

/-- An account that holds another kind now was left alone. -/
theorem Touches.get_eq' (touches : Touches old new s t) (other : (t.data k).kind ∉ new) : t.get k = s.get k :=
  (touches k).resolve_right fun both => other both.2

theorem touches_setData {d : AccountData} (before : (s.data k).kind ∈ old) (after : d.kind ∈ new) :
    Touches old new s (s.setData k d) := by
  intro j
  by_cases here : j = k
  · subst here
    exact .inr ⟨before, by rwa [Ledger.data_setData_self]⟩
  · exact .inl (Ledger.get_setData_of_ne s d here)

theorem touches_set {a : Account} (before : (s.data k).kind ∈ old) (after : a.data.kind ∈ new) :
    Touches old new s (s.set k a) := by
  intro j
  by_cases here : j = k
  · subst here
    exact .inr ⟨before, by rwa [Ledger.data, Store.get_set_self]⟩
  · exact .inl (Store.get_set_of_ne s a here)

end Touches

/-! ### Kinds by instance search -/

class Includes (kind : AccountKind) (kinds : List AccountKind) : Prop where
  mem : kind ∈ kinds

instance (kind : AccountKind) (kinds : List AccountKind) : Includes kind (kind :: kinds) := ⟨List.mem_cons_self⟩

instance (kind other : AccountKind) (kinds : List AccountKind) [Includes kind kinds] : Includes kind (other :: kinds) :=
  ⟨List.mem_cons_of_mem other Includes.mem⟩

/-- A view of one kind of data. -/
class Views {τ : Type} (view : AccountData → Except ProgramError τ) (data : outParam (τ → AccountData))
    (kind : outParam AccountKind) : Prop where
  eq_data : ∀ {d x}, view d = .ok x ↔ d = data x
  kind_data : ∀ x, (data x).kind = kind

instance : Views AccountData.loadProgramConfig .programConfig .programConfig :=
  ⟨AccountData.loadProgramConfig_ok, fun _ => rfl⟩

instance : Views AccountData.loadMargin .marginAccount .marginAccount := ⟨AccountData.loadMargin_ok, fun _ => rfl⟩

instance : Views AccountData.loadInstrument .instrumentConfig .instrumentConfig :=
  ⟨AccountData.loadInstrument_ok, fun _ => rfl⟩

instance : Views AccountData.loadBook .intentBook .intentBook := ⟨AccountData.loadBook_ok, fun _ => rfl⟩

instance : Views AccountData.loadPmlc .pmlc .pmlc := ⟨AccountData.loadPmlc_ok, fun _ => rfl⟩

instance : Views AccountData.loadMarketNonce .marketNonce .marketNonce :=
  ⟨AccountData.loadMarketNonce_ok, fun _ => rfl⟩

instance : Views AccountData.loadFeeSchedule .feeSchedule .feeSchedule :=
  ⟨AccountData.loadFeeSchedule_ok, fun _ => rfl⟩

instance : Views AccountData.loadUserVolume .userVolume .userVolume :=
  ⟨AccountData.loadUserVolume_ok, fun _ => rfl⟩

instance : Views AccountData.loadFeeTreasury .feeTreasury .feeTreasury :=
  ⟨AccountData.loadFeeTreasury_ok, fun _ => rfl⟩

instance : Views AccountData.loadTimelock .timelock .timelock := ⟨AccountData.loadTimelock_ok, fun _ => rfl⟩

instance : Views AccountData.loadAdminMultisig .adminMultisig .adminMultisig :=
  ⟨AccountData.loadAdminMultisig_ok, fun _ => rfl⟩

instance : Views AccountData.loadBucketRegistry .bucketRegistry .bucketRegistry :=
  ⟨AccountData.loadBucketRegistry_ok, fun _ => rfl⟩

instance : Views AccountData.loadStablecoinRegistry .stablecoinRegistry .stablecoinRegistry :=
  ⟨AccountData.loadStablecoinRegistry_ok, fun _ => rfl⟩

instance : Views AccountData.loadSession .session .session := ⟨AccountData.loadSession_ok, fun _ => rfl⟩

/-- However the program ends, it touches only accounts of the old kinds and leaves the new kinds there. -/
class Within {α : Type} (old new : List AccountKind) (m : LedgerM α) : Prop where
  keeps : Exec.Keeps (Touches old new) m

section Programs

variable {old new : List AccountKind} {α β τ : Type} {rt : Runtime} {inv : rt.Invocation} {k : Pubkey}

instance (a : α) : Within old new (pure a) := ⟨Exec.keeps_pure a⟩

theorem within_bind {m : LedgerM α} {f : α → LedgerM β} (first : Within old new m)
    (next : ∀ a, Within old new (f a)) : Within old new (m >>= f) :=
  ⟨Exec.keeps_bind first.keeps fun a => (next a).keeps⟩

/-- However a sequence ends, what follows its first part keeps to its kinds. -/
theorem left_bind_within {m : LedgerM α} {f : α → LedgerM β} {s t : Ledger} (next : ∀ a, Within old new (f a))
    (left : t ∈ ((m >>= f).run s).state?) : ∃ mid, mid ∈ (m.run s).state? ∧ Touches old new mid t := by
  rcases Exec.left_bind left with ⟨e, failed⟩ | ⟨a, mid, ran, left⟩
  · exact ⟨t, by rw [failed]; rfl, Std.Refl.refl t⟩
  · exact ⟨mid, by rw [ran]; rfl, (next a).keeps _ t left⟩

instance (m : LedgerM α) (f : α → LedgerM β) [Within old new m] [∀ a, Within old new (f a)] : Within old new (m >>= f) :=
  within_bind inferInstance inferInstance

instance (condition : Prop) [Decidable condition] (m n : LedgerM α) [Within old new m] [Within old new n] :
    Within old new (if condition then m else n) := by
  split <;> infer_instance

instance (e : ProgramError) : Within old new (Exec.throw e : LedgerM α) := ⟨Exec.keeps_throw e⟩

instance : Within old new (Exec.get : LedgerM Ledger) := ⟨Exec.keeps_get⟩

instance (view : Ledger → Except ProgramError α) : Within old new (Exec.gets view) := ⟨Exec.keeps_gets view⟩

instance (condition : Prop) [Decidable condition] (e : ProgramError) : Within old new (Exec.rejectIf condition e) :=
  ⟨Exec.keeps_rejectIf condition e⟩

instance (condition : Prop) [Decidable condition] : Within old new (Exec.abortIf condition) :=
  ⟨Exec.keeps_abortIf condition⟩

instance (condition : Prop) [Decidable condition] (m : LedgerM Unit) [Within old new m] :
    Within old new (Exec.when condition m) := ⟨Exec.keeps_when fun _ => Within.keeps⟩

instance (value : Option α) (e : ProgramError) : Within old new (Exec.orErr value e) := ⟨Exec.keeps_orErr value e⟩

instance (value : Except ProgramError α) : Within old new (Exec.ofExcept value) := ⟨Exec.keeps_ofExcept value⟩

instance (m : LedgerM Unit) [Within old new m] : Within old new (Exec.swallow m) :=
  ⟨Exec.keeps_swallow Within.keeps⟩

instance : Within old new (assertSigner rt inv k) := inferInstanceAs (Within old new (Exec.rejectIf _ _))

instance : Within old new (assertWritable rt inv k) := inferInstanceAs (Within old new (Exec.rejectIf _ _))

instance : Within old new (assertSystemProgram k) := inferInstanceAs (Within old new (Exec.rejectIf _ _))

instance : Within old new (assertTokenProgram rt k) := inferInstanceAs (Within old new (Exec.rejectIf _ _))

instance (keys : List Pubkey) : Within old new (assertOwned rt keys) := by
  unfold assertOwned
  infer_instance

instance : Within old new (assertTokenOwned rt k) := by
  unfold assertTokenOwned
  infer_instance

instance (seeds : Seeds) : Within old new (assertPda rt seeds k) := by
  unfold assertPda
  infer_instance

instance : Within old new (assertEmpty k) := by
  unfold assertEmpty
  infer_instance

instance (view : AccountData → Except ProgramError α) : Within old new (load view k) :=
  inferInstanceAs (Within old new (Exec.gets _))

/-- An account is written in its own kind. -/
instance {view : AccountData → Except ProgramError τ} {data : τ → AccountData} {kind : AccountKind}
    [Views view data kind] [Includes kind old] [Includes kind new] (m : Exec ProgramError τ α) :
    Within old new (atAccount rt inv view data k m) where
  keeps s t left := by
    have member : ∀ (kinds : List AccountKind) [Includes kind kinds] x, (data x).kind ∈ kinds := fun kinds _ x => by
      rw [@Views.kind_data τ view data kind _ x]
      exact Includes.mem
    simp only [Exec.run, atAccount] at left
    split at left
    · cases left
      exact Std.Refl.refl _
    next x found =>
      have before : (s.data k).kind ∈ old := by
        have held : s.data k = data x := Views.eq_data.mp found
        rw [held]
        exact member old x
      split at left
      · split at left
        · simp at left
        · cases left
          exact touches_setData before (member new _)
      · split at left
        · simp at left
        · cases left
          exact touches_setData before (member new _)
      · simp at left

instance [Includes .marginAccount old] [Includes .marginAccount new] (m : MarginM Unit) : Within old new (atMargin rt inv k m) :=
  inferInstanceAs (Within old new (atAccount rt inv AccountData.loadMargin .marginAccount k m))

instance [Includes .intentBook old] [Includes .intentBook new] (m : BookM α) : Within old new (atBook rt inv k m) :=
  inferInstanceAs (Within old new (atAccount rt inv AccountData.loadBook .intentBook k m))

instance {view : AccountData → Except ProgramError τ} {data : τ → AccountData} {kind : AccountKind}
    [Views view data kind] [Includes kind old] [Includes kind new] (f : τ → τ) : Within old new (updateAccount rt inv view data k f) :=
  inferInstanceAs (Within old new (atAccount rt inv view data k _))

/-- Fresh data is written over zeros. -/
instance (fresh : AccountData) [Includes .raw old] [Includes .raw new] [Includes fresh.kind new] :
    Within old new (initAccount rt inv k fresh) where
  keeps s t left := by
    rw [initAccount, Exec.run_bind_get, Exec.run_bind] at left
    cases zeros : (s.data k).checkFresh fresh with
    | error e =>
      rw [zeros] at left
      cases left
      exact Std.Refl.refl _
    | ok u =>
      rw [zeros] at left
      change t ∈ ((writeData rt inv k fresh).run s).state? at left
      rw [writeData, Exec.run_bind_get, Exec.run_bind, Exec.run_abortIf] at left
      split at left
      · simp at left
      · cases left
        apply touches_setData
        · rw [AccountData.checkFresh_ok.mp zeros]
          exact Includes.mem
        · exact Includes.mem

instance (payer space owner) [Includes .raw old] [Includes .raw new] : Within old new (createAccount rt inv payer k space owner) where
  keeps s t left := by
    rw [createAccount, Exec.run_bind_get, Exec.run_bind, Exec.run_abortIf] at left
    split at left
    · simp at left
    next allowed =>
      cases left
      simp only [not_or, not_not] at allowed
      obtain ⟨-, -, -, -, -, -, vacant⟩ := allowed
      apply touches_set
      · rw [Ledger.data, vacant]
        exact Includes.mem
      · exact Includes.mem

instance (payer) (fresh : AccountData) [Includes .raw old] [Includes .raw new] [Includes fresh.kind new] :
    Within old new (createAndInit rt inv payer k fresh) := by
  unfold createAndInit
  infer_instance

/-- The accounts of a transfer hold tokens before and after. -/
theorem kinds_of_tokenMoved [Includes .token old] [Includes .token new] {s t : Ledger} {minus plus : ℕ}
    (moved : TokenMoved rt.tokenProgram s t k minus plus) : (s.data k).kind ∈ old ∧ (t.data k).kind ∈ new := by
  obtain ⟨a, a', before, after, -⟩ := moved
  rw [Ledger.data, Ledger.data, before, after]
  exact ⟨Includes.mem, Includes.mem⟩

/-- A call that touches two accounts. -/
theorem touches_pair {s t : Ledger} {j : Pubkey} (first : (s.data j).kind ∈ old ∧ (t.data j).kind ∈ new)
    (second : (s.data k).kind ∈ old ∧ (t.data k).kind ∈ new) (rest : ∀ i, i ≠ j → i ≠ k → t.get i = s.get i) :
    Touches old new s t := by
  intro i
  by_cases atFirst : i = j
  · exact .inr (atFirst ▸ first)
  · by_cases atSecond : i = k
    · exact .inr (atSecond ▸ second)
    · exact .inl (rest i atFirst atSecond)

theorem within_invoke {call : Ledger → Option Ledger} (touches : ∀ s t, call s = some t → Touches old new s t) :
    Within old new (invoke call) where
  keeps s t left := by
    simp only [Exec.run, invoke] at left
    split at left
    next called =>
      cases left
      exact touches _ _ called
    · simp at left

instance (source destination authority amount) [Includes .token old] [Includes .token new] :
    Within old new (invoke fun s => rt.transfer s source destination authority amount) := by
  apply within_invoke
  intro s t called
  obtain ⟨-, paid, received, -, rest⟩ := rt.transfer_moves called
  exact touches_pair (kinds_of_tokenMoved paid) (kinds_of_tokenMoved received) rest

instance (mint destination authority amount) [Includes .token old] [Includes .token new]
    [Includes .mint old] [Includes .mint new] :
    Within old new (invoke fun s => rt.mintTo s mint destination authority amount) := by
  apply within_invoke
  intro s t called
  obtain ⟨⟨m, before, -, after⟩, received, -, rest⟩ := rt.mintTo_moves called
  apply touches_pair _ (kinds_of_tokenMoved received) rest
  rw [Ledger.data, Ledger.data, before, after]
  exact ⟨Includes.mem, Includes.mem⟩

instance (source mint authority amount) [Includes .token old] [Includes .token new] [Includes .mint old]
    [Includes .mint new] :
    Within old new (invoke fun s => rt.burn s source mint authority amount) := by
  apply within_invoke
  intro s t called
  obtain ⟨-, ⟨m, before, -, after⟩, paid, -, rest⟩ := rt.burn_moves called
  apply touches_pair _ (kinds_of_tokenMoved paid) rest
  rw [Ledger.data, Ledger.data, before, after]
  exact ⟨Includes.mem, Includes.mem⟩

instance (mint authority decimals) [Includes .raw old] [Includes .mint new] :
    Within old new (invoke fun s => rt.initializeMint s mint authority decimals) := by
  apply within_invoke
  intro s t called
  obtain ⟨⟨n, before⟩, rfl⟩ := rt.initializeMint_inits called
  apply touches_set
  · rw [Ledger.data, before]
    exact Includes.mem
  · exact Includes.mem

/-- What a program leaves behind may depend on what an earlier one returned and left. -/
theorem within_bind_of_ok {m : LedgerM α} {f : α → LedgerM β} [Within old new m]
    (next : ∀ s a u, m.run s = .ok a u → ∀ t ∈ ((f a).run u).state?, Touches old new u t) : Within old new (m >>= f) where
  keeps s t left := by
    rw [Exec.run_bind] at left
    cases ran : m.run s with
    | ok a u =>
      rw [ran, Outcome.bind_ok] at left
      have first : Touches old new s u := (Within.keeps (m := m)).ok ran
      exact Trans.trans first (next s a u ran t left)
    | err e u =>
      rw [ran, Outcome.bind_err] at left
      cases left
      exact (Within.keeps (m := m)).err ran
    | abort => simp [ran] at left

theorem touches_writeData {s t : Ledger} {d : AccountData} (before : (s.data k).kind ∈ old) (after : d.kind ∈ new)
    (left : t ∈ ((writeData rt inv k d).run s).state?) : Touches old new s t := by
  rw [writeData, Exec.run_bind_get, Exec.run_bind, Exec.run_abortIf] at left
  split at left
  · simp at left
  · cases left
    exact touches_setData before after

end Programs

/-! ### The handlers -/

-- Instances are found step by step: as a whole their size would double with each program of a sequence.

section Handlers

variable {old new : List AccountKind} {rt : Runtime} {inv : rt.Invocation} {j k : Pubkey}

instance : Within old new (assertAdmin j k) := by
  unfold assertAdmin
  infer_instance

instance (owner mint) : Within old new (validateMargin rt owner mint k) := by
  unfold validateMargin
  infer_instance

instance : Within old new (loadUnpaused k) := by
  unfold loadUnpaused
  infer_instance

/-! ### Settlement -/

instance (expected index) : Within old new (verifyViaEd25519Sysvar rt inv k expected index) := by
  unfold verifyViaEd25519Sysvar
  infer_instance

instance (cfg index type) : Within old new (loadAttestation rt inv cfg k index type) := by
  unfold loadAttestation
  infer_instance

instance (inst) : Within old new (loadLivePmlc j k inst) := by
  unfold loadLivePmlc
  infer_instance

instance (perSide equity) [Includes .marginAccount old] [Includes .marginAccount new] :
    Within old new (settleBoth rt inv j k perSide equity) := by
  unfold settleBoth
  infer_instance

instance (winner loser perSide bounty) [Includes .marginAccount old] [Includes .marginAccount new] :
    Within old new (payWinner rt inv winner loser j k perSide bounty) := by
  unfold payWinner
  repeat with_reducible refine within_bind inferInstance fun _ => ?_
  infer_instance

instance (status reason) [Includes .pmlc old] [Includes .pmlc new] :
    Within old new (closePmlcWith rt inv k status reason) := by
  unfold closePmlcWith
  infer_instance

instance (offset) [Includes .marginAccount old] [Includes .marginAccount new] [Includes .pmlc old]
    [Includes .pmlc new] [Includes .marketNonce old] [Includes .marketNonce new] :
    Within old new (processLiquidate rt inv offset) := by
  unfold processLiquidate
  split <;> (repeat with_reducible refine within_bind inferInstance fun _ => ?_) <;> infer_instance

instance (offset) [Includes .marginAccount old] [Includes .marginAccount new] [Includes .pmlc old]
    [Includes .pmlc new] [Includes .marketNonce old] [Includes .marketNonce new] :
    Within old new (processResolve rt inv offset) := by
  unfold processResolve
  split <;> (repeat with_reducible refine within_bind inferInstance fun _ => ?_) <;> infer_instance

instance (offset) [Includes .marginAccount old] [Includes .marginAccount new] [Includes .pmlc old]
    [Includes .pmlc new] [Includes .marketNonce old] [Includes .marketNonce new] :
    Within old new (processCloseMutual rt inv offset) := by
  unfold processCloseMutual
  split <;> (repeat with_reducible refine within_bind inferInstance fun _ => ?_) <;> infer_instance

/-! ### Matching -/

instance (payer mint) [Includes .raw old] [Includes .raw new] [Includes .feeTreasury new] :
    Within old new (ensureFeeTreasury rt inv payer k mint) := by
  unfold ensureFeeTreasury
  infer_instance

instance (payer owner mint) [Includes .raw old] [Includes .raw new] [Includes .userVolume new] :
    Within old new (ensureUserVolume rt inv payer k owner mint) := by
  unfold ensureUserVolume
  infer_instance

instance (ctx r mint perSide) [Includes .raw old] [Includes .raw new] [Includes .userVolume old]
    [Includes .userVolume new] [Includes .feeTreasury old] [Includes .feeTreasury new] :
    Within old new (chargeTaker rt inv ctx r mint perSide) := by
  unfold chargeTaker
  repeat with_reducible refine within_bind inferInstance fun _ => ?_
  infer_instance

/-- The position is written into the account that was just created for it. -/
instance (ctx r inst) [Includes .raw old] [Includes .raw new] [Includes .pmlc new] :
    Within old new (openPmlc rt inv ctx r inst) := by
  apply within_bind_of_ok
  intro s _ u created t left
  obtain ⟨-, rfl⟩ := createAccount_ok created
  rw [Exec.run_bind] at left
  cases notional : notionalAtoms inst.collateralBucket inst.leverageBps with
  | error e =>
    rw [notional] at left
    cases left
    exact Std.Refl.refl _
  | ok v =>
    rw [notional] at left
    change t ∈ (Exec.run (Exec.ofExcept (positionSizeFp v r.entryFp) >>= _) _).state? at left
    rw [Exec.run_bind] at left
    cases size : positionSizeFp v r.entryFp with
    | error e =>
      rw [size] at left
      cases left
      exact Std.Refl.refl _
    | ok w =>
      rw [size] at left
      refine touches_writeData ?_ Includes.mem left
      rw [Ledger.data, Store.get_set_self]
      exact Includes.mem

instance : Within old new (unpackMatchAccounts rt inv) := by
  unfold unpackMatchAccounts
  split
  · repeat refine within_bind inferInstance fun _ => ?_
    split <;> infer_instance
  · infer_instance

section Match

variable [Includes .intentBook old] [Includes .intentBook new] [Includes .marginAccount old]
  [Includes .marginAccount new] [Includes .userVolume old] [Includes .userVolume new] [Includes .feeTreasury old]
  [Includes .feeTreasury new] [Includes .raw old] [Includes .raw new] [Includes .pmlc new]

instance (ctx longId shortId) : Within old new (matchPairCore rt inv ctx longId shortId) := by
  unfold matchPairCore
  repeat with_reducible refine within_bind inferInstance fun _ => ?_
  infer_instance

instance (args) : Within old new (processMatchPair rt inv args) := by
  unfold processMatchPair
  infer_instance

instance : Within old new (processMatchBestAvailable rt inv) := by
  unfold processMatchBestAvailable
  infer_instance

instance (ctx args longId shortId) : Within old new (inlineMatchPair rt inv ctx args longId shortId) := by
  unfold inlineMatchPair
  infer_instance

instance (ctx args intentId) : Within old new (inlineMatch rt inv ctx args intentId) := by
  unfold inlineMatch
  split
  · refine within_bind inferInstance fun _ => ?_
    split <;> infer_instance
  · infer_instance

end Match

/-! ### Posting and cancelling -/

instance (instrument) : Within old new (sessionOwner rt inv j k instrument) := by
  unfold sessionOwner
  infer_instance

/-- A post charges the session it was given, if any. -/
theorem within_postIntent (ctx : PostCtx) (args : PostIntentArgs) [Includes .intentBook old] [Includes .intentBook new]
    [Includes .marginAccount old] [Includes .marginAccount new] (session : ctx.session ≠ none → .session ∈ old ∧ .session ∈ new) :
    Within old new (postIntent rt inv ctx args) := by
  unfold postIntent
  repeat refine within_bind inferInstance fun _ => ?_
  dsimp only
  split
  next found =>
    have given := session (by simp [found])
    have : Includes .session old := ⟨given.1⟩
    have : Includes .session new := ⟨given.2⟩
    infer_instance
  · infer_instance

instance : Within old new (unpackPostIntent rt inv) := by
  unfold unpackPostIntent
  split <;> infer_instance

instance : Within old new (unpackPostIntentDelegated rt inv) := by
  unfold unpackPostIntentDelegated
  split <;> (repeat with_reducible refine within_bind inferInstance fun _ => ?_) <;> infer_instance

/-- An owner's post comes without a session. -/
theorem unpackPostIntent_session {s t : Ledger} {ctx : PostCtx} (ran : (unpackPostIntent rt inv).run s = .ok ctx t) :
    ctx.session = none := by
  unfold unpackPostIntent at ran
  split at ran
  · simp only [Exec.bind_ok, assertSigner_ok, Exec.pure_ok] at ran
    obtain ⟨-, -, -, rfl, -⟩ := ran
    rfl
  · cases ran

section Intent

variable [Includes .intentBook old] [Includes .intentBook new] [Includes .marginAccount old]
  [Includes .marginAccount new] [Includes .userVolume old] [Includes .userVolume new] [Includes .feeTreasury old]
  [Includes .feeTreasury new] [Includes .raw old] [Includes .raw new] [Includes .pmlc new]

theorem within_doPostIntentInner (ctx : PostCtx) (args : PostIntentArgs)
    (session : ctx.session ≠ none → .session ∈ old ∧ .session ∈ new) : Within old new (doPostIntentInner rt inv ctx args) := by
  have posts : Within old new (postIntent rt inv ctx args) := within_postIntent ctx args session
  unfold doPostIntentInner
  infer_instance

instance (args) : Within old new (processPostIntent rt inv args) := by
  apply within_bind_of_ok
  intro s ctx u ran t left
  have within : Within old new (doPostIntentInner rt inv ctx args) := within_doPostIntentInner ctx args
    fun given => absurd (unpackPostIntent_session ran) given
  exact within.keeps u t left

instance (args) [Includes .session old] [Includes .session new] :
    Within old new (processPostIntentDelegated rt inv args) := by
  have posts : ∀ ctx, Within old new (doPostIntentInner rt inv ctx args) := fun ctx => within_doPostIntentInner ctx args
    fun _ => ⟨Includes.mem, Includes.mem⟩
  unfold processPostIntentDelegated
  infer_instance

end Intent

instance (trader mint margins) : Within old new (findMargin rt trader mint margins) := by
  induction margins with
  | nil => exact inferInstanceAs (Within old new (Exec.throw _))
  | cons k rest ih =>
    unfold findMargin
    infer_instance

section Cancel

variable [Includes .intentBook old] [Includes .intentBook new] [Includes .marginAccount old] [Includes .marginAccount new]

instance (instrument margin intentId authorize) :
    Within old new (cancelIntent rt inv instrument k margin intentId authorize) := by
  unfold cancelIntent
  infer_instance

instance (intentId) : Within old new (processCancelIntent rt inv intentId) := by
  unfold processCancelIntent
  split <;> infer_instance

instance (intentId) : Within old new (processCancelIntentDelegated rt inv intentId) := by
  unfold processCancelIntentDelegated
  split <;> (repeat with_reducible refine within_bind inferInstance fun _ => ?_) <;> infer_instance

instance (mint work margins) : Within old new (pruneAll rt inv k mint work margins) := by
  induction work generalizing margins with
  | nil => exact inferInstanceAs (Within old new (pure ()))
  | cons e work ih =>
    unfold pruneAll
    refine within_bind inferInstance fun found => ?_
    infer_instance

instance : Within old new (processPruneExpired rt inv) := by
  unfold processPruneExpired
  split <;> (repeat with_reducible refine within_bind inferInstance fun _ => ?_) <;> infer_instance

end Cancel

/-! ### Positions -/

instance (free bucket maxFeeBps contracts) : Within old new (trimContracts free bucket maxFeeBps contracts) := by
  induction contracts with
  | zero => exact inferInstanceAs (Within old new (pure 0))
  | succ n ih =>
    unfold trimContracts
    infer_instance

instance (free bucket maxFeeBps) : Within old new (affordableContracts free bucket maxFeeBps) := by
  unfold affordableContracts
  infer_instance

section Position

variable [Includes .pmlc old] [Includes .pmlc new]

instance (side owner) : Within old new (handOver rt inv k side owner) := by
  unfold handOver
  infer_instance

instance (side) [Includes .marginAccount old] [Includes .marginAccount new] :
    Within old new (processNovate rt inv side) := by
  unfold processNovate
  split <;> (repeat with_reducible refine within_bind inferInstance fun _ => ?_) <;> infer_instance

instance (args withSettle) [Includes .intentBook old] [Includes .intentBook new]
    [Includes .marginAccount old] [Includes .marginAccount new] :
    Within old new (doSubstitute rt inv args withSettle) := by
  unfold doSubstitute
  split <;> (repeat with_reducible refine within_bind inferInstance fun _ => ?_) <;> infer_instance

instance (side) : Within old new (clearReentry rt inv k side) := by
  unfold clearReentry
  infer_instance

instance (owner book margin inst p args contracts maxFeeBps) [Includes .intentBook old] [Includes .intentBook new]
    [Includes .marginAccount old] [Includes .marginAccount new] :
    Within old new (reenter rt inv owner book margin k inst p args contracts maxFeeBps) := by
  unfold reenter
  infer_instance

instance (args) [Includes .intentBook old] [Includes .intentBook new] [Includes .marginAccount old]
    [Includes .marginAccount new] :
    Within old new (processClaimReentry rt inv args) := by
  unfold processClaimReentry
  split <;> (repeat with_reducible refine within_bind inferInstance fun _ => ?_) <;> infer_instance

end Position

/-- Only a position's account is given back. -/
instance [Includes .pmlc old] [Includes .raw new] : Within old new (processClosePmlc rt inv) := by
  unfold processClosePmlc
  split
  · iterate 4 refine within_bind inferInstance fun _ => ?_
    apply within_bind_of_ok
    intro s p u loaded t left
    obtain ⟨held, rfl⟩ := load_ok.mp loaded
    rw [Exec.run_bind, Exec.run_rejectIf] at left
    split at left
    · cases left
      exact Std.Refl.refl _
    · rw [Outcome.bind_ok, closeAccount, Exec.run_bind_get, Exec.run_bind, Exec.run_abortIf] at left
      split at left
      · simp at left
      · cases left
        refine touches_set ?_ Includes.mem
        rw [AccountData.loadPmlc_ok.mp held]
        exact Includes.mem
  · infer_instance

/-! ### Margin accounts -/

instance [Includes .raw old] [Includes .raw new] [Includes .marginAccount new] :
    Within old new (processCreateMarginAccount rt inv) := by
  unfold processCreateMarginAccount
  split <;> (repeat with_reducible refine within_bind inferInstance fun _ => ?_) <;> infer_instance

instance (vaultAuthority mint) : Within old new (validateVaultTokenAccount rt k vaultAuthority mint) := by
  unfold validateVaultTokenAccount
  infer_instance

instance (amount) [Includes .token old] [Includes .token new] [Includes .marginAccount old]
    [Includes .marginAccount new] :
    Within old new (processDeposit rt inv amount) := by
  refine within_bind inferInstance fun _ => ?_
  split <;> (repeat with_reducible refine within_bind inferInstance fun _ => ?_) <;> infer_instance

instance (amount) [Includes .token old] [Includes .token new] [Includes .marginAccount old]
    [Includes .marginAccount new] :
    Within old new (processWithdraw rt inv amount) := by
  refine within_bind inferInstance fun _ => ?_
  split <;> (repeat with_reducible refine within_bind inferInstance fun _ => ?_) <;> infer_instance

/-! ### Instruments and fees -/

instance (args registries) : Within old new (checkRegistry rt args registries) := by
  unfold checkRegistry
  split
  · infer_instance
  · refine within_bind inferInstance fun _ => ?_
    split <;> infer_instance

instance (payer marketId) [Includes .raw old] [Includes .raw new] [Includes .marketNonce new] :
    Within old new (ensureMarketNonce rt inv payer k marketId) := by
  unfold ensureMarketNonce
  infer_instance

instance (args) [Includes .raw old] [Includes .raw new] [Includes .instrumentConfig new] [Includes .intentBook new]
    [Includes .marketNonce new] : Within old new (processCreateInstrument rt inv args) := by
  unfold processCreateInstrument
  split <;> (repeat with_reducible refine within_bind inferInstance fun _ => ?_) <;> infer_instance

instance (pause) [Includes .instrumentConfig old] [Includes .instrumentConfig new] :
    Within old new (processSetInstrumentStatus rt inv pause) := by
  unfold processSetInstrumentStatus
  split <;> infer_instance

instance (additionalNodes) [Includes .intentBook old] [Includes .intentBook new] :
    Within old new (processExpandIntentBook rt inv additionalNodes) := by
  refine within_bind inferInstance fun _ => ?_
  split <;> (repeat with_reducible refine within_bind inferInstance fun _ => ?_) <;> infer_instance

instance (tiers) [Includes .raw old] [Includes .raw new] [Includes .feeSchedule new] :
    Within old new (processInitFeeSchedule rt inv tiers) := by
  unfold processInitFeeSchedule
  split <;> (repeat with_reducible refine within_bind inferInstance fun _ => ?_) <;> infer_instance

instance (tiers) [Includes .feeSchedule old] [Includes .feeSchedule new] :
    Within old new (processSetFeeSchedule rt inv tiers) := by
  unfold processSetFeeSchedule
  split <;> (repeat with_reducible refine within_bind inferInstance fun _ => ?_) <;> infer_instance

instance (amount) [Includes .token old] [Includes .token new] [Includes .feeTreasury old] [Includes .feeTreasury new] :
    Within old new (processSweepFees rt inv amount) := by
  refine within_bind inferInstance fun _ => ?_
  split <;> (repeat with_reducible refine within_bind inferInstance fun _ => ?_) <;> infer_instance

/-! ### Administration -/

instance : Within old new (authorizeAdminOrMultisig rt inv k) := by
  unfold authorizeAdminOrMultisig
  repeat refine within_bind inferInstance fun _ => ?_
  split <;> infer_instance

instance (payer space) [Includes .raw old] [Includes .raw new] :
    Within old new (ensureCreated rt inv payer k space) := by
  unfold ensureCreated
  infer_instance

instance (args) [Includes .raw old] [Includes .raw new] [Includes .programConfig new] :
    Within old new (processInitProgramConfig rt inv args) := by
  unfold processInitProgramConfig
  split <;> (repeat with_reducible refine within_bind inferInstance fun _ => ?_) <;> infer_instance

instance (paused) [Includes .programConfig old] [Includes .programConfig new] :
    Within old new (processSetGlobalPause rt inv paused) := by
  unfold processSetGlobalPause
  split <;> infer_instance

instance (args) [Includes .raw old] [Includes .raw new] [Includes .adminMultisig new] :
    Within old new (processInitAdminMultisig rt inv args) := by
  unfold processInitAdminMultisig
  split <;> (repeat with_reducible refine within_bind inferInstance fun _ => ?_) <;> infer_instance

instance (args) [Includes .adminMultisig old] [Includes .adminMultisig new] :
    Within old new (processRotateAdminMultisig rt inv args) := by
  unfold processRotateAdminMultisig
  split <;> infer_instance

/-- The proposal is written into the account that was just created for it. -/
instance (args) [Includes .raw old] [Includes .raw new] [Includes .timelock new] :
    Within old new (processProposeSetAttestationSigner rt inv args) := by
  unfold processProposeSetAttestationSigner
  split
  · iterate 8 refine within_bind inferInstance fun _ => ?_
    apply within_bind_of_ok
    intro s _ u created t left
    obtain ⟨-, rfl⟩ := createAccount_ok created
    rw [Exec.run_bind, Exec.run_rejectIf] at left
    split at left
    · cases left
      exact Std.Refl.refl _
    · refine touches_writeData ?_ Includes.mem left
      rw [Ledger.data, Store.get_set_self]
      exact Includes.mem
  · infer_instance

instance (proposalId) [Includes .programConfig old] [Includes .programConfig new] [Includes .timelock old]
    [Includes .timelock new] :
    Within old new (processExecuteSetAttestationSigner rt inv proposalId) := by
  unfold processExecuteSetAttestationSigner
  split <;> (repeat with_reducible refine within_bind inferInstance fun _ => ?_) <;> infer_instance

instance (proposalId) [Includes .timelock old] [Includes .timelock new] :
    Within old new (processCancelTimelockProposal rt inv proposalId) := by
  unfold processCancelTimelockProposal
  split <;> (repeat with_reducible refine within_bind inferInstance fun _ => ?_) <;> infer_instance

instance (args) [Includes .raw old] [Includes .raw new] [Includes .bucketRegistry new] :
    Within old new (processInitBucketRegistry rt inv args) := by
  unfold processInitBucketRegistry
  split <;> (repeat with_reducible refine within_bind inferInstance fun _ => ?_) <;> infer_instance

instance (args) [Includes .bucketRegistry old] [Includes .bucketRegistry new] :
    Within old new (processSetBucketRegistry rt inv args) := by
  unfold processSetBucketRegistry
  split <;> infer_instance

instance (payer authority decimals) [Includes .raw old] [Includes .raw new] [Includes .mint new] :
    Within old new (ensureWusdMint rt inv payer k authority decimals) := by
  unfold ensureWusdMint
  infer_instance

instance (args) [Includes .raw old] [Includes .raw new] [Includes .mint new] [Includes .stablecoinRegistry new] :
    Within old new (processInitStablecoinRegistry rt inv args) := by
  unfold processInitStablecoinRegistry
  split <;> (repeat with_reducible refine within_bind inferInstance fun _ => ?_) <;> infer_instance

instance [Includes .stablecoinRegistry old] [Includes .stablecoinRegistry new] :
    Within old new (processAddStablecoinMint rt inv) := by
  unfold processAddStablecoinMint loadMint
  split <;> (repeat with_reducible refine within_bind inferInstance fun _ => ?_) <;> infer_instance

instance [Includes .stablecoinRegistry old] [Includes .stablecoinRegistry new] :
    Within old new (processRemoveStablecoinMint rt inv) := by
  unfold processRemoveStablecoinMint
  split <;> infer_instance

/-! ### Sessions and the wrapped coin -/

/-- A prepared account is blank or holds the session that is over. -/
theorem prepareSession_ok {s t : Ledger} {u : Unit} {owner : Pubkey}
    (ran : (prepareSession rt inv owner k).run s = .ok u t) :
    (s.get k = default ∧ t = s.set k ⟨rt.programId, .raw 440⟩) ∨
      ∃ x, s.data k = .session x ∧ x.owner = owner ∧ x.isActive inv.slot = false ∧ s = t := by
  rw [prepareSession, Exec.run_bind_get] at ran
  split at ran
  · exact .inl (createAccount_ok ran)
  · simp only [Exec.bind_ok, load_ok, Exec.rejectIf_ok, not_not, Bool.not_eq_true, AccountData.loadSession_ok] at ran
    obtain ⟨x, _, ⟨held, rfl⟩, _, _, ⟨mine, rfl⟩, ended, rfl⟩ := ran
    exact .inr ⟨x, held, mine, ended, rfl⟩

instance (owner) [Includes .raw old] [Includes .raw new] : Within old new (prepareSession rt inv owner k) := by
  unfold prepareSession
  infer_instance

instance (args) [Includes .raw old] [Includes .raw new] [Includes .session old] [Includes .session new] :
    Within old new (processCreateSession rt inv args) := by
  unfold processCreateSession
  split
  · iterate 8 refine within_bind inferInstance fun _ => ?_
    apply within_bind_of_ok
    intro s _ u prepared t left
    refine touches_writeData ?_ Includes.mem left
    rcases prepareSession_ok prepared with ⟨-, rfl⟩ | ⟨x, held, -, -, rfl⟩
    · rw [Ledger.data, Store.get_set_self]
      exact Includes.mem
    · rw [held]
      exact Includes.mem
  · infer_instance

instance [Includes .session old] [Includes .session new] : Within old new (processRevokeSession rt inv) := by
  unfold processRevokeSession
  split <;> infer_instance

instance (mint) : Within old new (requireAccepted j k mint) := by
  unfold requireAccepted
  infer_instance

instance (mint) : Within old new (loadReserve j k mint) := by
  unfold loadReserve
  infer_instance

instance (amount) [Includes .token old] [Includes .token new] [Includes .mint old] [Includes .mint new] :
    Within old new (processWrapStablecoin rt inv amount) := by
  refine within_bind inferInstance fun _ => ?_
  split <;> (repeat with_reducible refine within_bind inferInstance fun _ => ?_) <;> infer_instance

instance (amount) [Includes .token old] [Includes .token new] [Includes .mint old] [Includes .mint new] :
    Within old new (processUnwrapStablecoin rt inv amount) := by
  refine within_bind inferInstance fun _ => ?_
  split <;> (repeat with_reducible refine within_bind inferInstance fun _ => ?_) <;> infer_instance

end Handlers

/-! ### All instructions -/

/-- The kinds of accounts that an instruction may write. -/
def Instruction.writes : Instruction → List AccountKind
  | .initProgramConfig _ => [.raw]
  | .setGlobalPause _ => [.programConfig]
  | .createInstrument _ => [.raw]
  | .pauseInstrument => [.instrumentConfig]
  | .resumeInstrument => [.instrumentConfig]
  | .expandIntentBook _ => [.intentBook]
  | .createMarginAccount => [.raw]
  | .deposit _ => [.token, .marginAccount]
  | .withdraw _ => [.token, .marginAccount]
  | .postIntent _ => [.intentBook, .marginAccount, .userVolume, .feeTreasury, .raw]
  | .cancelIntent _ => [.intentBook, .marginAccount]
  | .matchPair _ => [.intentBook, .marginAccount, .userVolume, .feeTreasury, .raw]
  | .matchBestAvailable => [.intentBook, .marginAccount, .userVolume, .feeTreasury, .raw]
  | .pruneExpired => [.intentBook, .marginAccount]
  | .createSession _ => [.raw, .session]
  | .revokeSession => [.session]
  | .postIntentDelegated _ => [.intentBook, .marginAccount, .userVolume, .feeTreasury, .raw, .session]
  | .cancelIntentDelegated _ => [.intentBook, .marginAccount]
  | .liquidate _ => [.marginAccount, .pmlc, .marketNonce]
  | .resolve _ => [.marginAccount, .pmlc, .marketNonce]
  | .closeMutual _ => [.marginAccount, .pmlc, .marketNonce]
  | .claimReentry _ => [.intentBook, .marginAccount, .pmlc]
  | .novate _ => [.marginAccount, .pmlc]
  | .matchSubstitute _ => [.intentBook, .marginAccount, .pmlc]
  | .matchSubstituteWithSettle _ => [.intentBook, .marginAccount, .pmlc]
  | .closePmlc => [.pmlc]
  | .initFeeSchedule _ => [.raw]
  | .setFeeSchedule _ => [.feeSchedule]
  | .sweepFees _ => [.token, .feeTreasury]
  | .proposeSetAttestationSigner _ => [.raw]
  | .executeSetAttestationSigner _ => [.programConfig, .timelock]
  | .cancelTimelockProposal _ => [.timelock]
  | .initAdminMultisig _ => [.raw]
  | .rotateAdminMultisig _ => [.adminMultisig]
  | .initBucketRegistry _ => [.raw]
  | .setBucketRegistry _ => [.bucketRegistry]
  | .initStablecoinRegistry _ => [.raw]
  | .addStablecoinMint => [.stablecoinRegistry]
  | .removeStablecoinMint => [.stablecoinRegistry]
  | .wrapStablecoin _ => [.token, .mint]
  | .unwrapStablecoin _ => [.token, .mint]

/-- The kinds of accounts that an instruction may leave where it wrote. -/
def Instruction.leaves : Instruction → List AccountKind
  | .initProgramConfig _ => [.raw, .programConfig]
  | .createInstrument _ => [.raw, .instrumentConfig, .intentBook, .marketNonce]
  | .createMarginAccount => [.raw, .marginAccount]
  | .postIntent _ => [.intentBook, .marginAccount, .userVolume, .feeTreasury, .raw, .pmlc]
  | .matchPair _ => [.intentBook, .marginAccount, .userVolume, .feeTreasury, .raw, .pmlc]
  | .matchBestAvailable => [.intentBook, .marginAccount, .userVolume, .feeTreasury, .raw, .pmlc]
  | .postIntentDelegated _ => [.intentBook, .marginAccount, .userVolume, .feeTreasury, .raw, .session, .pmlc]
  | .closePmlc => [.raw]
  | .initFeeSchedule _ => [.raw, .feeSchedule]
  | .proposeSetAttestationSigner _ => [.raw, .timelock]
  | .initAdminMultisig _ => [.raw, .adminMultisig]
  | .initBucketRegistry _ => [.raw, .bucketRegistry]
  | .initStablecoinRegistry _ => [.raw, .mint, .stablecoinRegistry]
  | instr => instr.writes

/-- However it ends, an instruction writes and leaves only the kinds that are its own. -/
theorem within_process (rt : Runtime) (inv : rt.Invocation) (instr : Instruction) :
    Within instr.writes instr.leaves (process rt inv instr) := by
  cases instr <;> simp only [Instruction.writes, Instruction.leaves, process, processMatchSubstitute,
    processMatchSubstituteWithSettle] <;> infer_instance

/-- An instruction leaves accounts of other kinds alone. -/
theorem get_eq_of_process {rt : Runtime} {inv : rt.Invocation} {instr : Instruction} {s t : Ledger} {k : Pubkey}
    (ran : (process rt inv instr).run s = .ok () t) (other : (s.data k).kind ∉ instr.writes) : t.get k = s.get k :=
  ((within_process rt inv instr).keeps.ok ran).get_eq other

end Polyleverage
