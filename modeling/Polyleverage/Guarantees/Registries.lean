import Mathlib.Data.Finset.Card
import Polyleverage.State.Raw

/-! # Keys kept in cells

Two accounts keep sets of keys in sixteen cells. A multisig counts each of its members once, in whatever way the
accounts are passed to it, and can always be passed by its own members. The stablecoin registry is a set of at
most sixteen mints, through any calls that add and remove some.
-/

namespace Polyleverage

/-! ### Members that sign -/

namespace AdminMultisigRaw

/-- What `init` and the rotations after it lead to. -/
inductive Configured : AdminMultisigRaw → Prop
  | init {v ms : AdminMultisigRaw} {bootstrapAdmin : Pubkey} {signers : List Pubkey} {threshold bump : ℕ}
      (ran : (init bootstrapAdmin signers threshold bump).run v = .ok () ms) : Configured ms
  | rotate {ms ms' : AdminMultisigRaw} {signers : List Pubkey} {threshold : ℕ} (before : Configured ms)
      (ran : (rotate signers threshold).run ms = .ok () ms') : Configured ms'

/-- The set that a multisig stands for. -/
def members (ms : AdminMultisigRaw) : Finset Pubkey := (ms.signers.toList.take ms.nSigners).toFinset

/-- The members among the accounts that signed. -/
def approvers (ms : AdminMultisigRaw) (accounts : PassedAccounts) : Finset Pubkey :=
  ms.members.filter fun key => (key, true) ∈ accounts

/-- The signers are distinct, and enough for the threshold. -/
structure Sound (ms : AdminMultisigRaw) : Prop where
  threshold_pos : 1 ≤ ms.threshold
  threshold_le : ms.threshold ≤ ms.nSigners
  nSigners_le : ms.nSigners ≤ MAX_MULTISIG_SIGNERS
  distinct : ms.slots.active.Nodup

variable {ms : AdminMultisigRaw} {signers : List Pubkey} {threshold : ℕ}

theorem members_eq (ms : AdminMultisigRaw) : ms.members = ms.slots.active.toFinset := rfl

theorem sound_of_validate (valid : AdminMultisig.validate signers threshold = .ok ())
    (slots : ms.slots = Slots.ofList signers) (reached : ms.threshold = threshold) : ms.Sound := by
  obtain ⟨⟨-, fits⟩, ⟨positive, enough⟩, distinct⟩ := AdminMultisig.validate_ok.mp valid
  have count : ms.nSigners = signers.length := congrArg Slots.used slots
  exact
    { threshold_pos := by omega
      threshold_le := by omega
      nSigners_le := by omega
      distinct := by
        rw [slots, Slots.active_ofList fits]
        exact distinct }

theorem Configured.sound (configured : Configured ms) : ms.Sound := by
  cases configured with
  | init ran =>
    obtain ⟨valid, -, rfl⟩ := init_ok.mp ran
    exact sound_of_validate valid (slots_created (AdminMultisig.validate_ok.mp valid).1.2) rfl
  | @rotate before _ signers threshold _ ran =>
    obtain ⟨valid, rfl⟩ := rotate_ok.mp ran
    exact sound_of_validate valid (slots_withSigners before threshold (AdminMultisig.validate_ok.mp valid).1.2) rfl

/-- However the accounts are passed, every member that signed is counted, and counted once. -/
theorem Sound.countApprovals_eq (sound : ms.Sound) (accounts : PassedAccounts) :
    ms.countApprovals accounts = (ms.approvers accounts).card := by
  have counted : ms.slots.active.countP (· ∈ accounts.signed) ≤ ms.slots.active.length := List.countP_le_length
  have length : ms.slots.active.length = ms.nSigners := Slots.length_active sound.nSigners_le
  have few := sound.nSigners_le
  have small : MAX_MULTISIG_SIGNERS = 16 := rfl
  have listed : ms.approvers accounts = (ms.slots.active.filter (· ∈ accounts.signed)).toFinset := by
    rw [List.toFinset_filter, approvers, members_eq]
    refine Finset.filter_congr fun key _ => ?_
    simp [PassedAccounts.signed]
  rw [countApprovals_view, AdminMultisig.countApprovals, listed, List.toFinset_card_of_nodup (sound.distinct.filter _),
    ← List.countP_eq_length_filter]
  refine Nat.min_eq_left (Nat.le_trans counted ?_)
  omega

theorem Sound.checkThreshold_iff (sound : ms.Sound) (accounts : PassedAccounts) :
    ms.checkThreshold accounts = .ok () ↔ ms.threshold ≤ (ms.approvers accounts).card := by
  rw [checkThreshold, sound.countApprovals_eq]
  split
  next enough => simp [enough]
  next few => simp [few]

/-- All members together pass. -/
theorem Sound.passable (sound : ms.Sound) : ∃ accounts, ms.checkThreshold accounts = .ok () := by
  have length : ms.slots.active.length = ms.nSigners := Slots.length_active sound.nSigners_le
  have everyone : ms.approvers (ms.slots.active.map fun key => (key, true)) = ms.slots.active.toFinset := by
    rw [approvers, members_eq, Finset.filter_eq_self]
    intro key mem
    exact List.mem_map.mpr ⟨key, List.mem_toFinset.mp mem, rfl⟩
  refine ⟨ms.slots.active.map fun key => (key, true), ?_⟩
  rw [sound.checkThreshold_iff, everyone, List.toFinset_card_of_nodup sound.distinct, length]
  exact sound.threshold_le

theorem init_ok_or_unchanged (v : AdminMultisigRaw) (bootstrapAdmin : Pubkey) (signers : List Pubkey) (threshold bump : ℕ) :
    (∃ ms, (init bootstrapAdmin signers threshold bump).run v = .ok () ms) ∨
      ∃ e, (init bootstrapAdmin signers threshold bump).run v = .err e v := by
  rw [init_run]
  split
  · split
    · exact .inr ⟨_, rfl⟩
    · exact .inl ⟨_, rfl⟩
  · exact .inr ⟨_, rfl⟩

/-- In every state that a multisig gets into, its count is the number of different members that signed, and its
members can pass the threshold. A rejected configuration changes nothing. -/
theorem approvals_exact :
    (∀ ms, Configured ms →
      (1 ≤ ms.threshold ∧ ms.threshold ≤ ms.nSigners ∧ ms.nSigners ≤ 16) ∧
        (ms.signers.toList.take ms.nSigners).Nodup ∧
          (∀ accounts : PassedAccounts,
            ms.countApprovals accounts = (ms.approvers accounts).card ∧
              (ms.checkThreshold accounts = .ok () ↔ ms.threshold ≤ (ms.approvers accounts).card)) ∧
            ∃ accounts : PassedAccounts, ms.checkThreshold accounts = .ok ()) ∧
      (∀ v bootstrapAdmin signers threshold bump,
        (∃ ms, (init bootstrapAdmin signers threshold bump).run v = .ok () ms) ∨
          ∃ e, (init bootstrapAdmin signers threshold bump).run v = .err e v) ∧
        ∀ ms signers threshold,
          (∃ ms', (rotate signers threshold).run ms = .ok () ms') ∨ ∃ e, (rotate signers threshold).run ms = .err e ms := by
  refine ⟨?_, init_ok_or_unchanged, fun ms signers threshold => (rotate_refines ms).ok_or_unchanged⟩
  intro ms configured
  have sound := configured.sound
  refine ⟨⟨sound.threshold_pos, sound.threshold_le, sound.nSigners_le⟩, sound.distinct, ?_, sound.passable⟩
  intro accounts
  exact ⟨sound.countApprovals_eq accounts, sound.checkThreshold_iff accounts⟩

/-- An account of zeros, before it is initialised. -/
def zeroed : AdminMultisigRaw where
  discriminator := 0
  bump := 0
  threshold := 0
  nSigners := 0
  bootstrapAdmin := default
  version := 0
  signers := Vector.replicate MAX_MULTISIG_SIGNERS default

/-- Two of three have to sign after a rotation that drops a key: that key no longer counts, nor does a key that
signs twice, nor a member that is only passed along. -/
theorem approvals_exact_rotated :
    ∃ ms, Configured ms ∧ ms.threshold = 2 ∧
      ms.countApprovals [(⟨1⟩, true), (⟨2⟩, true), (⟨2⟩, true), (⟨3⟩, false)] = 1 ∧
        ms.checkThreshold [(⟨4⟩, true), (⟨2⟩, true)] = .ok () := by
  have ran : (init ⟨9⟩ [⟨1⟩, ⟨2⟩] 1 255).run zeroed = .ok () (created ⟨9⟩ [⟨1⟩, ⟨2⟩] 1 255) :=
    init_ok.mpr ⟨by decide +kernel, rfl, rfl⟩
  have valid : AdminMultisig.validate [⟨2⟩, ⟨3⟩, ⟨4⟩] 2 = .ok () := by decide +kernel
  have rotated := Configured.rotate (.init ran) (rotate_ok.mpr ⟨valid, rfl⟩)
  obtain ⟨-, -, exact_count, -⟩ := approvals_exact.1 _ rotated
  refine ⟨_, rotated, rfl, ?_, ?_⟩
  · rw [(exact_count _).1]
    decide +kernel
  · rw [(exact_count _).2]
    decide +kernel

end AdminMultisigRaw

/-! ### A bounded set of mints -/

/-- A change that is asked of the registry. -/
inductive MintOp where
  | add (mint : Pubkey)
  | remove (mint : Pubkey)
  deriving DecidableEq, Repr

namespace MintOp

def call : MintOp → Exec ProgramError StablecoinRegistryRaw Unit
  | add mint => StablecoinRegistryRaw.addMint mint
  | remove mint => StablecoinRegistryRaw.removeMint mint

/-- The changes that a set of at most sixteen mints allows. -/
def Allowed (S : Finset Pubkey) : MintOp → Prop
  | add mint => mint ∉ S ∧ S.card < 16
  | remove mint => mint ∈ S

instance (S : Finset Pubkey) : DecidablePred (Allowed S)
  | add mint => inferInstanceAs (Decidable (mint ∉ S ∧ S.card < 16))
  | remove mint => inferInstanceAs (Decidable (mint ∈ S))

def effect (S : Finset Pubkey) : MintOp → Finset Pubkey
  | add mint => insert mint S
  | remove mint => S.erase mint

/-- The set after a change, or as it was. -/
def next (S : Finset Pubkey) (op : MintOp) : Finset Pubkey := if op.Allowed S then op.effect S else S

end MintOp

namespace StablecoinRegistryRaw

/-- The registry after a call, as it left it. -/
def attempt (r : StablecoinRegistryRaw) (op : MintOp) : StablecoinRegistryRaw := (op.call.run r).state?.getD r

/-- The registry holds these mints, each in one cell, and nothing in the cells behind them. -/
structure Represents (r : StablecoinRegistryRaw) (S : Finset Pubkey) : Prop where
  dense : r.slots.Dense
  distinct : r.slots.active.Nodup
  mints : r.slots.active.toFinset = S

variable {r r' : StablecoinRegistryRaw} {S : Finset Pubkey}

theorem Represents.mem (represents : r.Represents S) (mint : Pubkey) : mint ∈ r.slots.active ↔ mint ∈ S := by
  rw [← represents.mints, List.mem_toFinset]

theorem Represents.isAccepted_iff (represents : r.Represents S) (mint : Pubkey) : r.isAccepted mint = true ↔ mint ∈ S := by
  rw [isAccepted_view, ← represents.mem]
  exact decide_eq_true_iff

theorem Represents.card_eq (represents : r.Represents S) : S.card = r.nMints := by
  rw [← represents.mints, List.toFinset_card_of_nodup represents.distinct]
  exact Slots.length_active represents.dense.used_le

theorem represents_created {wusdMint : Pubkey} {wusdDecimals bump : ℕ} {initialMints : List Pubkey} {u : Unit}
    (ran : (init wusdMint wusdDecimals initialMints bump).run r = .ok u r') : r'.Represents initialMints.toFinset := by
  obtain ⟨fits, valid, -, rfl⟩ := init_ok.mp ran
  have active : (created wusdMint wusdDecimals initialMints bump).slots.active = initialMints := by
    rw [slots_created fits, Slots.active_ofList fits]
  exact
    { dense := by
        rw [slots_created fits]
        exact Slots.dense_ofList fits
      distinct := by
        rw [active]
        exact (StablecoinRegistry.validateMints_ok.mp valid).2
      mints := by rw [active] }

/-- A mint is added exactly when it is new and there is a cell for it. -/
theorem Represents.addMint (represents : r.Represents S) (mint : Pubkey) :
    (mint ∉ S ∧ S.card < 16 ∧ ∃ r', (addMint mint).run r = .ok () r' ∧ r'.Represents (insert mint S)) ∨
      ¬ (mint ∉ S ∧ S.card < 16) ∧ ∃ e, (addMint mint).run r = .err e r := by
  have card := represents.card_eq
  have ran : (StablecoinRegistryRaw.addMint mint).run r = _ := addMint_run r
  split at ran
  next accepted =>
    have there := (represents.isAccepted_iff mint).mp accepted
    exact .inr ⟨fun allowed => allowed.1 there, _, ran⟩
  next fresh =>
    rw [represents.isAccepted_iff] at fresh
    split at ran
    next full =>
      refine .inr ⟨?_, _, ran⟩
      rintro ⟨-, room⟩
      exact absurd full (Nat.not_le.mpr (card ▸ room))
    next room =>
      have free : r.slots.used < MAX_STABLECOIN_SLOTS := Nat.not_le.mp room
      have room' : S.card < 16 := card ▸ free
      have active : (r.withMints (r.slots.push mint)).slots.active = r.slots.active ++ [mint] := by
        rw [slots_withMints (r.slots.push mint) free, Slots.active_push free]
      refine .inl ⟨fresh, room', _, ran, ?_⟩
      exact
        { dense := dense_addMint represents.dense ran
          distinct := by
            rw [active, List.nodup_append_comm, List.singleton_append, List.nodup_cons, represents.mem]
            exact ⟨fresh, represents.distinct⟩
          mints := by
            ext key
            rw [active, List.mem_toFinset, List.mem_append, List.mem_singleton, represents.mem, Finset.mem_insert, or_comm] }

/-- A mint is removed exactly when it is there. -/
theorem Represents.removeMint (represents : r.Represents S) (mint : Pubkey) :
    (mint ∈ S ∧ ∃ r', (removeMint mint).run r = .ok () r' ∧ r'.Represents (S.erase mint)) ∨
      mint ∉ S ∧ ∃ e, (removeMint mint).run r = .err e r := by
  have ran : (StablecoinRegistryRaw.removeMint mint).run r = _ := removeMint_run represents.dense.used_le
  cases found : r.slots.active.findIdx? (· = mint) with
  | none =>
    rw [found] at ran
    refine .inr ⟨?_, _, ran⟩
    rw [← represents.mem]
    intro there
    have := List.findIdx?_eq_none_iff.mp found mint there
    simp at this
  | some i =>
    rw [found] at ran
    obtain ⟨inside, here, -⟩ := List.findIdx?_eq_some_iff_getElem.mp found
    have here : r.slots.active[i] = mint := of_decide_eq_true here
    have length : r.slots.active.length = r.slots.used := Slots.length_active represents.dense.used_le
    have used : i < r.slots.used := length ▸ inside
    have slots := slots_withMints (r := r) _ (represents.dense.swapRemove used).used_le
    have remaining : (r.withMints (r.slots.swapRemove i)).slots.active.Perm (r.slots.active.erase mint) := by
      rw [slots, ← here, represents.distinct.erase_getElem]
      exact Slots.swapRemove_perm represents.dense.used_le used
    refine .inl ⟨?_, _, ran, ?_⟩
    · rw [← represents.mem, ← here]
      exact List.getElem_mem inside
    · exact
        { dense := dense_removeMint represents.dense ran
          distinct := remaining.nodup_iff.mpr (represents.distinct.erase mint)
          mints := by
            ext key
            rw [List.mem_toFinset, remaining.mem_iff, represents.distinct.mem_erase_iff, represents.mem, Finset.mem_erase] }

/-- A call does to the registry what it does to the set, and fails when the set does not allow it. -/
theorem Represents.call (represents : r.Represents S) (op : MintOp) :
    (op.Allowed S ∧ ∃ r', op.call.run r = .ok () r' ∧ r'.Represents (op.effect S)) ∨
      ¬ op.Allowed S ∧ ∃ e, op.call.run r = .err e r := by
  cases op with
  | add mint =>
    obtain ⟨fresh, room, added⟩ | refused := represents.addMint mint
    · exact .inl ⟨⟨fresh, room⟩, added⟩
    · exact .inr refused
  | remove mint => exact represents.removeMint mint

theorem Represents.attempt (represents : r.Represents S) (op : MintOp) : (r.attempt op).Represents (op.next S) := by
  obtain ⟨allowed, r', ran, after⟩ | ⟨refused, e, failed⟩ := represents.call op
  · rw [StablecoinRegistryRaw.attempt, ran, MintOp.next, if_pos allowed]
    exact after
  · rw [StablecoinRegistryRaw.attempt, failed, MintOp.next, if_neg refused]
    exact represents

theorem Represents.run (represents : r.Represents S) (ops : List MintOp) :
    (ops.foldl StablecoinRegistryRaw.attempt r).Represents (ops.foldl MintOp.next S) := by
  induction ops generalizing r S with
  | nil => exact represents
  | cons op ops ih => exact ih (represents.attempt op)

/-- After any calls, failed ones included, the registry is the set that the same changes make. -/
theorem registry_is_set (v r : StablecoinRegistryRaw) (wusdMint : Pubkey) (wusdDecimals bump : ℕ) (initialMints : List Pubkey)
    (created : (init wusdMint wusdDecimals initialMints bump).run v = .ok () r) (ops : List MintOp) :
    let r' := ops.foldl StablecoinRegistryRaw.attempt r
    let S := ops.foldl MintOp.next initialMints.toFinset
    (r'.mints.toList.take r'.nMints).Nodup ∧
      (∀ (i : ℕ), r'.nMints ≤ i → i < 16 → r'.mints[i]? = some default) ∧
        r'.nMints ≤ 16 ∧
          (∀ mint, r'.isAccepted mint = true ↔ mint ∈ S) ∧
            ∀ op : MintOp,
              ((∃ r'', op.call.run r' = .ok () r'') ↔ op.Allowed S) ∧
                ((∃ r'', op.call.run r' = .ok () r'') ∨ ∃ e, op.call.run r' = .err e r') := by
  have represents := (represents_created created).run ops
  refine ⟨represents.distinct, represents.dense.cleared, represents.dense.used_le, represents.isAccepted_iff, ?_⟩
  intro op
  obtain ⟨allowed, r', ran, -⟩ | ⟨refused, e, failed⟩ := represents.call op
  · exact ⟨iff_of_true ⟨r', ran⟩ allowed, .inl ⟨r', ran⟩⟩
  · refine ⟨iff_of_false ?_ refused, .inr ⟨e, failed⟩⟩
    rintro ⟨r', ran⟩
    rw [failed] at ran
    cases ran

/-- An account of zeros, before it is initialised. -/
def zeroed : StablecoinRegistryRaw where
  discriminator := 0
  bump := 0
  nMints := 0
  wusdDecimals := 0
  wusdMint := default
  version := 0
  mints := Vector.replicate MAX_STABLECOIN_SLOTS default

/-- Of two mints the first is removed, another is added and refused the second time: the removed one is not
accepted and can be added again. -/
theorem registry_is_set_swapped :
    let r := ([.remove ⟨1⟩, .add ⟨3⟩, .add ⟨3⟩] : List MintOp).foldl StablecoinRegistryRaw.attempt (created ⟨9⟩ 6 [⟨1⟩, ⟨2⟩] 255)
    r.isAccepted ⟨1⟩ = false ∧ r.isAccepted ⟨2⟩ = true ∧ r.isAccepted ⟨3⟩ = true ∧
      (∃ r', (MintOp.add ⟨1⟩).call.run r = .ok () r') ∧ ¬ ∃ r', (MintOp.remove ⟨1⟩).call.run r = .ok () r' := by
  have ran : (init ⟨9⟩ 6 [⟨1⟩, ⟨2⟩] 255).run zeroed = .ok () (created ⟨9⟩ 6 [⟨1⟩, ⟨2⟩] 255) :=
    init_ok.mpr ⟨by decide, by decide +kernel, rfl, rfl⟩
  obtain ⟨-, -, -, accepted, calls⟩ := registry_is_set _ _ _ _ _ _ ran [.remove ⟨1⟩, .add ⟨3⟩, .add ⟨3⟩]
  refine ⟨?_, (accepted ⟨2⟩).mpr (by decide +kernel), (accepted ⟨3⟩).mpr (by decide +kernel), ?_, ?_⟩
  · rw [Bool.eq_false_iff]
    exact fun wrongly => absurd ((accepted ⟨1⟩).mp wrongly) (by decide +kernel)
  · exact (calls (.add ⟨1⟩)).1.mpr (by decide +kernel)
  · exact fun removed => absurd ((calls (.remove ⟨1⟩)).1.mp removed) (by decide +kernel)

end StablecoinRegistryRaw

end Polyleverage
