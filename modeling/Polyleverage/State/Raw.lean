import Polyleverage.Exec.Keeping
import Polyleverage.State.Admin
import Polyleverage.Store.Slots

/-! # Two accounts as they are laid out

The multisig and the stablecoin registry keep their keys in arrays of sixteen cells. Only the first few are
authoritative, and only as long as the count and the cells agree are they the lists that the rest of the
program works with.
-/

namespace Polyleverage

open Machine

/-! ### Admin multisig -/

def DISC_ADMIN_MULTISIG : ℕ := 14

structure AdminMultisigRaw where
  discriminator : ℕ
  bump : ℕ
  threshold : ℕ
  nSigners : ℕ
  bootstrapAdmin : Pubkey
  version : ℕ
  signers : Vector Pubkey MAX_MULTISIG_SIGNERS
  deriving DecidableEq, Repr

/-- The accounts that are passed to an instruction, and whether they signed. -/
abbrev PassedAccounts := List (Pubkey × Bool)

/-- The keys that signed, as often as they are passed. -/
def PassedAccounts.signed (accounts : PassedAccounts) : List Pubkey := (accounts.filter (·.2)).map (·.1)

namespace AdminMultisigRaw

def slots (ms : AdminMultisigRaw) : Slots Pubkey MAX_MULTISIG_SIGNERS := ⟨ms.nSigners, ms.signers⟩

/-- The multisig with these keys in its first cells. -/
def withSigners (ms : AdminMultisigRaw) (signers : List Pubkey) (threshold : ℕ) : AdminMultisigRaw :=
  { ms with
    signers := (Slots.ofList signers).cells
    nSigners := truncate 8 signers.length
    threshold }

/-- What a new account is filled with. -/
def created (bootstrapAdmin : Pubkey) (signers : List Pubkey) (threshold bump : ℕ) : AdminMultisigRaw where
  discriminator := DISC_ADMIN_MULTISIG
  bump
  threshold
  nSigners := truncate 8 signers.length
  bootstrapAdmin
  version := 1
  signers := (Slots.ofList signers).cells

def init (bootstrapAdmin : Pubkey) (signers : List Pubkey) (threshold bump : ℕ) : Exec ProgramError AdminMultisigRaw Unit := do
  Exec.ofExcept (AdminMultisig.validate signers threshold)
  let v ← Exec.get
  Exec.rejectIf (v.discriminator ≠ 0) PolyleverageError.alreadyInitialized
  Exec.put (created bootstrapAdmin signers threshold bump)

/-- The cells that count. -/
def activeSigners (ms : AdminMultisigRaw) : List Pubkey := ms.signers.toList.take (min ms.nSigners MAX_MULTISIG_SIGNERS)

/-- Every active key is looked for among the accounts, and counted at its first signature. -/
def countApprovals (ms : AdminMultisigRaw) (accounts : PassedAccounts) : ℕ :=
  ms.activeSigners.foldl
    (fun matched s => if accounts.any fun ai => ai.2 && ai.1 = s then saturatingAdd 8 matched 1 else matched) 0

def checkThreshold (ms : AdminMultisigRaw) (accounts : PassedAccounts) : Except ProgramError Unit :=
  if ms.threshold ≤ ms.countApprovals accounts then .ok ()
  else .error PolyleverageError.insufficientMultisigApprovals

def rotate (signers : List Pubkey) (threshold : ℕ) : Exec ProgramError AdminMultisigRaw Unit := do
  Exec.ofExcept (AdminMultisig.validate signers threshold)
  Exec.modify fun ms => { ms.withSigners signers threshold with version := saturatingAdd 64 ms.version 1 }

/-- What the account says. -/
def view (ms : AdminMultisigRaw) : AdminMultisig where
  bump := ms.bump
  threshold := ms.threshold
  bootstrapAdmin := ms.bootstrapAdmin
  version := ms.version
  signers := ms.slots.active

end AdminMultisigRaw

/-! ### Stablecoin registry -/

def DISC_STABLECOIN_REGISTRY : ℕ := 16

structure StablecoinRegistryRaw where
  discriminator : ℕ
  bump : ℕ
  nMints : ℕ
  wusdDecimals : ℕ
  wusdMint : Pubkey
  version : ℕ
  mints : Vector Pubkey MAX_STABLECOIN_SLOTS
  deriving DecidableEq, Repr

namespace StablecoinRegistryRaw

def slots (r : StablecoinRegistryRaw) : Slots Pubkey MAX_STABLECOIN_SLOTS := ⟨r.nMints, r.mints⟩

/-- The registry after a change of its mints. -/
def withMints (r : StablecoinRegistryRaw) (mints : Slots Pubkey MAX_STABLECOIN_SLOTS) : StablecoinRegistryRaw :=
  { r with nMints := truncate 8 mints.used, mints := mints.cells, version := saturatingAdd 64 r.version 1 }

/-- What a new account is filled with. -/
def created (wusdMint : Pubkey) (wusdDecimals : ℕ) (initialMints : List Pubkey) (bump : ℕ) : StablecoinRegistryRaw where
  discriminator := DISC_STABLECOIN_REGISTRY
  bump
  nMints := truncate 8 initialMints.length
  wusdDecimals
  wusdMint
  version := 1
  mints := (Slots.ofList initialMints).cells

def init (wusdMint : Pubkey) (wusdDecimals : ℕ) (initialMints : List Pubkey) (bump : ℕ) :
    Exec ProgramError StablecoinRegistryRaw Unit := do
  Exec.rejectIf (MAX_STABLECOIN_SLOTS < initialMints.length) PolyleverageError.invalidInstructionData
  Exec.ofExcept (StablecoinRegistry.validateMints initialMints)
  let r ← Exec.get
  Exec.rejectIf (r.discriminator ≠ 0) PolyleverageError.alreadyInitialized
  Exec.put (created wusdMint wusdDecimals initialMints bump)

def isAccepted (r : StablecoinRegistryRaw) (mint : Pubkey) : Bool :=
  (r.mints.toList.take (min r.nMints MAX_STABLECOIN_SLOTS)).any (· = mint)

def addMint (mint : Pubkey) : Exec ProgramError StablecoinRegistryRaw Unit := do
  let r ← Exec.get
  Exec.rejectIf (r.isAccepted mint) PolyleverageError.alreadyInitialized
  Exec.rejectIf (MAX_STABLECOIN_SLOTS ≤ r.nMints) PolyleverageError.invalidInstructionData
  Exec.put (r.withMints (r.slots.push mint))

def removeMint (mint : Pubkey) : Exec ProgramError StablecoinRegistryRaw Unit := do
  let r ← Exec.get
  -- A count beyond the array runs out of it, in the search or at the last mint.
  Exec.abortIf (MAX_STABLECOIN_SLOTS < r.nMints)
  let i ← Exec.orErr (r.slots.active.findIdx? (· = mint)) PolyleverageError.notInitialized
  Exec.put (r.withMints (r.slots.swapRemove i))

/-- What the account says. -/
def view (r : StablecoinRegistryRaw) : StablecoinRegistry where
  bump := r.bump
  wusdDecimals := r.wusdDecimals
  wusdMint := r.wusdMint
  version := r.version
  mints := r.slots.active

end StablecoinRegistryRaw

/-! ### What is accepted -/

theorem AdminMultisig.validate_ok {signers : List Pubkey} {threshold : ℕ} {u : Unit} :
    AdminMultisig.validate signers threshold = .ok u ↔
      (signers ≠ [] ∧ signers.length ≤ MAX_MULTISIG_SIGNERS) ∧ (threshold ≠ 0 ∧ threshold ≤ signers.length) ∧
        signers.Nodup := by
  rw [AdminMultisig.validate, ← not_lt, ← not_or, ← not_lt, ← not_or]
  split
  next misfit => simp [misfit]
  next fits =>
    split
    next unreachable => simp [unreachable]
    next reachable =>
      split
      next twice => simp [twice]
      next once => exact iff_of_true rfl ⟨fits, reachable, not_not.mp once⟩

theorem StablecoinRegistry.validateMints_ok {mints : List Pubkey} {u : Unit} :
    StablecoinRegistry.validateMints mints = .ok u ↔ default ∉ mints ∧ mints.Nodup := by
  induction mints with
  | nil => simp [StablecoinRegistry.validateMints]
  | cons m rest ih =>
    rw [StablecoinRegistry.validateMints]
    split
    next bad =>
      simp only [reduceCtorEq, List.mem_cons, List.nodup_cons, not_or, false_iff]
      rintro ⟨⟨set_key, -⟩, fresh, -⟩
      obtain rfl | again := bad
      · exact set_key rfl
      · exact fresh again
    next fine =>
      obtain ⟨set_key, fresh⟩ := not_or.mp fine
      rw [ih]
      simp [Ne.symm set_key, fresh]

/-! ### Runs on the cells -/

/-- A count of at most sixteen survives the cast to a byte. -/
theorem truncate_count {count : ℕ} (fits : count ≤ 16) : truncate 8 count = count := by
  rw [truncate, Nat.mod_eq_of_lt]
  omega

namespace AdminMultisigRaw

variable {ms ms' : AdminMultisigRaw} {bootstrapAdmin : Pubkey} {signers : List Pubkey} {threshold bump : ℕ}
  {accounts : PassedAccounts} {u : Unit}

/-- The count cannot point behind the array. -/
theorem activeSigners_eq (ms : AdminMultisigRaw) : ms.activeSigners = ms.slots.active := by
  have cells : ms.signers.toList.length = MAX_MULTISIG_SIGNERS := Vector.length_toList
  show ms.signers.toList.take (min ms.nSigners MAX_MULTISIG_SIGNERS) = ms.signers.toList.take ms.nSigners
  rw [List.take_eq_take_iff, cells]
  omega

/-- A rejected signer set leaves the account alone, and so does an account in use. -/
theorem init_run (v : AdminMultisigRaw) : (init bootstrapAdmin signers threshold bump).run v =
    match AdminMultisig.validate signers threshold with
    | .ok _ =>
      if v.discriminator ≠ 0 then .err PolyleverageError.alreadyInitialized v
      else .ok () (created bootstrapAdmin signers threshold bump)
    | .error e => .err e v := by
  rw [init, Exec.run_bind]
  cases AdminMultisig.validate signers threshold with
  | error e => rfl
  | ok _ =>
    show (Exec.get >>= _ : Exec _ _ _).run v = if _ then _ else _
    rw [Exec.run_bind_get, Exec.run_bind, Exec.run_rejectIf]
    split <;> rfl

theorem init_ok : (init bootstrapAdmin signers threshold bump).run ms = .ok u ms' ↔
    AdminMultisig.validate signers threshold = .ok () ∧ ms.discriminator = 0 ∧
      created bootstrapAdmin signers threshold bump = ms' := by
  simp only [init, Exec.bind_check, Exec.put_ok, ne_eq, not_not]
  simp

theorem rotate_run (ms : AdminMultisigRaw) : (rotate signers threshold).run ms =
    match AdminMultisig.validate signers threshold with
    | .ok _ => .ok () { ms.withSigners signers threshold with version := saturatingAdd 64 ms.version 1 }
    | .error e => .err e ms := by
  rw [rotate, Exec.run_bind]
  cases AdminMultisig.validate signers threshold <;> rfl

theorem rotate_ok : (rotate signers threshold).run ms = .ok u ms' ↔
    AdminMultisig.validate signers threshold = .ok () ∧
      { ms.withSigners signers threshold with version := saturatingAdd 64 ms.version 1 } = ms' := by
  simp only [rotate, Exec.bind_check, Exec.modify_ok]
  simp

theorem slots_withSigners (ms : AdminMultisigRaw) (threshold : ℕ) (fits : signers.length ≤ MAX_MULTISIG_SIGNERS) :
    (ms.withSigners signers threshold).slots = Slots.ofList signers := by
  show Slots.mk (truncate 8 signers.length) (Slots.ofList signers).cells = Slots.ofList signers
  rw [truncate_count fits]
  rfl

theorem slots_created (fits : signers.length ≤ MAX_MULTISIG_SIGNERS) :
    (created bootstrapAdmin signers threshold bump).slots = Slots.ofList signers :=
  slots_withSigners (created bootstrapAdmin signers threshold bump) threshold fits

/-! ### The account is what the program works with -/

theorem rotate_refines (ms : AdminMultisigRaw) :
    Exec.Refines view (fun v => v.rotate signers threshold) (rotate signers threshold) ms := by
  cases valid : AdminMultisig.validate signers threshold with
  | error e =>
    refine .inr ⟨e, ?_, ?_⟩
    · rw [rotate_run, valid]
    · simp [AdminMultisig.rotate, valid, bind, Except.bind]
  | ok _ =>
    refine .inl ⟨{ ms.withSigners signers threshold with version := saturatingAdd 64 ms.version 1 }, ?_, ?_⟩
    · rw [rotate_run, valid]
    · have fits := (AdminMultisig.validate_ok.mp valid).1.2
      have active : (ms.withSigners signers threshold).slots.active = signers := by
        rw [slots_withSigners ms threshold fits, Slots.active_ofList fits]
      simp only [AdminMultisig.rotate, valid, bind, Except.bind, Except.ok.injEq]
      exact congrArg (AdminMultisig.mk _ _ _ _) active.symm

/-- A saturating count stops at the largest byte. -/
theorem foldl_saturatingAdd (p : Pubkey → Bool) (keys : List Pubkey) (matched : ℕ) (small : matched ≤ 255) :
    keys.foldl (fun matched s => if p s then saturatingAdd 8 matched 1 else matched) matched =
      min (matched + keys.countP p) 255 := by
  induction keys generalizing matched with
  | nil => simp [small]
  | cons s rest ih =>
    rw [List.foldl_cons, List.countP_cons]
    split
    · have bounded : saturatingAdd 8 matched 1 ≤ 255 := Nat.min_le_right _ _
      rw [ih _ bounded, saturatingAdd, show maxValue 8 = 255 from rfl]
      omega
    · rw [ih _ small]
      omega

theorem countApprovals_view (ms : AdminMultisigRaw) (accounts : PassedAccounts) :
    ms.countApprovals accounts = ms.view.countApprovals accounts.signed := by
  have counted := foldl_saturatingAdd (fun s => accounts.any fun ai => ai.2 && ai.1 = s) ms.activeSigners 0 (Nat.zero_le _)
  have same : (fun s => accounts.any fun ai => ai.2 && ai.1 = s) = fun s => decide (s ∈ accounts.signed) := by
    funext s
    rw [Bool.eq_iff_iff]
    simp [PassedAccounts.signed]
  rw [countApprovals, counted, Nat.zero_add, activeSigners_eq, same]
  rfl

theorem checkThreshold_view (ms : AdminMultisigRaw) (accounts : PassedAccounts) :
    ms.checkThreshold accounts = ms.view.checkThreshold accounts.signed := by
  rw [checkThreshold, countApprovals_view]
  rfl

end AdminMultisigRaw

namespace StablecoinRegistryRaw

variable {r r' : StablecoinRegistryRaw} {wusdMint mint : Pubkey} {wusdDecimals bump : ℕ} {initialMints : List Pubkey}
  {u : Unit}

theorem isAccepted_view (r : StablecoinRegistryRaw) (mint : Pubkey) : r.isAccepted mint = r.view.isAccepted mint := by
  have cells : r.mints.toList.length = MAX_STABLECOIN_SLOTS := Vector.length_toList
  have active : r.mints.toList.take (min r.nMints MAX_STABLECOIN_SLOTS) = r.slots.active := by
    show _ = r.mints.toList.take r.nMints
    rw [List.take_eq_take_iff, cells]
    omega
  rw [isAccepted, active, StablecoinRegistry.isAccepted, Bool.eq_iff_iff]
  simp only [List.any_eq_true, decide_eq_true_eq, exists_eq_right]
  rfl

theorem init_run (r : StablecoinRegistryRaw) : (init wusdMint wusdDecimals initialMints bump).run r =
    if MAX_STABLECOIN_SLOTS < initialMints.length then .err PolyleverageError.invalidInstructionData r
    else
      match StablecoinRegistry.validateMints initialMints with
      | .ok _ =>
        if r.discriminator ≠ 0 then .err PolyleverageError.alreadyInitialized r
        else .ok () (created wusdMint wusdDecimals initialMints bump)
      | .error e => .err e r := by
  rw [init, Exec.run_bind, Exec.run_rejectIf]
  split
  · rfl
  · rw [Outcome.bind_ok, Exec.run_bind]
    cases StablecoinRegistry.validateMints initialMints with
    | error e => rfl
    | ok _ =>
      show (Exec.get >>= _ : Exec _ _ _).run r = if _ then _ else _
      rw [Exec.run_bind_get, Exec.run_bind, Exec.run_rejectIf]
      split <;> rfl

theorem init_ok : (init wusdMint wusdDecimals initialMints bump).run r = .ok u r' ↔
    initialMints.length ≤ MAX_STABLECOIN_SLOTS ∧ StablecoinRegistry.validateMints initialMints = .ok () ∧
      r.discriminator = 0 ∧ created wusdMint wusdDecimals initialMints bump = r' := by
  simp only [init, Exec.bind_check, Exec.put_ok, ne_eq, not_not, not_lt]
  simp

theorem slots_withMints (mints : Slots Pubkey MAX_STABLECOIN_SLOTS) (fits : mints.used ≤ MAX_STABLECOIN_SLOTS) :
    (r.withMints mints).slots = mints := by
  show Slots.mk (truncate 8 mints.used) mints.cells = mints
  rw [truncate_count fits]

theorem slots_created (fits : initialMints.length ≤ MAX_STABLECOIN_SLOTS) :
    (created wusdMint wusdDecimals initialMints bump).slots = Slots.ofList initialMints := by
  show Slots.mk (truncate 8 initialMints.length) (Slots.ofList initialMints).cells = Slots.ofList initialMints
  rw [truncate_count fits]
  rfl

theorem addMint_run (r : StablecoinRegistryRaw) : (addMint mint).run r =
    if r.isAccepted mint then .err PolyleverageError.alreadyInitialized r
    else if MAX_STABLECOIN_SLOTS ≤ r.nMints then .err PolyleverageError.invalidInstructionData r
    else .ok () (r.withMints (r.slots.push mint)) := by
  rw [addMint, Exec.run_bind_get, Exec.run_bind, Exec.run_rejectIf]
  split
  · rfl
  · rw [Outcome.bind_ok, Exec.run_bind, Exec.run_rejectIf]
    split <;> rfl

theorem removeMint_run (fits : r.nMints ≤ MAX_STABLECOIN_SLOTS) : (removeMint mint).run r =
    match r.slots.active.findIdx? (· = mint) with
    | some i => .ok () (r.withMints (r.slots.swapRemove i))
    | none => .err PolyleverageError.notInitialized r := by
  rw [removeMint, Exec.run_bind_get, Exec.run_bind, Exec.run_abortIf, if_neg (Nat.not_lt.mpr fits), Outcome.bind_ok,
    Exec.run_bind]
  cases r.slots.active.findIdx? (· = mint) <;> rfl

/-! ### The account is what the program works with -/

/-- The registry of lists keeps the order of the cells, also when the last mint moves into a gap. -/
theorem addMint_refines (dense : r.slots.Dense) : Exec.Refines view (fun v => v.addMint mint) (addMint mint) r := by
  have length : r.view.mints.length = r.nMints := Slots.length_active dense.used_le
  rw [Exec.Refines, addMint_run, isAccepted_view]
  simp only [StablecoinRegistry.addMint, length]
  split
  next => exact .inr ⟨_, rfl, rfl⟩
  next =>
    split
    next => exact .inr ⟨_, rfl, rfl⟩
    next room =>
      refine .inl ⟨_, rfl, ?_⟩
      have free : r.slots.used < MAX_STABLECOIN_SLOTS := Nat.not_le.mp room
      have active : (r.withMints (r.slots.push mint)).slots.active = r.slots.active ++ [mint] := by
        rw [slots_withMints (r.slots.push mint) free, Slots.active_push free]
      exact congrArg (fun mints => Except.ok (StablecoinRegistry.mk _ _ _ _ mints)) active.symm

theorem findIdx?_lt {mints : List Pubkey} {i : ℕ} (found : mints.findIdx? (· = mint) = some i) : i < mints.length := by
  obtain ⟨inside, -⟩ := List.findIdx?_eq_some_iff_getElem.mp found
  exact inside

theorem removeMint_refines (dense : r.slots.Dense) : Exec.Refines view (fun v => v.removeMint mint) (removeMint mint) r := by
  have length : r.slots.active.length = r.slots.used := Slots.length_active dense.used_le
  rw [Exec.Refines, removeMint_run dense.used_le]
  simp only [StablecoinRegistry.removeMint, view]
  cases found : r.slots.active.findIdx? (· = mint) with
  | none => exact .inr ⟨_, rfl, rfl⟩
  | some i =>
    refine .inl ⟨_, rfl, ?_⟩
    have inside : i < r.slots.used := length ▸ findIdx?_lt found
    have active : (r.withMints (r.slots.swapRemove i)).slots.active = StablecoinRegistry.swapRemove r.slots.active i := by
      have fits : (r.slots.swapRemove i).used ≤ MAX_STABLECOIN_SLOTS := (dense.swapRemove inside).used_le
      rw [slots_withMints _ fits, Slots.active_swapRemove dense.used_le inside, StablecoinRegistry.swapRemove]
      have some_mints : r.slots.active ≠ [] := List.ne_nil_of_length_pos (by omega)
      rw [List.getLast?_eq_some_getLast some_mints]
      rfl
    exact congrArg (fun mints => Except.ok (StablecoinRegistry.mk _ _ _ _ mints)) active.symm

theorem dense_addMint (dense : r.slots.Dense) (ran : (addMint mint).run r = .ok u r') : r'.slots.Dense := by
  rw [addMint_run] at ran
  split at ran
  next => cases ran
  next =>
    split at ran
    next => cases ran
    next room =>
      cases ran
      have free : r.slots.used < MAX_STABLECOIN_SLOTS := Nat.not_le.mp room
      rw [slots_withMints (r.slots.push mint) free]
      exact dense.push free mint

theorem dense_removeMint (dense : r.slots.Dense) (ran : (removeMint mint).run r = .ok u r') : r'.slots.Dense := by
  have length : r.slots.active.length = r.slots.used := Slots.length_active dense.used_le
  rw [removeMint_run dense.used_le] at ran
  cases found : r.slots.active.findIdx? (· = mint) with
  | none => rw [found] at ran; cases ran
  | some i =>
    rw [found] at ran
    cases ran
    have inside : i < r.slots.used := length ▸ findIdx?_lt found
    rw [slots_withMints _ (dense.swapRemove inside).used_le]
    exact dense.swapRemove inside

end StablecoinRegistryRaw

end Polyleverage
