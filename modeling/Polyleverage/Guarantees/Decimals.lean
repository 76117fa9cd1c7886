import Polyleverage.Invariants.History
import Polyleverage.Invariants.Reserves
import Polyleverage.Invariants.Vacant
import Polyleverage.Sample

/-! # The peg

Accepted coins are swapped atom for atom, so each of them has to have the decimals of the wrapped coin.
Adding a mint to the registry compares its decimals with what the registry says of the wrapped coin. The
mints that the registry is set up with are not compared with anything.
-/

namespace Polyleverage

variable {rt : Runtime} {inv : rt.Invocation} {s t : Ledger} {k mint : Pubkey} {u : Unit}

/-- The decimals of a mint. -/
def Account.decimals (rt : Runtime) : Account → Option ℕ
  | ⟨o, .mint m⟩ => if o = rt.tokenProgram then some m.decimals else none
  | _ => none

namespace Ledger

variable (rt)

def decimals (s : Ledger) (k : Pubkey) : Option ℕ := (s.get k).decimals rt

/-- The stablecoin registry lies at its address. -/
def Registry (s : Ledger) (r : StablecoinRegistry) : Prop :=
  s.get (rt.address .stablecoinRegistry) = ⟨rt.programId, .stablecoinRegistry r⟩

end Ledger

/-- Every accepted mint is a mint with the decimals of the wrapped coin. -/
def Pegged (rt : Runtime) (s : Ledger) : Prop :=
  ∀ mint ∈ acceptedMints rt s, s.decimals rt mint ≠ none ∧ s.decimals rt mint = s.decimals rt (rt.address .wusdMint)

/-- A call that sets the registry up lists mints with the decimals that it gives to the wrapped coin, and a
call that adds an account adds a mint. -/
def Call.ListsMints (c : Call rt) (s : Ledger) : Prop :=
  match c.instruction with
  | .initStablecoinRegistry args =>
    ∀ mint ∈ args.initialMints, mint = rt.address .wusdMint ∨ s.decimals rt mint = some args.wusdDecimals.toNat
  | .addStablecoinMint => ∀ mint ∈ (c.inv.accounts.drop 2).head?, s.decimals rt mint ≠ none
  | _ => True

theorem mem_acceptedMints : mint ∈ acceptedMints rt s ↔ ∃ r, s.Registry rt r ∧ mint ∈ r.mints := by
  unfold acceptedMints Ledger.Registry
  split
  next o r held =>
    by_cases mine : o = rt.programId
    · subst mine
      rw [held]
      simp
    · rw [held]
      simp [mine]
  next other =>
    constructor
    · intro none
      cases none
    · rintro ⟨r, held, -⟩
      exact absurd held (other _ r)

theorem Ledger.Registry.unique {r r' : StablecoinRegistry} (held : s.Registry rt r) (held' : s.Registry rt r') : r = r' := by
  unfold Ledger.Registry at held held'
  rw [held] at held'
  cases held'
  rfl

/-- A registry of the program is the registry. -/
theorem registry_of_load {r : StablecoinRegistry} (genuine : Genuine rt s) (owned : s.owner k = rt.programId)
    (held : s.data k = .stablecoinRegistry r) : k = rt.address .stablecoinRegistry ∧ s.Registry rt r := by
  have here := genuine.fits k owned
  rw [held] at here
  have account := get_eq_of_data owned held
  rw [← (here : _ = k)] at account
  exact ⟨(here : _ = k).symm, account⟩

/-! ### Decimals never change -/

theorem decimals_of_kind {a : Account} (other : a.data.kind ≠ .mint) : a.decimals rt = none := by
  obtain ⟨o, d⟩ := a
  cases d with
  | mint m => exact absurd rfl other
  | _ => rfl

theorem decimals_of_touches {old new : List AccountKind} (touches : Touches old new s t) (unwritten : AccountKind.mint ∉ old)
    (unleft : AccountKind.mint ∉ new) : t.decimals rt k = s.decimals rt k := by
  unfold Ledger.decimals
  rcases touches k with same | ⟨was, is⟩
  · rw [same]
  · rw [decimals_of_kind, decimals_of_kind]
    · rintro kind
      exact unwritten (kind ▸ was)
    · rintro kind
      exact unleft (kind ▸ is)

theorem decimals_of_tokenMoved {minus plus : ℕ} (moved : TokenMoved rt.tokenProgram s t k minus plus) :
    t.decimals rt k = s.decimals rt k := by
  obtain ⟨a, a', before, after, -⟩ := moved
  rw [Ledger.decimals, Ledger.decimals, before, after]
  rfl

section Calls

variable {source destination authority : Pubkey} {amount : ℕ}

theorem decimals_transfer (called : rt.transfer s source destination authority amount = some t) :
    t.decimals rt k = s.decimals rt k := by
  obtain ⟨-, paid, got, -, rest⟩ := rt.transfer_moves called
  by_cases pays : k = source
  · rw [pays, decimals_of_tokenMoved paid]
  · by_cases gets : k = destination
    · rw [gets, decimals_of_tokenMoved got]
    · rw [Ledger.decimals, rest k pays gets, Ledger.decimals]

theorem decimals_mintTo (called : rt.mintTo s mint destination authority amount = some t) :
    t.decimals rt k = s.decimals rt k := by
  obtain ⟨⟨m, before, -, after⟩, got, -, rest⟩ := rt.mintTo_moves called
  by_cases mints : k = mint
  · rw [mints, Ledger.decimals, Ledger.decimals, before, after]
    rfl
  · by_cases gets : k = destination
    · rw [gets, decimals_of_tokenMoved got]
    · rw [Ledger.decimals, rest k mints gets, Ledger.decimals]

theorem decimals_burn (called : rt.burn s source mint authority amount = some t) : t.decimals rt k = s.decimals rt k := by
  obtain ⟨-, ⟨m, before, -, after⟩, paid, -, rest⟩ := rt.burn_moves called
  by_cases burns : k = mint
  · rw [burns, Ledger.decimals, Ledger.decimals, before, after]
    rfl
  · by_cases pays : k = source
    · rw [pays, decimals_of_tokenMoved paid]
    · rw [Ledger.decimals, rest k burns pays, Ledger.decimals]

end Calls

theorem decimals_processWrapStablecoin {amount : UInt64} (ran : (processWrapStablecoin rt inv amount).run s = .ok () t) :
    t.decimals rt k = s.decimals rt k := by
  rw [processWrapStablecoin, Exec.bind_check] at ran
  obtain ⟨-, -, ran⟩ := ran
  split at ran
  · simp only [Exec.bind_check, exists_const] at ran
    obtain ⟨-, -, -, -, -, -, -, _, -, _, -, _, -, a, -, ran⟩ := ran
    rw [Exec.bind_ok] at ran
    obtain ⟨_, mid, paid, minted⟩ := ran
    exact (decimals_mintTo (invoke_ok.mp minted)).trans (decimals_transfer (invoke_ok.mp paid))
  · cases ran

theorem decimals_processUnwrapStablecoin {amount : UInt64} (ran : (processUnwrapStablecoin rt inv amount).run s = .ok () t) :
    t.decimals rt k = s.decimals rt k := by
  rw [processUnwrapStablecoin, Exec.bind_check] at ran
  obtain ⟨-, -, ran⟩ := ran
  split at ran
  · simp only [Exec.bind_check, exists_const] at ran
    obtain ⟨-, -, -, -, -, -, -, _, -, _, -, _, -, a, -, -, ran⟩ := ran
    rw [Exec.bind_ok] at ran
    obtain ⟨_, mid, burned, paid⟩ := ran
    exact (decimals_transfer (invoke_ok.mp paid)).trans (decimals_burn (invoke_ok.mp burned))
  · cases ran

/-- Only the set-up of the registry opens a mint, and nothing changes the decimals of one. -/
theorem decimals_of_process {instr : Instruction} (other : ∀ args, instr ≠ .initStablecoinRegistry args)
    (ran : (process rt inv instr).run s = .ok () t) : t.decimals rt k = s.decimals rt k := by
  have touches := (within_process rt inv instr).keeps.ok ran
  cases instr with
  | wrapStablecoin amount => exact decimals_processWrapStablecoin ran
  | unwrapStablecoin amount => exact decimals_processUnwrapStablecoin ran
  | initStablecoinRegistry args => exact absurd rfl (other args)
  | _ => exact decimals_of_touches touches (by simp [Instruction.writes]) (by simp [Instruction.leaves, Instruction.writes])

/-! ### The registry -/

theorem registry_of_touches {old new : List AccountKind} {r : StablecoinRegistry} (touches : Touches old new s t)
    (unwritten : AccountKind.stablecoinRegistry ∉ old) (unleft : AccountKind.stablecoinRegistry ∉ new) :
    t.Registry rt r ↔ s.Registry rt r := by
  unfold Ledger.Registry
  rcases touches (rt.address .stablecoinRegistry) with same | ⟨was, is⟩
  · rw [same]
  · constructor
    · intro held
      rw [Ledger.data, held] at is
      exact absurd is unleft
    · intro held
      rw [Ledger.data, held] at was
      exact absurd was unwritten

theorem registry_of_process {instr : Instruction} {r : StablecoinRegistry}
    (ran : (process rt inv instr).run s = .ok () t) (setUp : ∀ args, instr ≠ .initStablecoinRegistry args)
    (adds : instr ≠ .addStablecoinMint) (removes : instr ≠ .removeStablecoinMint) : t.Registry rt r ↔ s.Registry rt r := by
  have touches := (within_process rt inv instr).keeps.ok ran
  cases instr with
  | initStablecoinRegistry args => exact absurd rfl (setUp args)
  | addStablecoinMint => exact absurd rfl adds
  | removeStablecoinMint => exact absurd rfl removes
  | _ => exact registry_of_touches touches (by simp [Instruction.writes]) (by simp [Instruction.leaves, Instruction.writes])

theorem acceptMint_ok {x y : StablecoinRegistry} {decimals : ℕ} (ran : (acceptMint mint decimals).run x = .ok u y) :
    decimals = x.wusdDecimals ∧ y.wusdDecimals = x.wusdDecimals ∧ y.mints = x.mints ++ [mint] := by
  simp only [acceptMint, Exec.bind_check, Exec.put_ok, exists_eq_left', exists_const, ne_eq, not_not] at ran
  obtain ⟨same, added, found, rfl⟩ := ran
  refine ⟨same, ?_⟩
  unfold StablecoinRegistry.addMint at found
  split_ifs at found
  cases found
  exact ⟨rfl, rfl⟩

/-- A mint with other decimals than the registry's is turned away. -/
example : ((acceptMint Sample.mint 6).run ⟨255, 9, ⟨0⟩, 1, []⟩).value? = none := by decide +kernel

theorem mem_of_mem_swapRemove {mints : List Pubkey} {i : ℕ} (member : mint ∈ StablecoinRegistry.swapRemove mints i) :
    mint ∈ mints := by
  unfold StablecoinRegistry.swapRemove at member
  split at member
  next last found =>
    rcases List.mem_or_eq_of_mem_set (List.mem_of_mem_dropLast member) with old | rfl
    · exact old
    · exact List.mem_of_getLast? found
  · cases member

theorem dropMint_ok {x y : StablecoinRegistry} (ran : (dropMint mint).run x = .ok u y) :
    y.wusdDecimals = x.wusdDecimals ∧ ∀ m ∈ y.mints, m ∈ x.mints := by
  simp only [dropMint, Exec.bind_check, Exec.put_ok, exists_eq_left'] at ran
  obtain ⟨removed, found, rfl⟩ := ran
  unfold StablecoinRegistry.removeMint at found
  split at found
  · cases found
  · cases found
    exact ⟨rfl, fun m => mem_of_mem_swapRemove⟩

theorem registry_setData {r : StablecoinRegistry} (owned : s.owner (rt.address .stablecoinRegistry) = rt.programId) :
    (s.setData (rt.address .stablecoinRegistry) (.stablecoinRegistry r)).Registry rt r := by
  rw [Ledger.Registry, Ledger.get_setData_self, owned]

/-- The registry was rewritten in place. -/
theorem registry_of_atAccount {m : Exec ProgramError StablecoinRegistry Unit} (genuine : Genuine rt s)
    (owned : s.owner k = rt.programId)
    (ran : (atAccount rt inv AccountData.loadStablecoinRegistry .stablecoinRegistry k m).run s = .ok u t) :
    ∃ x y, s.Registry rt x ∧ t.Registry rt y ∧ m.run x = .ok () y := by
  obtain ⟨x, y, held, inner, rfl, -⟩ := atAccount_ok ran
  have held : s.data k = .stablecoinRegistry x := Views.eq_data.mp held
  obtain ⟨rfl, before⟩ := registry_of_load genuine owned held
  exact ⟨x, y, before, registry_setData owned, inner⟩

/-- An added account has the decimals that the registry says, or is not even a mint. -/
theorem processAddStablecoinMint_ok (genuine : Genuine rt s) (ran : (processAddStablecoinMint rt inv).run s = .ok () t) :
    ∃ x y mint, s.Registry rt x ∧ t.Registry rt y ∧ (inv.accounts.drop 2).head? = some mint ∧ y.wusdDecimals = x.wusdDecimals ∧
      y.mints = x.mints ++ [mint] ∧ (s.decimals rt mint = none ∨ s.decimals rt mint = some x.wusdDecimals) := by
  unfold processAddStablecoinMint at ran
  split at ran
  next config registry mint rest accounts =>
    simp only [Exec.bind_check, exists_const] at ran
    obtain ⟨-, owned, token, _, -, m, ⟨-, found⟩, ran⟩ := ran
    obtain ⟨x, y, before, after, accepted⟩ := registry_of_atAccount genuine (owned _ (by simp)) ran
    obtain ⟨agree, same, mints⟩ := acceptMint_ok accepted
    refine ⟨x, y, mint, before, after, by rw [accounts]; rfl, same, mints, ?_⟩
    have account : s.get mint = ⟨rt.tokenProgram, s.data mint⟩ := by
      rw [← token]
      rfl
    rw [Ledger.decimals, account]
    cases held : s.data mint with
    | mint m' =>
      rw [held, rt.unpackMint_mint] at found
      cases found
      simp [Account.decimals, agree]
    | _ => exact .inl rfl
  · cases ran

theorem processRemoveStablecoinMint_ok (genuine : Genuine rt s) (ran : (processRemoveStablecoinMint rt inv).run s = .ok () t) :
    ∃ x y, s.Registry rt x ∧ t.Registry rt y ∧ y.wusdDecimals = x.wusdDecimals ∧ ∀ m ∈ y.mints, m ∈ x.mints := by
  unfold processRemoveStablecoinMint at ran
  split at ran
  · simp only [Exec.bind_check, exists_const] at ran
    obtain ⟨-, owned, _, -, ran⟩ := ran
    obtain ⟨x, y, before, after, removed⟩ := registry_of_atAccount genuine (owned _ (by simp)) ran
    exact ⟨x, y, before, after, dropMint_ok removed⟩
  · cases ran

theorem ensureWusdMint_ok {payer authority : Pubkey} {decimals : ℕ} (vacant : s.get k = default)
    (ran : (ensureWusdMint rt inv payer k authority decimals).run s = .ok u t) :
    t.get k = ⟨rt.tokenProgram, .mint ⟨some authority, 0, decimals⟩⟩ ∧ ∀ j, j ≠ k → t.get j = s.get j := by
  rw [ensureWusdMint, Exec.run_bind_get, Ledger.data, vacant] at ran
  rcases Exec.when_ok.mp ran with ⟨-, ran⟩ | ⟨full, -⟩
  · rw [Exec.bind_ok] at ran
    obtain ⟨_, mid, created, inited⟩ := ran
    obtain ⟨-, rfl⟩ := createAccount_ok created
    obtain ⟨-, rfl⟩ := rt.initializeMint_inits (invoke_ok.mp inited)
    refine ⟨Store.get_set_self _ _ _, fun j other => ?_⟩
    rw [Store.get_set_of_ne _ _ other, Store.get_set_of_ne _ _ other]
  · exact absurd rfl full

/-- Setting the registry up opens the wrapped coin's mint, and accepts whatever is listed. -/
theorem processInitStablecoinRegistry_ok {args : InitStablecoinRegistryArgs}
    (vacant : (∀ r, ¬ s.Registry rt r) → s.get (rt.address .wusdMint) = default)
    (ran : (processInitStablecoinRegistry rt inv args).run s = .ok () t) :
    (∀ r, ¬ s.Registry rt r) ∧
      (∃ r, t.Registry rt r ∧ r.wusdDecimals = args.wusdDecimals.toNat ∧ r.mints = args.initialMints) ∧
      t.decimals rt (rt.address .wusdMint) = some args.wusdDecimals.toNat ∧
      ∀ k, k ≠ rt.address .wusdMint → t.decimals rt k = s.decimals rt k := by
  unfold processInitStablecoinRegistry at ran
  split at ran
  next admin config registry wusdMint wusdAuthority tokenProgram system rent rest _ =>
    simp only [Exec.bind_check, exists_const] at ran
    obtain ⟨-, -, -, -, owned, -, -, _, -, bump, ⟨rfl, -⟩, _, ⟨rfl, -⟩, _, ⟨rfl, -⟩, ran⟩ := ran
    rw [Exec.bind_ok] at ran
    obtain ⟨_, s1, created, ran⟩ := ran
    rw [Exec.bind_ok] at ran
    obtain ⟨_, s2, ensured, ran⟩ := ran
    simp only [Exec.bind_check, exists_const] at ran
    obtain ⟨-, -, inited⟩ := ran
    have creates : Touches [.raw] [.raw] s s1 := Within.keeps.ok created
    have stays : StaysVacant rt [rt.address .stablecoinRegistry] s s1 := Exec.Keeping.keeps.ok created
    have ensures : Touches [.raw] [.raw, .mint] s1 s2 := Within.keeps.ok ensured
    have inits : Touches [.raw] [.raw, .stablecoinRegistry] s2 t := Within.keeps.ok inited
    obtain ⟨blank, rfl, mine⟩ := initAccount_ok inited
    have fresh : ∀ r, ¬ s.Registry rt r := by
      intro r held
      have first : s1.get _ = _ := (creates.get_eq (by rw [Ledger.data, held]; simp [AccountData.kind])).trans held
      have second : s2.get _ = _ := (ensures.get_eq (by rw [Ledger.data, first]; simp [AccountData.kind])).trans first
      rw [Ledger.data, second] at blank
      cases blank
    obtain ⟨opened, rest⟩ := ensureWusdMint_ok (stays (by simp) (vacant fresh)) ensured
    have apart : rt.address .stablecoinRegistry ≠ rt.address .wusdMint := by simp
    have owned' := mine.resolve_left (by rw [blank]; rintro ⟨⟩)
    refine ⟨fresh, ⟨_, registry_setData owned', rfl, rfl⟩, ?_, fun j other => ?_⟩
    · rw [Ledger.decimals, Ledger.get_setData_of_ne _ _ apart.symm, opened]
      exact if_pos rfl
    · rw [decimals_of_touches inits (by simp) (by simp), Ledger.decimals, rest j other]
      exact decimals_of_touches creates (by simp) (by simp)
  · cases ran

/-! ### Runs -/

/-- The wrapped coin's mint is opened together with the registry, with the decimals that the registry says. -/
structure Launched (rt : Runtime) (s : Ledger) : Prop where
  genuine : Genuine rt s
  opened : ∀ r, s.Registry rt r → s.decimals rt (rt.address .wusdMint) = some r.wusdDecimals
  vacant : (∀ r, ¬ s.Registry rt r) → s.get (rt.address .wusdMint) = default

theorem launched_genesis (gen : Genesis rt s) : Launched rt s where
  genuine := genuine_genesis gen
  opened r held := by
    rw [Ledger.Registry, gen.vacant] at held
    cases congrArg Account.data held
  vacant _ := gen.vacant _

/-- The registry stays what it says of the wrapped coin. -/
theorem Launched.rewritten {x y : StablecoinRegistry} (launched : Launched rt s) (genuine : Genuine rt t)
    (same : ∀ k, t.decimals rt k = s.decimals rt k) (before : s.Registry rt x) (after : t.Registry rt y)
    (agree : y.wusdDecimals = x.wusdDecimals) : Launched rt t where
  genuine := genuine
  opened r held := by
    rw [same, launched.opened x before, held.unique after, agree]
  vacant none := absurd after (none y)

theorem Launched.process {instr : Instruction} (launched : Launched rt s) (ran : (process rt inv instr).run s = .ok () t) :
    Launched rt t := by
  have genuine := (upkeep_process launched.genuine ran).genuine
  cases instr with
  | initStablecoinRegistry args =>
    obtain ⟨-, ⟨r, after, decimals, -⟩, opened, -⟩ := processInitStablecoinRegistry_ok launched.vacant ran
    refine ⟨genuine, fun r' held => ?_, fun none => absurd after (none r)⟩
    rw [held.unique after, opened, decimals]
  | addStablecoinMint =>
    obtain ⟨x, y, mint, before, after, -, agree, -⟩ := processAddStablecoinMint_ok launched.genuine ran
    exact launched.rewritten genuine (fun k => decimals_of_process (by simp) ran) before after agree
  | removeStablecoinMint =>
    obtain ⟨x, y, before, after, agree, -⟩ := processRemoveStablecoinMint_ok launched.genuine ran
    exact launched.rewritten genuine (fun k => decimals_of_process (by simp) ran) before after agree
  | _ =>
    refine ⟨genuine, fun r held => ?_, fun none => ?_⟩
    · rw [registry_of_process ran (by simp) (by simp) (by simp)] at held
      rw [decimals_of_process (by simp) ran, launched.opened r held]
    · have vacant := launched.vacant fun r held => none r ((registry_of_process ran (by simp) (by simp) (by simp)).mpr held)
      exact staysVacant_of_process (by simp) ran (by simp) vacant

/-- The peg of a registry that is there. -/
theorem pegged_iff_of_registry {r : StablecoinRegistry} (launched : Launched rt s) (held : s.Registry rt r) :
    Pegged rt s ↔ ∀ mint ∈ r.mints, s.decimals rt mint = some r.wusdDecimals := by
  rw [Pegged, launched.opened r held]
  constructor
  · intro pegged mint member
    exact (pegged mint (mem_acceptedMints.mpr ⟨r, held, member⟩)).2
  · intro agree mint member
    obtain ⟨r', held', member⟩ := mem_acceptedMints.mp member
    rw [agree mint (held'.unique held ▸ member)]
    simp

/-- Without a registry nothing is accepted. -/
theorem pegged_of_none (none : ∀ r, ¬ s.Registry rt r) : Pegged rt s := by
  intro mint member
  obtain ⟨r, held, -⟩ := mem_acceptedMints.mp member
  exact absurd held (none r)

/-- A call that returns keeps the peg exactly when it lists mints. -/
theorem pegged_call {c : Call rt} (launched : Launched rt s) (pegged : Pegged rt s) (returns : c.returns s = true) :
    Pegged rt (execute rt c s) ↔ c.ListsMints s := by
  have ran := c.ran returns
  have launched' := launched.process ran
  obtain ⟨inv, instr⟩ := c
  cases instr with
  | initStablecoinRegistry args =>
    obtain ⟨-, ⟨r, after, decimals, mints⟩, opened, rest⟩ := processInitStablecoinRegistry_ok launched.vacant ran
    rw [pegged_iff_of_registry launched' after, decimals, mints]
    apply forall₂_congr
    intro mint _
    by_cases wrapped : mint = rt.address .wusdMint
    · subst wrapped
      simp [opened]
    · simp [rest mint wrapped, wrapped]
  | addStablecoinMint =>
    obtain ⟨x, y, mint, before, after, asked, agree, mints, known⟩ := processAddStablecoinMint_ok launched.genuine ran
    have same : ∀ k, Ledger.decimals rt _ k = s.decimals rt k := fun k => decimals_of_process (by simp) ran
    rw [pegged_iff_of_registry launched before] at pegged
    rw [pegged_iff_of_registry launched' after, agree, mints]
    simp only [Call.ListsMints, asked, same, List.mem_append, List.mem_singleton, Option.mem_def, Option.some.injEq]
    constructor
    · rintro all m rfl
      rw [all _ (.inr rfl)]
      simp
    · rintro listed m (old | rfl)
      · exact pegged m old
      · exact known.resolve_left (listed m rfl)
  | removeStablecoinMint =>
    obtain ⟨x, y, before, after, agree, mints⟩ := processRemoveStablecoinMint_ok launched.genuine ran
    rw [pegged_iff_of_registry launched before] at pegged
    rw [pegged_iff_of_registry launched' after, agree]
    refine iff_of_true (fun mint member => ?_) trivial
    rw [decimals_of_process (by simp) ran, pegged mint (mints mint member)]
  | _ =>
    refine iff_of_true (fun mint member => ?_) trivial
    obtain ⟨r, held, member⟩ := mem_acceptedMints.mp member
    rw [registry_of_process ran (by simp) (by simp) (by simp)] at held
    rw [decimals_of_process (by simp) ran, decimals_of_process (by simp) ran]
    exact pegged mint (mem_acceptedMints.mpr ⟨r, held, member⟩)

theorem launched_of_run {start : Ledger} (gen : Genesis rt start) (calls : List (Call rt)) : Launched rt (runCalls rt calls start) :=
  runCalls_induct (fun _ _ _ _ launched ran => launched.process ran) (launched_genesis gen)

/-- The peg holds in every ledger of a run exactly when its calls list mints: the registry is set up with
mints that have the decimals of the wrapped coin, and what is added later is a mint at all. -/
theorem pegged_iff {start : Ledger} (gen : Genesis rt start) (calls : List (Call rt)) :
    (∀ past, past <+: calls → Pegged rt (runCalls rt past start)) ↔
      ∀ past c, past ++ [c] <+: calls → c.returns (runCalls rt past start) = true → c.ListsMints (runCalls rt past start) := by
  constructor
  · intro pegged past c reached returns
    have before := pegged past ((List.prefix_append past [c]).trans reached)
    have after := pegged _ reached
    rw [runCalls_concat] at after
    exact (pegged_call (launched_of_run gen past) before returns).mp after
  · intro lists past
    induction past using List.reverseRecOn with
    | nil =>
      intro _
      apply pegged_of_none
      intro r held
      rw [runCalls_nil, Ledger.Registry, gen.vacant] at held
      cases congrArg Account.data held
    | append_singleton past c ih =>
      intro reached
      have before := ih ((List.prefix_append past [c]).trans reached)
      rw [runCalls_concat]
      cases returns : c.returns (runCalls rt past start) with
      | true => exact (pegged_call (launched_of_run gen past) before returns).mpr (lists past c reached returns)
      | false => rwa [execute_of_not_returns returns]

namespace Sample

/-- The registry is set up with the sample's mint, of six decimals, for a wrapped coin of so many. -/
def accepting (decimals : UInt8) : List (Call Runtime.sample) :=
  [call (.initProgramConfig ⟨oracle, 60⟩) [admin] [admin, config, admin, systemProgram],
    call (.initStablecoinRegistry ⟨decimals, [Sample.mint]⟩) [admin]
      [admin, config, Runtime.sample.address .stablecoinRegistry, Runtime.sample.address .wusdMint,
        Runtime.sample.address .wusdAuthority, Runtime.sample.tokenProgram, systemProgram, ⟨2⟩]]

end Sample

/-- A mint of six decimals is accepted for a wrapped coin of nine. -/
theorem mint_unpegged : Genesis Runtime.sample Sample.genesis ∧
    ¬ Pegged Runtime.sample (runCalls Runtime.sample (Sample.accepting 9) Sample.genesis) := by
  refine ⟨Sample.genesis_genesis, ?_⟩
  unfold Pegged
  decide +kernel

theorem pegged_iff_accepting : Pegged Runtime.sample (runCalls Runtime.sample (Sample.accepting 6) Sample.genesis) := by
  refine (pegged_iff Sample.genesis_genesis (Sample.accepting 6)).mpr ?_ _ List.prefix_rfl
  rintro past c ⟨rest, same⟩
  rcases past with _ | ⟨first, _ | ⟨second, past⟩⟩
  · cases same
    exact fun _ => trivial
  · cases same
    intro returns listed member
    rw [List.mem_singleton.mp member]
    exact .inr (by decide +kernel)
  · simp [Sample.accepting] at same

end Polyleverage
