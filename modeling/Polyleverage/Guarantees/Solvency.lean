import Polyleverage.Invariants.Upkeep
import Polyleverage.Sample

/-! # The three ledgers agree

In every ledger that the program reaches, the vault of a mint pays for all balances of the mint; what a
trader has reserved is what its orders reserve; what a trader has locked is what backs its positions.
-/

namespace Polyleverage

variable {rt : Runtime} {s t : Ledger} {owner mint : Pubkey}

/-! ### A trader's own account -/

namespace Ledger

/-- A balance of the margin account of a trader for a mint; nothing, as long as there is none. -/
def marginBalance (rt : Runtime) (s : Ledger) (owner mint : Pubkey) (bucket : Bucket) : ℕ :=
  if s.owner (rt.address (.margin owner mint)) = rt.programId then
    match s.data (rt.address (.margin owner mint)) with
    | .marginAccount m => m.balance bucket
    | _ => 0
  else 0

/-- A quantity that only one account counts. -/
theorem holdings_single {k : Pubkey} {μ : AccountData → ℕ}
    (others : ∀ j, j ≠ k → s.owner j = rt.programId → μ (s.data j) = 0) :
    s.holdings rt μ = if s.owner k = rt.programId then μ (s.data k) else 0 := by
  apply Store.total_single fun _ => count_default rt μ
  intro j other
  split
  next owned => exact others j other owned
  · rfl

end Ledger

/-- The account that counts a trader's margin is the one at the trader's address. -/
theorem Genuine.holdings_margin (genuine : Genuine rt s) {μ : AccountData → ℕ} {bucket : Bucket}
    (counts : ∀ m, μ (.marginAccount m) = if m.isOf owner mint then m.balance bucket else 0)
    (nothing : ∀ d, (∀ m, d ≠ .marginAccount m) → μ d = 0) :
    s.holdings rt μ = s.marginBalance rt owner mint bucket := by
  have here : ∀ j, j ≠ rt.address (.margin owner mint) → s.owner j = rt.programId → μ (s.data j) = 0 := by
    intro j other owned
    cases found : s.data j with
    | marginAccount m =>
      rw [counts]
      apply if_neg
      rintro ⟨rfl, rfl⟩
      exact other (genuine.margin_ok owned found).1.symm
    | _ => exact nothing _ fun m => by simp
  rw [Ledger.holdings_single here, Ledger.marginBalance]
  split
  next owned =>
    cases found : s.data (rt.address (.margin owner mint)) with
    | marginAccount m =>
      have identity := genuine.margin_identity rfl owned found
      rw [counts]
      exact if_pos identity
    | _ => exact nothing _ fun m => by simp
  · rfl

theorem Genuine.holdings_reserved (genuine : Genuine rt s) (owner mint : Pubkey) :
    s.holdings rt (AccountData.reserved owner mint) = s.marginBalance rt owner mint .reserved := by
  apply genuine.holdings_margin fun _ => rfl
  intro d other
  cases d with
  | marginAccount m => exact absurd rfl (other m)
  | _ => rfl

theorem Genuine.holdings_locked (genuine : Genuine rt s) (owner mint : Pubkey) :
    s.holdings rt (AccountData.locked owner mint) = s.marginBalance rt owner mint .locked := by
  apply genuine.holdings_margin fun _ => rfl
  intro d other
  cases d with
  | marginAccount m => exact absurd rfl (other m)
  | _ => rfl

/-! ### Genesis -/

/-- Before the program was called, nothing is counted. -/
theorem Genesis.holdings (gen : Genesis rt s) (μ : AccountData → ℕ) : s.holdings rt μ = 0 := by
  rw [Ledger.holdings_single (k := default) fun j _ owned => absurd owned (gen.not_owned j)]
  exact if_neg (gen.not_owned default)

/-! ### Every reachable ledger -/

variable {allowed : Instruction → Prop}

/-- The vault of every mint is worth what the margin accounts and the treasury of the mint hold. -/
theorem vault_pays (reached : Reachable rt (fun instr => instr.triesMatch = false ∧ instr.liquidates = false) s)
    (mint : Pubkey) : s.holdings rt (AccountData.wealth mint) ≤ s.vaultBalance rt mint := by
  have backed : Genuine rt s ∧ 0 ≤ s.gap rt (.backing mint) := by
    refine reached.induct (P := fun s => Genuine rt s ∧ 0 ≤ s.gap rt (.backing mint)) (fun s gen => ?_) ?_
    · refine ⟨genuine_genesis gen, ?_⟩
      rw [Ledger.gap, gen.holdings]
      omega
    · rintro s t inv instr ⟨genuine, backed⟩ ⟨still, fair⟩ ran
      have kept := upkeep_process genuine ran
      exact ⟨kept.genuine, backed.trans (kept.backing still fair mint)⟩
  have gap := backed.2
  rw [Ledger.gap] at gap
  omega

theorem vault_pays_traded :
    Sample.traded.holdings Runtime.sample (AccountData.wealth Sample.mint) ≤
      Sample.traded.vaultBalance Runtime.sample Sample.mint :=
  vault_pays (Sample.reachable (by decide +kernel)) Sample.mint

/-- What a trader has reserved is what its orders in the books of the mint reserve. -/
theorem reserved_eq_booked (reached : Reachable rt (fun instr => instr.triesMatch = false ∧ instr.expands = false) s)
    (owner mint : Pubkey) :
    s.marginBalance rt owner mint .reserved = s.holdings rt (AccountData.booked (s.mintOf rt) owner mint) := by
  have agree : (Genuine rt s ∧ Books rt s) ∧ s.gap rt (.reserve owner mint) = 0 := by
    refine reached.induct (P := fun s => (Genuine rt s ∧ Books rt s) ∧ s.gap rt (.reserve owner mint) = 0) (fun s gen => ?_) ?_
    · refine ⟨⟨genuine_genesis gen, books_genesis gen⟩, ?_⟩
      rw [Ledger.gap, gen.holdings, gen.holdings]
      rfl
    · rintro s t inv instr ⟨⟨genuine, books⟩, agree⟩ ⟨still, plain⟩ ran
      have kept := upkeep_process genuine ran
      exact ⟨⟨kept.genuine, kept.books plain books⟩, (kept.reserve still plain books owner mint).trans agree⟩
  have gap := agree.2
  rw [Ledger.gap, agree.1.1.holdings_reserved] at gap
  omega

theorem reserved_eq_booked_traded :
    Sample.traded.marginBalance Runtime.sample Sample.alice Sample.mint .reserved =
      Sample.traded.holdings Runtime.sample
        (AccountData.booked (Sample.traded.mintOf Runtime.sample) Sample.alice Sample.mint) :=
  reserved_eq_booked (Sample.reachable (by decide +kernel)) Sample.alice Sample.mint

/-- What a trader has locked is what backs its sides of the live positions of the mint. -/
theorem lock_gap_eq_zero (reached : Reachable rt (fun instr => instr.triesMatch = false) s) (owner mint : Pubkey) :
    s.marginBalance rt owner mint .locked = s.holdings rt (AccountData.held owner mint) := by
  have agree : Genuine rt s ∧ s.gap rt (.lock owner mint) = 0 := by
    refine reached.induct (P := fun s => Genuine rt s ∧ s.gap rt (.lock owner mint) = 0) (fun s gen => ?_) ?_
    · refine ⟨genuine_genesis gen, ?_⟩
      rw [Ledger.gap, gen.holdings, gen.holdings]
      rfl
    · rintro s t inv instr ⟨genuine, agree⟩ still ran
      have kept := upkeep_process genuine ran
      exact ⟨kept.genuine, (kept.lock still owner mint).trans agree⟩
  have gap := agree.2
  rw [Ledger.gap, agree.1.holdings_locked] at gap
  omega

/-- Whatever is called, what backs a trader's sides of the live positions of a mint is locked. -/
theorem held_le_locked (reached : Reachable rt allowed s) (owner mint : Pubkey) :
    s.holdings rt (AccountData.held owner mint) ≤ s.marginBalance rt owner mint .locked := by
  have covered : Genuine rt s ∧ 0 ≤ s.gap rt (.lock owner mint) := by
    refine reached.induct (P := fun s => Genuine rt s ∧ 0 ≤ s.gap rt (.lock owner mint)) (fun s gen => ?_) ?_
    · refine ⟨genuine_genesis gen, ?_⟩
      rw [Ledger.gap, gen.holdings, gen.holdings]
      omega
    · rintro s t inv instr ⟨genuine, covered⟩ - ran
      have kept := upkeep_process genuine ran
      exact ⟨kept.genuine, covered.trans (kept.lock_le owner mint)⟩
  have gap := covered.2
  rw [Ledger.gap, covered.1.holdings_locked] at gap
  omega

end Polyleverage
