import Polyleverage.Invariants.Upkeep
import Polyleverage.Sample

/-! # Fee tiers

The schedule looks for the last tier that a volume reaches. Thresholds ascend, and nothing more is asked of
the fees than that none takes more than a tenth. So a larger volume may well pay the larger fee.
-/

namespace Polyleverage

open Machine

variable {rt : Runtime} {inv : rt.Invocation} {s t : Ledger} {k : Pubkey} {u : Unit}

/-! ### Looking up a tier -/

/-- The fee of the last of the tiers that the volume reaches, or else `found`. -/
def feeFrom (volume : ℕ) : ℕ → List FeeTierRaw → ℕ
  | found, [] => found
  | found, tier :: rest => feeFrom volume (if tier.volumeThreshold ≤ volume then tier.feeBps else found) rest

/-- A tier that the next one does not replace at once. -/
def decidingFrom : FeeTierRaw → List FeeTierRaw → List FeeTierRaw
  | tier, [] => [tier]
  | tier, next :: rest =>
    if next.volumeThreshold = tier.volumeThreshold then decidingFrom next rest else tier :: decidingFrom next rest

section Lookup

variable {found volume : ℕ} {tier : FeeTierRaw} {rest tiers : List FeeTierRaw}

theorem feeFrom_eq_foldl (volume found : ℕ) (tiers : List FeeTierRaw) :
    tiers.foldl (fun found tier => if tier.volumeThreshold ≤ volume then tier.feeBps else found) found =
      feeFrom volume found tiers := by
  induction tiers generalizing found with
  | nil => rfl
  | cons tier rest ih => exact ih _

theorem feeFrom_reached (reached : tier.volumeThreshold ≤ volume) :
    feeFrom volume found (tier :: rest) = feeFrom volume tier.feeBps rest := by
  rw [feeFrom, if_pos reached]

/-- No tier is reached. -/
theorem feeFrom_below (below : ∀ tier ∈ tiers, volume < tier.volumeThreshold) : feeFrom volume found tiers = found := by
  induction tiers generalizing found with
  | nil => rfl
  | cons tier rest ih =>
    have first := below tier List.mem_cons_self
    rw [feeFrom, if_neg (by omega)]
    exact ih fun other member => below other (List.mem_cons_of_mem _ member)

/-- The last of the tiers whose threshold is at most the volume. -/
theorem feeFrom_eq_getLast (volume found : ℕ) (tiers : List FeeTierRaw) :
    feeFrom volume found tiers =
      ((tiers.filter fun tier => tier.volumeThreshold ≤ volume).getLast?.map FeeTierRaw.feeBps).getD found := by
  induction tiers generalizing found with
  | nil => rfl
  | cons tier rest ih =>
    rw [feeFrom, ih, List.filter_cons]
    by_cases reached : tier.volumeThreshold ≤ volume
    · simp only [reached, if_true, decide_true]
      cases last : (rest.filter fun tier => tier.volumeThreshold ≤ volume).getLast? with
      | none =>
        rw [List.getLast?_eq_none_iff] at last
        rw [last]
        rfl
      | some x => simp [List.getLast?_cons, last]
    · simp [reached]

theorem feeFrom_mem (volume found : ℕ) (tiers : List FeeTierRaw) :
    feeFrom volume found tiers = found ∨ ∃ tier ∈ tiers, feeFrom volume found tiers = tier.feeBps := by
  induction tiers generalizing found with
  | nil => exact .inl rfl
  | cons tier rest ih =>
    rw [feeFrom]
    split
    · rcases ih tier.feeBps with here | ⟨other, member, same⟩
      · exact .inr ⟨tier, List.mem_cons_self, here⟩
      · exact .inr ⟨other, List.mem_cons_of_mem _ member, same⟩
    · rcases ih found with here | ⟨other, member, same⟩
      · exact .inl here
      · exact .inr ⟨other, List.mem_cons_of_mem _ member, same⟩

/-! ### Tiers that decide -/

/-- Thresholds ascend. -/
def Ascending (tiers : List FeeTierRaw) : Prop := tiers.Pairwise fun a b => a.volumeThreshold ≤ b.volumeThreshold

/-- A tier that decides is charged at its own threshold. -/
theorem feeFrom_of_deciding (ascending : Ascending (tier :: tiers)) {d : FeeTierRaw} (decides : d ∈ decidingFrom tier tiers) :
    tier.volumeThreshold ≤ d.volumeThreshold ∧ feeFrom d.volumeThreshold tier.feeBps tiers = d.feeBps := by
  induction tiers generalizing tier with
  | nil =>
    rw [decidingFrom, List.mem_singleton] at decides
    subst decides
    exact ⟨Nat.le_refl _, rfl⟩
  | cons next rest ih =>
    obtain ⟨first, later⟩ := List.pairwise_cons.mp ascending
    have le_next := first next List.mem_cons_self
    rw [decidingFrom] at decides
    split at decides
    next same =>
      obtain ⟨le, charged⟩ := ih later decides
      exact ⟨le_next.trans le, by rw [feeFrom_reached le, charged]⟩
    next apart =>
      rcases List.mem_cons.mp decides with rfl | decides
      · refine ⟨Nat.le_refl _, feeFrom_below fun other member => ?_⟩
        rcases List.mem_cons.mp member with rfl | member
        · omega
        · have := (List.pairwise_cons.mp later).1 other member
          omega
      · obtain ⟨le, charged⟩ := ih later decides
        exact ⟨le_next.trans le, by rw [feeFrom_reached le, charged]⟩

/-- What is charged is the fee of a tier that decides. -/
theorem exists_deciding (ascending : Ascending (tier :: tiers)) (reached : tier.volumeThreshold ≤ volume) :
    ∃ d ∈ decidingFrom tier tiers, d.volumeThreshold ≤ volume ∧ feeFrom volume tier.feeBps tiers = d.feeBps := by
  induction tiers generalizing tier with
  | nil => exact ⟨tier, by rw [decidingFrom]; exact List.mem_cons_self, reached, rfl⟩
  | cons next rest ih =>
    obtain ⟨first, later⟩ := List.pairwise_cons.mp ascending
    rw [decidingFrom]
    by_cases reached' : next.volumeThreshold ≤ volume
    · obtain ⟨d, decides, le, charged⟩ := ih later reached'
      refine ⟨d, ?_, le, by rw [feeFrom_reached reached', charged]⟩
      split
      · exact decides
      · exact List.mem_cons_of_mem _ decides
    · have apart : next.volumeThreshold ≠ tier.volumeThreshold := by omega
      rw [if_neg apart]
      refine ⟨tier, List.mem_cons_self, reached, feeFrom_below fun other member => ?_⟩
      rcases List.mem_cons.mp member with rfl | member
      · omega
      · have := (List.pairwise_cons.mp later).1 other member
        omega

/-- Tiers that decide have different thresholds. -/
theorem deciding_ascend (ascending : Ascending (tier :: tiers)) :
    (decidingFrom tier tiers).Pairwise fun a b => a.volumeThreshold < b.volumeThreshold := by
  induction tiers generalizing tier with
  | nil =>
    rw [decidingFrom]
    exact List.pairwise_singleton _ _
  | cons next rest ih =>
    obtain ⟨first, later⟩ := List.pairwise_cons.mp ascending
    rw [decidingFrom]
    split
    · exact ih later
    next apart =>
      apply List.pairwise_cons.mpr
      refine ⟨fun d decides => ?_, ih later⟩
      have le := (feeFrom_of_deciding later decides).1
      have := first next List.mem_cons_self
      omega

/-- No tier that decides takes more than one that decides before it. -/
def Descend (tier : FeeTierRaw) (tiers : List FeeTierRaw) : Prop :=
  (decidingFrom tier tiers).Pairwise fun a b => b.feeBps ≤ a.feeBps

instance (tier : FeeTierRaw) (tiers : List FeeTierRaw) : Decidable (Descend tier tiers) :=
  inferInstanceAs (Decidable (List.Pairwise _ _))

theorem descend_of_antitone (ascending : Ascending (tier :: tiers)) {bound : ℕ}
    (small : ∀ d ∈ decidingFrom tier tiers, d.volumeThreshold < bound)
    (antitone : ∀ v v', tier.volumeThreshold ≤ v → v ≤ v' → v' < bound →
      feeFrom v' tier.feeBps tiers ≤ feeFrom v tier.feeBps tiers) : Descend tier tiers := by
  apply List.Pairwise.imp_of_mem _ (deciding_ascend ascending)
  intro a b a_decides b_decides lt
  obtain ⟨le, charged⟩ := feeFrom_of_deciding ascending a_decides
  have charged' := (feeFrom_of_deciding ascending b_decides).2
  have falls := antitone a.volumeThreshold b.volumeThreshold le lt.le (small b b_decides)
  rwa [charged, charged'] at falls

theorem antitone_of_descend (ascending : Ascending (tier :: tiers)) (descend : Descend tier tiers) {v v' : ℕ}
    (reached : tier.volumeThreshold ≤ v) (le : v ≤ v') : feeFrom v' tier.feeBps tiers ≤ feeFrom v tier.feeBps tiers := by
  induction tiers generalizing tier with
  | nil => exact Nat.le_refl _
  | cons next rest ih =>
    obtain ⟨first, later⟩ := List.pairwise_cons.mp ascending
    rw [Descend, decidingFrom] at descend
    by_cases reached' : next.volumeThreshold ≤ v
    · rw [feeFrom_reached reached', feeFrom_reached (reached'.trans le)]
      apply ih later _ reached'
      split at descend
      · exact descend
      · exact (List.pairwise_cons.mp descend).2
    · have apart : next.volumeThreshold ≠ tier.volumeThreshold := by omega
      rw [if_neg apart, List.pairwise_cons] at descend
      have none : feeFrom v tier.feeBps (next :: rest) = tier.feeBps := by
        apply feeFrom_below
        intro other member
        rcases List.mem_cons.mp member with rfl | member
        · omega
        · have := (List.pairwise_cons.mp later).1 other member
          omega
      rw [none]
      by_cases passed : next.volumeThreshold ≤ v'
      · obtain ⟨d, decides, -, charged⟩ := exists_deciding later passed
        rw [feeFrom_reached passed, charged]
        exact descend.1 d decides
      · apply Nat.le_of_eq
        apply feeFrom_below
        intro other member
        rcases List.mem_cons.mp member with rfl | member
        · omega
        · have := (List.pairwise_cons.mp later).1 other member
          omega

theorem ascending_of_validateTiersFrom {prev : ℕ} (valid : validateTiersFrom prev tiers = .ok u) :
    (∀ tier ∈ tiers, prev ≤ tier.volumeThreshold) ∧ Ascending tiers := by
  induction tiers generalizing prev with
  | nil => exact ⟨by simp, .nil⟩
  | cons tier rest ih =>
    unfold validateTiersFrom at valid
    split at valid
    · cases valid
    next first =>
      split at valid
      · cases valid
      · obtain ⟨later, ascending⟩ := ih valid
        refine ⟨fun other member => ?_, List.pairwise_cons.mpr ⟨later, ascending⟩⟩
        rcases List.mem_cons.mp member with rfl | member
        · omega
        · have := later other member
          omega

theorem le_foldl_max (bound : ℕ) (tiers : List FeeTierRaw) :
    bound ≤ tiers.foldl (fun bound tier => if bound < tier.feeBps then tier.feeBps else bound) bound ∧
      ∀ tier ∈ tiers,
        tier.feeBps ≤ tiers.foldl (fun bound tier => if bound < tier.feeBps then tier.feeBps else bound) bound := by
  induction tiers generalizing bound with
  | nil => simp
  | cons tier rest ih =>
    have larger : (if bound < tier.feeBps then tier.feeBps else bound) = max bound tier.feeBps := by
      split <;> omega
    rw [List.foldl_cons, larger]
    obtain ⟨le, all⟩ := ih (max bound tier.feeBps)
    refine ⟨by omega, fun other member => ?_⟩
    rcases List.mem_cons.mp member with rfl | member
    · omega
    · exact all other member

end Lookup

/-! ### Schedules -/

/-- A schedule of tiers that were accepted. -/
structure FeeSchedule.Valid (f : FeeSchedule) : Prop where
  accepted : validateTiers f.tiers = .ok ()
  small : ∀ tier ∈ f.tiers.toList, tier.volumeThreshold < 2 ^ 64
  bound : f.maxTierFeeBps = computeMaxFeeBps f.tiers

namespace FeeSchedule

variable {f : FeeSchedule}

theorem some_tiers : 0 < FEE_SCHEDULE_MAX_TIERS := by decide

/-- The first fee is charged below the first threshold as well. -/
def lowest (f : FeeSchedule) : FeeTierRaw := ⟨0, (f.tiers.get ⟨0, some_tiers⟩).feeBps⟩

/-- Of the tiers that decide, none takes more than one before it. -/
def Falls (f : FeeSchedule) : Prop := Descend f.lowest f.tiers.toList

instance (f : FeeSchedule) : Decidable f.Falls := inferInstanceAs (Decidable (Descend _ _))

theorem feeForVolume_eq (f : FeeSchedule) (volume : ℕ) :
    f.feeForVolume volume = feeFrom volume f.lowest.feeBps f.tiers.toList :=
  feeFrom_eq_foldl volume _ _

theorem Valid.ascending (valid : f.Valid) : Ascending (f.lowest :: f.tiers.toList) := by
  obtain ⟨first, ascending⟩ := ascending_of_validateTiersFrom valid.accepted
  exact List.pairwise_cons.mpr ⟨first, ascending⟩

theorem decidingFrom_subset (tier : FeeTierRaw) (tiers : List FeeTierRaw) :
    ∀ d ∈ decidingFrom tier tiers, d = tier ∨ d ∈ tiers := by
  induction tiers generalizing tier with
  | nil => simp [decidingFrom]
  | cons next rest ih =>
    intro d decides
    rw [decidingFrom] at decides
    split at decides
    · exact .inr (List.mem_cons.mpr (ih next d decides))
    · rcases List.mem_cons.mp decides with rfl | decides
      · exact .inl rfl
      · exact .inr (List.mem_cons.mpr (ih next d decides))

theorem Valid.antitone_iff (valid : f.Valid) :
    (∀ v v', v ≤ v' → v' < 2 ^ 64 → f.feeForVolume v' ≤ f.feeForVolume v) ↔ f.Falls := by
  simp only [feeForVolume_eq]
  constructor
  · intro antitone
    refine descend_of_antitone valid.ascending (?_ : ∀ d ∈ decidingFrom _ _, d.volumeThreshold < 2 ^ 64) ?_
    · intro d decides
      rcases decidingFrom_subset _ _ d decides with rfl | member
      · exact Nat.two_pow_pos 64
      · exact valid.small d member
    · intro v v' _ le small
      exact antitone v v' le small
  · intro falls v v' le _
    exact antitone_of_descend valid.ascending falls (Nat.zero_le v) le

theorem Valid.feeForVolume_le (valid : f.Valid) (volume : ℕ) : f.feeForVolume volume ≤ f.maxTierFeeBps := by
  have all := (le_foldl_max 0 f.tiers.toList).2
  rw [valid.bound, computeMaxFeeBps, feeForVolume_eq]
  rcases feeFrom_mem volume f.lowest.feeBps f.tiers.toList with first | ⟨tier, member, same⟩
  · rw [first]
    exact all f.tiers[0] (by simp)
  · rw [same]
    exact all tier member

end FeeSchedule

/-! ### Reachable schedules -/

theorem toRawTiers_small (tiers : FeeTierArgs) : ∀ tier ∈ (toRawTiers tiers).toList, tier.volumeThreshold < 2 ^ 64 := by
  intro tier member
  simp only [toRawTiers, Vector.toList_map, List.mem_map] at member
  obtain ⟨x, -, rfl⟩ := member
  exact x.volumeThreshold.toNat_lt

theorem FeeSchedule.valid_init {tiers : FeeTierArgs} (accepted : validateTiers (toRawTiers tiers) = .ok u) (nowSlot bump : ℕ) :
    (FeeSchedule.init (toRawTiers tiers) nowSlot bump).Valid where
  accepted := accepted
  small := toRawTiers_small tiers
  bound := rfl

/-- Every schedule that an instruction leaves is valid, when those before it were. -/
theorem schedule_of_process {instr : Instruction} {f : FeeSchedule}
    (before : ∀ k f, s.get k = ⟨rt.programId, .feeSchedule f⟩ → f.Valid)
    (ran : (process rt inv instr).run s = .ok () t) (held : t.get k = ⟨rt.programId, .feeSchedule f⟩) : f.Valid := by
  by_cases left : AccountKind.feeSchedule ∈ instr.leaves
  · cases instr with
    | initFeeSchedule tiers =>
      simp only [process] at ran
      unfold processInitFeeSchedule at ran
      split at ran
      next admin config feeSchedule system rest _ =>
        simp only [Exec.bind_check, exists_const] at ran
        obtain ⟨-, -, -, -, -, -, accepted, bump, -, -, ran⟩ := ran
        obtain ⟨-, rfl⟩ := createAndInit_ok ran
        by_cases here : k = feeSchedule
        · subst here
          rw [Store.get_set_self] at held
          cases congrArg Account.data held
          exact FeeSchedule.valid_init accepted _ _
        · rw [Store.get_set_of_ne _ _ here] at held
          exact before k f held
      · cases ran
    | setFeeSchedule tiers =>
      simp only [process] at ran
      unfold processSetFeeSchedule at ran
      split at ran
      next admin config feeSchedule rest _ =>
        simp only [Exec.bind_check, exists_const] at ran
        obtain ⟨-, -, owned, -, accepted, ran⟩ := ran
        obtain ⟨old, new, found, inner, rfl, -⟩ := atAccount_ok ran
        by_cases here : k = feeSchedule
        · subst here
          rw [Ledger.get_setData_self] at held
          cases congrArg Account.data held
          simp only [setTiers, Exec.bind_check, Exec.put_ok] at inner
          obtain ⟨_, rfl, _, -, rfl⟩ := inner
          exact ⟨accepted, toRawTiers_small tiers, rfl⟩
        · rw [Ledger.get_setData_of_ne _ _ here] at held
          exact before k f held
      · cases ran
    | _ => simp [Instruction.leaves, Instruction.writes] at left
  · have same : t.get k = s.get k := by
      apply ((within_process rt inv instr).keeps.ok ran).get_eq'
      rwa [Ledger.data, held]
    exact before k f (same ▸ held)

theorem schedule_of_reachable {allowed : Instruction → Prop} (reached : Reachable rt allowed s) :
    ∀ k f, s.get k = ⟨rt.programId, .feeSchedule f⟩ → f.Valid := by
  refine reached.induct (P := fun s => ∀ k f, s.get k = ⟨rt.programId, .feeSchedule f⟩ → f.Valid) ?_ ?_
  · intro s gen k f held
    exact absurd (congrArg Account.owner held) (gen.not_owned k)
  · intro s t inv instr before _ ran k f held
    exact schedule_of_process before ran held

namespace Sample

/-- One fee below a hundred atoms of volume, and another one from there on. -/
def twoTiers (below above : UInt16) : FeeTierArgs := (Vector.replicate 8 ⟨100, above⟩).set 0 ⟨0, below⟩

/-- The program was set up with these tiers. -/
def scheduled (tiers : FeeTierArgs) : Ledger :=
  runCalls Runtime.sample
    [call (.initProgramConfig ⟨oracle, 60⟩) [admin] [admin, config, admin, systemProgram],
      call (.initFeeSchedule tiers) [admin] [admin, config, feeSchedule, systemProgram]] genesis

end Sample

/-- A schedule charges the last tier that the volume reaches, the first one when it reaches none, and never
more than its highest fee. A larger volume never pays a larger fee if and only if the tiers that decide fall. -/
theorem fees_fall_iff {allowed : Instruction → Prop} (reached : Reachable rt allowed s) {f : FeeSchedule}
    (held : s.get k = ⟨rt.programId, .feeSchedule f⟩) :
    ((∀ v v', v ≤ v' → v' < 2 ^ 64 → f.feeForVolume v' ≤ f.feeForVolume v) ↔ f.Falls) ∧
      ∀ volume, f.feeForVolume volume =
          ((f.tiers.toList.filter fun tier => tier.volumeThreshold ≤ volume).getLast?.map FeeTierRaw.feeBps).getD
            f.tiers[0].feeBps ∧
        f.feeForVolume volume ≤ f.maxTierFeeBps := by
  have valid := schedule_of_reachable reached k f held
  refine ⟨valid.antitone_iff, fun volume => ⟨?_, valid.feeForVolume_le volume⟩⟩
  rw [FeeSchedule.feeForVolume_eq, feeFrom_eq_getLast]
  rfl

theorem fees_fall_iff_falling :
    (FeeSchedule.init (toRawTiers (Sample.twoTiers 20 10)) 1 255).feeForVolume 99 = 20 ∧
      (FeeSchedule.init (toRawTiers (Sample.twoTiers 20 10)) 1 255).feeForVolume 100 = 10 ∧
      (FeeSchedule.init (toRawTiers (Sample.twoTiers 20 10)) 1 255).feeForVolume 100 ≤
        (FeeSchedule.init (toRawTiers (Sample.twoTiers 20 10)) 1 255).feeForVolume 99 := by
  have reached : Reachable Runtime.sample (fun _ => True) (Sample.scheduled (Sample.twoTiers 20 10)) :=
    Sample.reachable fun _ _ => trivial
  have held : (Sample.scheduled (Sample.twoTiers 20 10)).get Sample.feeSchedule =
      ⟨Runtime.sample.programId, .feeSchedule (FeeSchedule.init (toRawTiers (Sample.twoTiers 20 10)) 1 255)⟩ := by
    decide +kernel
  obtain ⟨falls, charges⟩ := fees_fall_iff reached held
  refine ⟨?_, ?_, falls.mpr (by decide +kernel) 99 100 (by decide) (by decide)⟩
  · rw [(charges 99).1]
    decide +kernel
  · rw [(charges 100).1]
    decide +kernel

/-- A reachable schedule charges a trader more for having traded more. -/
theorem fees_rise : Reachable Runtime.sample (fun _ => True) (Sample.scheduled (Sample.twoTiers 10 20)) ∧
    (Sample.scheduled (Sample.twoTiers 10 20)).get Sample.feeSchedule =
      ⟨Runtime.sample.programId, .feeSchedule (FeeSchedule.init (toRawTiers (Sample.twoTiers 10 20)) 1 255)⟩ ∧
    (FeeSchedule.init (toRawTiers (Sample.twoTiers 10 20)) 1 255).feeForVolume 0 = 10 ∧
    (FeeSchedule.init (toRawTiers (Sample.twoTiers 10 20)) 1 255).feeForVolume 100 = 20 :=
  ⟨Sample.reachable fun _ _ => trivial, by decide +kernel, by decide +kernel, by decide +kernel⟩

end Polyleverage
