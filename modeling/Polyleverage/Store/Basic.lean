import Mathlib.Algebra.BigOperators.Group.Finset.Basic
import Mathlib.Algebra.Order.BigOperators.Group.Finset
import Mathlib.Data.List.AList

/-! # Stores

A store keeps a value for finitely many keys and the default value for all others. A total adds up a
quantity over the whole store; where the default counts nothing, it depends only on the values, and a
change of some keys changes it by what these keys count.
-/

/-- A finite map with a default. -/
abbrev Store (κ α : Type) := AList fun _ : κ => α

namespace Store

variable {κ α M : Type} [DecidableEq κ] [Inhabited α]

def get (s : Store κ α) (k : κ) : α := (s.lookup k).getD default

def set (s : Store κ α) (k : κ) (a : α) : Store κ α := s.insert k a

@[simp] theorem get_set_self (s : Store κ α) (k : κ) (a : α) : (s.set k a).get k = a := by
  simp [get, set]

theorem get_set_of_ne (s : Store κ α) {j k : κ} (a : α) (other : j ≠ k) : (s.set k a).get j = s.get j := by
  simp [get, set, AList.lookup_insert_ne other]

omit [Inhabited α] in
/-- The value under a key that is written again is not seen in between. -/
theorem set_between (s : Store κ α) {j k : κ} (a b c : α) (other : j ≠ k) :
    ((s.set j a).set k b).set j c = (s.set k b).set j c := by
  apply AList.ext
  simp only [set, AList.entries_insert]
  have erased (l : List (Sigma fun _ : κ => α)) : (⟨j, a⟩ :: l).kerase j = l := List.kerase_cons_eq rfl
  rw [List.kerase_cons_ne other, List.kerase_cons_ne other.symm, erased, List.kerase_cons_ne other, List.kerase_comm]

@[simp] theorem get_empty (k : κ) : (∅ : Store κ α).get k = default := by
  simp [get]

/-- The keys with a value of their own. -/
def support (s : Store κ α) : Finset κ := s.keys.toFinset

theorem get_of_notMem {s : Store κ α} {k : κ} (outside : k ∉ s.support) : s.get k = default := by
  have none : s.lookup k = none := by
    rw [AList.lookup_eq_none, AList.mem_keys]
    simpa [support] using outside
  rw [get, none]
  rfl

/-- What holds of the default and of the values that are kept holds of all values. -/
theorem forall_of_keys {P : α → Prop} {s : Store κ α} (start : P default) (kept : ∀ k ∈ s.keys, P (s.get k)) (k : κ) :
    P (s.get k) := by
  by_cases inside : k ∈ s.keys
  · exact kept k inside
  · rwa [get_of_notMem (by simpa [support] using inside)]

section Total

variable [AddCommMonoid M]

/-- The quantity `f`, added up over the store. -/
def total (f : κ → α → M) (s : Store κ α) : M := ∑ k ∈ s.support, f k (s.get k)

variable {f g : κ → α → M} {s t : Store κ α}

theorem total_eq_sum (zero : ∀ k, f k default = 0) {keys : Finset κ} (covered : s.support ⊆ keys) :
    total f s = ∑ k ∈ keys, f k (s.get k) :=
  Finset.sum_subset covered fun k _ outside => by rw [get_of_notMem outside, zero]

theorem total_congr (zero : ∀ k, f k default = 0) (zero' : ∀ k, g k default = 0)
    (same : ∀ k, f k (s.get k) = g k (t.get k)) : total f s = total g t := by
  have left : s.support ⊆ s.support ∪ t.support := Finset.subset_union_left
  have right : t.support ⊆ s.support ∪ t.support := Finset.subset_union_right
  rw [total_eq_sum zero left, total_eq_sum zero' right]
  exact Finset.sum_congr rfl fun k _ => same k

/-- Two stores that count the same but for some keys differ by what these keys count. -/
theorem total_change (zero : ∀ k, f k default = 0) (zero' : ∀ k, g k default = 0) (changed : Finset κ)
    (same : ∀ k ∉ changed, g k (t.get k) = f k (s.get k)) :
    total g t + ∑ k ∈ changed, f k (s.get k) = total f s + ∑ k ∈ changed, g k (t.get k) := by
  let keys := s.support ∪ t.support ∪ changed
  have inS : s.support ⊆ keys := fun k member => by simp [keys, member]
  have inT : t.support ⊆ keys := fun k member => by simp [keys, member]
  have inK : changed ⊆ keys := fun k member => by simp [keys, member]
  rw [total_eq_sum zero inS, total_eq_sum zero' inT, ← Finset.sum_sdiff inK, ← Finset.sum_sdiff inK]
  have outside : ∑ k ∈ keys \ changed, g k (t.get k) = ∑ k ∈ keys \ changed, f k (s.get k) :=
    Finset.sum_congr rfl fun k member => same k (Finset.mem_sdiff.mp member).2
  rw [outside, add_right_comm]

theorem total_change_one (zero : ∀ k, f k default = 0) (zero' : ∀ k, g k default = 0) (key : κ)
    (same : ∀ k, k ≠ key → g k (t.get k) = f k (s.get k)) :
    total g t + f key (s.get key) = total f s + g key (t.get key) := by
  have change := total_change zero zero' {key} fun k outside => same k (by simpa using outside)
  simpa only [Finset.sum_singleton] using change

/-- When only one key counts, it counts for the whole store. -/
theorem total_single (zero : ∀ k, f k default = 0) {key : κ} (others : ∀ k, k ≠ key → f k (s.get k) = 0) :
    total f s = f key (s.get key) := by
  rw [total_eq_sum zero (Finset.subset_insert key s.support)]
  exact Finset.sum_eq_single_of_mem key (Finset.mem_insert_self key _) fun k _ other => others k other

end Total

/-- Some keys count no more than the whole store. -/
theorem sum_le_total {f : κ → α → ℕ} {s : Store κ α} (zero : ∀ k, f k default = 0) (keys : Finset κ) :
    ∑ k ∈ keys, f k (s.get k) ≤ total f s := by
  have covered : s.support ⊆ s.support ∪ keys := Finset.subset_union_left
  rw [total_eq_sum zero covered]
  exact Finset.sum_le_sum_of_subset Finset.subset_union_right

/-- A key counts no more than the whole store. -/
theorem le_total {f : κ → α → ℕ} {s : Store κ α} (zero : ∀ k, f k default = 0) (k : κ) :
    f k (s.get k) ≤ total f s := by
  by_cases member : k ∈ s.support
  · exact Finset.single_le_sum (f := fun k => f k (s.get k)) (fun _ _ => Nat.zero_le _) member
  · rw [get_of_notMem member, zero]
    exact Nat.zero_le _

end Store
