import Mathlib.Data.List.Perm.Basic
import Mathlib.Data.Nat.Notation

/-! # Slots

An array of fixed length of which the first few cells are in use. The cells behind them are kept cleared.
Cells are taken one by one at the end; to give one back, the last one in use takes its place.
-/

/-- An array with the number of cells in use. -/
structure Slots (α : Type) (n : ℕ) where
  used : ℕ
  cells : Vector α n
  deriving DecidableEq, Repr

namespace Slots

variable {α : Type} {n : ℕ} {s : Slots α n} {i j : ℕ}

/-- What the cells in use hold. -/
def active (s : Slots α n) : List α := s.cells.toList.take s.used

theorem getElem?_active (s : Slots α n) (i : ℕ) : s.active[i]? = if i < s.used then s.cells[i]? else none := by
  rw [active, List.getElem?_take, Vector.getElem?_toList]

theorem length_active (fits : s.used ≤ n) : s.active.length = s.used := by
  simp [active, fits]

/-! ### Taking a cell -/

/-- Use one more cell. -/
def push (s : Slots α n) (a : α) : Slots α n where
  used := s.used + 1
  cells := s.cells.setIfInBounds s.used a

@[simp] theorem push_used (s : Slots α n) (a : α) : (s.push a).used = s.used + 1 := rfl

@[simp] theorem push_cells (s : Slots α n) (a : α) : (s.push a).cells = s.cells.setIfInBounds s.used a := rfl

theorem active_push (room : s.used < n) (a : α) : (s.push a).active = s.active ++ [a] := by
  apply List.ext_getElem?
  intro i
  have length := length_active (Nat.le_of_lt room)
  rw [getElem?_active, push_used, push_cells, List.getElem?_append, length, getElem?_active]
  obtain before | here | behind := Nat.lt_trichotomy i s.used
  · rw [if_pos (by omega), if_pos before, if_pos before, Vector.getElem?_setIfInBounds_ne (by omega)]
  · subst here
    rw [if_pos (by omega), if_neg (by omega), Vector.getElem?_setIfInBounds_self_of_lt room, Nat.sub_self]
    rfl
  · rw [if_neg (by omega), if_neg (by omega), List.getElem?_eq_none]
    simp only [List.length_singleton]
    omega

/-! ### Cleared cells -/

section Cells

variable [Inhabited α]

/-- All cells behind those in use are cleared. -/
structure Dense (s : Slots α n) : Prop where
  used_le : s.used ≤ n
  cleared : ∀ (i : ℕ), s.used ≤ i → i < n → s.cells[i]? = some default

/-- Use the first cells for these values. -/
def ofList (xs : List α) : Slots α n where
  used := xs.length
  cells := Vector.ofFn fun i => xs[i.val]?.getD default

/-- The last value in use takes the place of the removed one, and its own cell is cleared. -/
def swapRemove (s : Slots α n) (i : ℕ) : Slots α n where
  used := s.used - 1
  cells :=
    (if i + 1 < s.used then s.cells.setIfInBounds i (s.cells[s.used - 1]?.getD default) else s.cells).setIfInBounds
      (s.used - 1) default

@[simp] theorem swapRemove_used (s : Slots α n) (i : ℕ) : (s.swapRemove i).used = s.used - 1 := rfl

theorem swapRemove_cells (s : Slots α n) (i : ℕ) : (s.swapRemove i).cells =
    (if i + 1 < s.used then s.cells.setIfInBounds i (s.cells[s.used - 1]?.getD default) else s.cells).setIfInBounds
      (s.used - 1) default := rfl

/-! ### Filling -/

theorem active_ofList {xs : List α} (fits : xs.length ≤ n) : (ofList xs : Slots α n).active = xs := by
  apply List.ext_getElem?
  intro i
  rw [getElem?_active, ofList]
  by_cases inside : i < xs.length
  · rw [if_pos inside, Vector.getElem?_eq_getElem (by omega), Vector.getElem_ofFn, List.getElem?_eq_getElem inside]
    rfl
  · rw [if_neg inside, List.getElem?_eq_none (by omega)]

theorem dense_ofList {xs : List α} (fits : xs.length ≤ n) : (ofList xs : Slots α n).Dense where
  used_le := fits
  cleared i behind inside := by
    rw [ofList, Vector.getElem?_eq_getElem inside, Vector.getElem_ofFn, List.getElem?_eq_none behind]
    rfl

theorem Dense.push (dense : s.Dense) (room : s.used < n) (a : α) : (s.push a).Dense where
  used_le := room
  cleared i behind inside := by
    rw [push_used] at behind
    rw [push_cells, Vector.getElem?_setIfInBounds_ne (by omega)]
    exact dense.cleared i (by omega) inside

/-! ### Giving a cell back -/

theorem active_swapRemove (fits : s.used ≤ n) (inside : i < s.used) :
    (s.swapRemove i).active = (s.active.set i (s.active.getLast?.getD default)).dropLast := by
  have length := length_active fits
  have last : s.active.getLast? = s.cells[s.used - 1]? := by
    rw [List.getLast?_eq_getElem?, length, getElem?_active, if_pos (by omega)]
  apply List.ext_getElem?
  intro j
  rw [getElem?_active, swapRemove_used, swapRemove_cells, List.getElem?_dropLast, List.length_set, length, last]
  by_cases before : j < s.used - 1
  · rw [if_pos before, if_pos before, Vector.getElem?_setIfInBounds_ne (by omega)]
    by_cases here : i = j
    · subst here
      have moves : i + 1 < s.used := by omega
      have below : i < n := by omega
      rw [if_pos moves, Vector.getElem?_setIfInBounds_self_of_lt below, List.getElem?_set_self (length.symm ▸ inside)]
    · have kept : j < s.used := by omega
      rw [List.getElem?_set_ne here, getElem?_active, if_pos kept]
      split
      · rw [Vector.getElem?_setIfInBounds_ne here]
      · rfl
  · rw [if_neg before, if_neg before]

/-- One value is gone, and the others stay in some order. -/
theorem swapRemove_perm (fits : s.used ≤ n) (inside : i < s.used) : (s.swapRemove i).active.Perm (s.active.eraseIdx i) := by
  rw [active_swapRemove fits inside]
  have length := length_active fits
  generalize s.active = values at length ⊢
  obtain ⟨rest, last, rfl⟩ : ∃ rest last, values = rest ++ [last] := by
    have some_values : values ≠ [] := List.ne_nil_of_length_pos (by omega)
    exact ⟨values.dropLast, values.getLast some_values, (List.dropLast_append_getLast some_values).symm⟩
  rw [List.length_append, List.length_singleton] at length
  rw [List.getLast?_append, List.getLast?_singleton, Option.some_or, Option.getD_some]
  by_cases before : i < rest.length
  · rw [List.set_append_left _ _ before, List.dropLast_concat, List.eraseIdx_append_of_lt_length before]
    exact (List.set_perm_cons_eraseIdx before last).trans (List.perm_append_singleton last _).symm
  · obtain rfl : i = rest.length := by omega
    rw [List.set_append_right _ _ (Nat.le_refl _), Nat.sub_self, List.set_cons_zero, List.dropLast_concat,
      List.eraseIdx_append_of_length_le (Nat.le_refl _), Nat.sub_self]
    simp

theorem Dense.swapRemove (dense : s.Dense) (inside : i < s.used) : (s.swapRemove i).Dense where
  used_le := by
    have := dense.used_le
    rw [swapRemove_used]
    omega
  cleared j behind below := by
    rw [swapRemove_used] at behind
    rw [swapRemove_cells]
    by_cases here : s.used - 1 = j
    · subst here
      exact Vector.getElem?_setIfInBounds_self_of_lt below
    · rw [Vector.getElem?_setIfInBounds_ne here]
      have free := dense.cleared j (by omega) below
      split
      · rw [Vector.getElem?_setIfInBounds_ne (by omega), free]
      · exact free

end Cells

end Slots
