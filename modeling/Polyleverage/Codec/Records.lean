import Polyleverage.Codec.Words

/-! # Records of a fixed size

The fields of a record follow one another, with constant bytes in front of some and zeros at the end. A
codec has a size when every valid value takes as many bytes; the size is found along the construction.
-/

namespace Codec

variable {α β : Type}

class Sized (c : Codec α) (n : outParam ℕ) : Prop where
  length : ∀ a, c.Valid a → (c.serialize a).length = n

/-- Bytes that are zero. -/
def zeros (n : ℕ) : List UInt8 := List.replicate n 0

/-! ### Constants, choices and parts -/

/-- Constant bytes in front. -/
def fixed (bs : List UInt8) (c : Codec α) : Codec α where
  Valid := c.Valid
  serialize a := bs ++ c.serialize a
  deserialize input := if input.take bs.length = bs then c.deserialize (input.drop bs.length) else none
  complete := by
    intro a rest valid
    rw [List.append_assoc, List.take_left, List.drop_left, if_pos rfl, c.complete a rest valid]
  sound := by
    intro input a rest read
    split at read
    next same =>
      obtain ⟨valid, tail⟩ := c.sound _ _ _ read
      refine ⟨valid, ?_⟩
      rw [List.append_assoc, ← tail]
      conv_lhs => rw [← List.take_append_drop bs.length input, same]
    · cases read

/-- Zeros behind. -/
def padded (n : ℕ) (c : Codec α) : Codec α where
  Valid := c.Valid
  serialize a := c.serialize a ++ zeros n
  deserialize input := do
    let (a, rest) ← c.deserialize input
    if rest.take n = zeros n then pure (a, rest.drop n) else none
  complete := by
    intro a rest valid
    have whole : (zeros n).length = n := List.length_replicate
    rw [List.append_assoc, c.complete a _ valid, Option.bind_eq_bind, Option.bind_some]
    dsimp only
    rw [List.take_left' whole, List.drop_left' whole, if_pos rfl]
    rfl
  sound := by
    intro input a rest read
    simp only [Option.bind_eq_bind, Option.bind_eq_some_iff, Prod.exists] at read
    obtain ⟨a', mid, first, read⟩ := read
    split at read
    next same =>
      cases read
      obtain ⟨valid, rfl⟩ := c.sound _ _ _ first
      refine ⟨valid, ?_⟩
      rw [List.append_assoc]
      conv_lhs => rw [← List.take_append_drop n mid, same]
    · cases read

/-- One byte out of an enumeration. -/
def choice (toByte : α → UInt8) (ofByte : UInt8 → Option α)
    (inverse : ∀ b a, ofByte b = some a ↔ b = toByte a) : Codec α where
  Valid _ := True
  serialize a := [toByte a]
  deserialize input :=
    match input with
    | [] => none
    | b :: rest => (ofByte b).map fun a => (a, rest)
  complete := by
    intro a rest _
    show (ofByte (toByte a)).map _ = _
    rw [(inverse _ _).mpr rfl]
    rfl
  sound := by
    intro input a rest read
    cases input with
    | nil => cases read
    | cons b others =>
      obtain ⟨a', found, same⟩ := Option.map_eq_some_iff.mp read
      cases same
      rw [(inverse _ _).mp found]
      exact ⟨trivial, rfl⟩

/-- The values of one form, by what the form is made of. -/
def along (c : Codec α) (f : α → β) (g : β → Option α) (inverse : ∀ b a, g b = some a ↔ b = f a) :
    Codec β where
  Valid b := ∃ a, b = f a ∧ c.Valid a
  serialize b :=
    match g b with
    | some a => c.serialize a
    | none => []
  deserialize input := (c.deserialize input).map fun p => (f p.1, p.2)
  complete := by
    rintro _ rest ⟨a, rfl, valid⟩
    rw [(inverse _ _).mpr rfl, c.complete a rest valid]
    rfl
  sound := by
    intro input b rest read
    obtain ⟨⟨a, rest'⟩, first, same⟩ := Option.map_eq_some_iff.mp read
    cases same
    obtain ⟨valid, rfl⟩ := c.sound _ _ _ first
    rw [(inverse _ _).mpr rfl]
    exact ⟨⟨a, rfl, valid⟩, rfl⟩

theorem serialize_along {c : Codec α} {f : α → β} {g : β → Option α} {inverse : ∀ b a, g b = some a ↔ b = f a}
    (a : α) :
    (c.along f g inverse).serialize (f a) = c.serialize a := by
  show (match g (f a) with | some a => c.serialize a | none => []) = _
  rw [(inverse _ _).mpr rfl]

/-- No value at all. -/
def void : Codec α where
  Valid _ := False
  serialize _ := []
  deserialize _ := none
  complete _ _ impossible := impossible.elim
  sound := by
    intro input a rest read
    cases read

/-- As many cells of some size, of which the first `used` hold values. -/
def cells (c : Codec α) (size n used : ℕ) : Codec (List α) :=
  if used ≤ n then (c.many used).padded ((n - used) * size) else void

theorem valid_cells {c : Codec α} {size n used : ℕ} {l : List α} :
    (cells c size n used).Valid l ↔ used ≤ n ∧ l.length = used ∧ ∀ a ∈ l, c.Valid a := by
  unfold cells
  split
  next fits =>
    rw [← valid_many]
    exact ⟨fun valid => ⟨fits, valid⟩, And.right⟩
  next many =>
    constructor
    · intro impossible
      exact impossible.elim
    · rintro ⟨fits, -⟩
      exact absurd fits many

/-! ### Sizes -/

section Sizes

variable {c : Codec α} {d : Codec β} {m n : ℕ}

instance (n : ℕ) : Sized (bytes n) n := ⟨fun _ valid => valid⟩

instance [first : Sized c m] [second : Sized d n] : Sized (c.prod d) (m + n) where
  length := by
    rintro ⟨a, b⟩ ⟨left, right⟩
    show (c.serialize a ++ d.serialize b).length = _
    rw [List.length_append, first.length a left, second.length b right]

instance {P : β → Prop} {f : ∀ a, c.Valid a → β} {g : β → α} {valid : ∀ b, P b → c.Valid (g b)}
    {left : ∀ b (h : P b), f (g b) (valid b h) = b} {right : ∀ a h, P (f a h) ∧ g (f a h) = a}
    [sized : Sized c n] :
    Sized (c.pmap P f g valid left right) n := ⟨fun b holds => sized.length (g b) (valid b holds)⟩

instance {e : α ≃ β} [sized : Sized c n] : Sized (c.imap e) n := ⟨fun b valid => sized.length (e.symm b) valid⟩

instance (n : ℕ) : Sized (word n) n := ⟨fun v _ => length_wordBytes n v⟩

instance {key : β → α} {d : α → Codec β} {determined : ∀ a b, (d a).Valid b → key b = a} [first : Sized c m]
    [second : ∀ a, Sized (d a) n] : Sized (c.keyed key d determined) (m + n) where
  length := by
    rintro b ⟨left, right⟩
    show (c.serialize (key b) ++ (d (key b)).serialize b).length = _
    rw [List.length_append, first.length _ left, (second _).length b right]

instance (bs : List UInt8) [sized : Sized c n] : Sized (fixed bs c) (bs.length + n) where
  length a valid := by
    show (bs ++ c.serialize a).length = _
    rw [List.length_append, sized.length a valid]

instance (k : ℕ) [sized : Sized c n] : Sized (padded k c) (n + k) where
  length a valid := by
    show (c.serialize a ++ zeros k).length = _
    rw [List.length_append, sized.length a valid, zeros, List.length_replicate]

instance {toByte : α → UInt8} {ofByte : UInt8 → Option α}
    {inverse : ∀ b a, ofByte b = some a ↔ b = toByte a} :
    Sized (choice toByte ofByte inverse) 1 := ⟨fun _ _ => rfl⟩

instance {f : α → β} {g : β → Option α} {inverse : ∀ b a, g b = some a ↔ b = f a} [sized : Sized c n] :
    Sized (c.along f g inverse) n where
  length := by
    rintro _ ⟨a, rfl, valid⟩
    rw [serialize_along, sized.length a valid]

theorem length_many [sized : Sized c n] {k : ℕ} {l : List α} (valid : (c.many k).Valid l) :
    ((c.many k).serialize l).length = k * n := by
  obtain ⟨length, each⟩ := valid_many.mp valid
  rw [serialize_many length, ← length]
  clear valid length
  induction l with
  | nil => simp
  | cons a rest ih =>
    obtain ⟨head, tail⟩ := List.forall_mem_cons.mp each
    rw [List.flatMap_cons, List.length_append, sized.length a head, ih tail, List.length_cons, Nat.succ_mul, add_comm]

instance (k : ℕ) [Sized c n] : Sized (c.many k) (k * n) := ⟨fun _ => length_many⟩

instance (k : ℕ) [Sized c n] : Sized (array k c) (k * n) := by
  unfold array
  infer_instance

instance (k used : ℕ) [sized : Sized c n] : Sized (cells c n k used) (k * n) where
  length l valid := by
    obtain ⟨fits, -⟩ := valid_cells.mp valid
    have whole : Sized ((c.many used).padded ((k - used) * n)) (used * n + (k - used) * n) := inferInstance
    unfold cells at valid ⊢
    rw [if_pos fits] at valid ⊢
    rw [whole.length l valid, ← Nat.add_mul, Nat.add_sub_cancel' fits]

end Sizes

/-! ### Words that are signed -/

/-- A signed number in as many bytes, as its residue. -/
def signed (n : ℕ) (positive : 0 < n) : Codec ℤ :=
  (word n).pmap (fun v => -(256 ^ n : ℕ) ≤ 2 * v ∧ 2 * v < (256 ^ n : ℕ))
    (fun v _ => if 2 * v < 256 ^ n then (v : ℤ) else v - (256 ^ n : ℕ)) (fun v => (v % (256 ^ n : ℕ)).toNat)
    (by
      intro v _
      show (v % (256 ^ n : ℕ)).toNat < 256 ^ n
      have modulus : (0 : ℤ) < (256 ^ n : ℕ) := by positivity
      have below := Int.emod_lt_of_pos v modulus
      omega)
    (by
      intro v range
      have modulus : (0 : ℤ) < (256 ^ n : ℕ) := by positivity
      obtain ⟨lower, upper⟩ := range
      generalize 256 ^ n = w at *
      rcases lt_or_ge v 0 with negative | positive
      · have residue : v % (w : ℤ) = v + w := by
          rw [← Int.add_emod_right]
          exact Int.emod_eq_of_lt (by omega) (by omega)
        rw [residue]
        split <;> omega
      · rw [Int.emod_eq_of_lt positive (by omega)]
        split <;> omega)
    (by
      intro v fits
      have small : v < 256 ^ n := fits
      have even : 2 ∣ 256 ^ n := dvd_pow (by decide) positive.ne'
      generalize 256 ^ n = w at *
      split
      next low =>
        refine ⟨by omega, ?_⟩
        rw [Int.emod_eq_of_lt (by omega) (by omega)]
        omega
      next high =>
        have residue : ((v : ℤ) - w) % (w : ℤ) = v := by
          rw [← Int.add_emod_right, sub_add_cancel]
          exact Int.emod_eq_of_lt (by omega) (by omega)
        refine ⟨by omega, ?_⟩
        rw [residue]
        omega)

instance (n : ℕ) (positive : 0 < n) : Sized (signed n positive) n := by
  unfold signed
  infer_instance

def i64 : Codec ℤ := signed 8 (Nat.succ_pos 7)

instance : Sized i64 8 := by
  unfold i64
  infer_instance

end Codec
