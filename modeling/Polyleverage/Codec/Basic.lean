import Mathlib.Data.List.Basic
import Mathlib.Logic.Equiv.Defs

/-! # Codecs

A codec writes the values of a type as bytes and reads them back from the front of a longer input. It
carries its two laws: what it wrote for a valid value is read back, whatever follows it, and what it
reads is valid and was written like that. A valid value therefore has exactly one encoding. Codecs are
built from smaller ones, and the laws come with the construction.
-/

structure Codec (α : Type) where
  /-- The values that can be written. -/
  Valid : α → Prop
  serialize : α → List UInt8
  /-- Read a value from the front and hand on the rest. -/
  deserialize : List UInt8 → Option (α × List UInt8)
  complete : ∀ a rest, Valid a → deserialize (serialize a ++ rest) = some (a, rest)
  sound : ∀ bytes a rest, deserialize bytes = some (a, rest) → Valid a ∧ bytes = serialize a ++ rest

namespace Codec

variable {α β : Type}

/-- Reading a prefix is the same as the input starting with the encoding. -/
theorem deserialize_eq_some (c : Codec α) {bytes rest : List UInt8} {a : α} :
    c.deserialize bytes = some (a, rest) ↔ c.Valid a ∧ bytes = c.serialize a ++ rest := by
  constructor
  · exact c.sound bytes a rest
  · rintro ⟨valid, rfl⟩
    exact c.complete a rest valid

/-- Encodings are prefix free: two that begin one input are the same. -/
theorem serialize_prefix (c : Codec α) {a a' : α} {rest rest' : List UInt8} (valid : c.Valid a) (valid' : c.Valid a')
    (same : c.serialize a ++ rest = c.serialize a' ++ rest') : a = a' ∧ rest = rest' := by
  have read := c.complete a rest valid
  rw [same, c.complete a' rest' valid', Option.some.injEq, Prod.mk.injEq] at read
  exact ⟨read.1.symm, read.2.symm⟩

theorem serialize_injective (c : Codec α) {a a' : α} (valid : c.Valid a) (valid' : c.Valid a')
    (same : c.serialize a = c.serialize a') : a = a' := by
  have whole : c.serialize a ++ [] = c.serialize a' ++ [] := by rw [same]
  exact (c.serialize_prefix valid valid' whole).1

/-- Read a value that takes up the whole input. -/
def decode (c : Codec α) (bytes : List UInt8) : Option α :=
  match c.deserialize bytes with
  | some (a, []) => some a
  | _ => none

/-- An input is accepted exactly when it is the encoding of a valid value. -/
theorem decode_eq_some (c : Codec α) {bytes : List UInt8} {a : α} :
    c.decode bytes = some a ↔ c.Valid a ∧ bytes = c.serialize a := by
  have whole : c.decode bytes = some a ↔ c.deserialize bytes = some (a, []) := by
    unfold decode
    split
    next b read => simp [read]
    next other =>
      constructor
      · intro impossible
        cases impossible
      · intro read
        exact absurd read (other a)
  rw [whole, c.deserialize_eq_some, List.append_nil]

theorem decode_serialize (c : Codec α) {a : α} (valid : c.Valid a) : c.decode (c.serialize a) = some a :=
  c.decode_eq_some.mpr ⟨valid, rfl⟩

/-! ### Building codecs -/

section Building

/-- As many bytes as given. -/
def bytes (n : ℕ) : Codec (List UInt8) where
  Valid bs := bs.length = n
  serialize bs := bs
  deserialize input := if n ≤ input.length then some (input.take n, input.drop n) else none
  complete := by
    rintro bs rest rfl
    rw [if_pos (by simp), List.take_left, List.drop_left]
  sound := by
    intro input bs rest read
    split at read
    next enough =>
      cases read
      exact ⟨List.length_take_of_le enough, (List.take_append_drop n input).symm⟩
    · cases read

/-- One value after the other. -/
def prod (c : Codec α) (d : Codec β) : Codec (α × β) where
  Valid p := c.Valid p.1 ∧ d.Valid p.2
  serialize p := c.serialize p.1 ++ d.serialize p.2
  deserialize input := do
    let (a, rest) ← c.deserialize input
    let (b, rest') ← d.deserialize rest
    pure ((a, b), rest')
  complete := by
    rintro ⟨a, b⟩ rest ⟨left, right⟩
    simp [c.complete a _ left, d.complete b rest right]
  sound := by
    rintro input ⟨a, b⟩ rest read
    simp only [Option.bind_eq_bind, Option.bind_eq_some_iff, Option.pure_def, Option.some.injEq, Prod.exists,
      Prod.mk.injEq] at read
    obtain ⟨a', mid, first, b', rest', second, ⟨rfl, rfl⟩, rfl⟩ := read
    obtain ⟨left, rfl⟩ := c.sound _ _ _ first
    obtain ⟨right, rfl⟩ := d.sound _ _ _ second
    exact ⟨⟨left, right⟩, (List.append_assoc _ _ _).symm⟩

/-- A value that stands for the valid values of another codec. -/
def pmap (c : Codec α) (P : β → Prop) (f : ∀ a, c.Valid a → β) (g : β → α)
    (valid : ∀ b, P b → c.Valid (g b)) (left : ∀ b (h : P b), f (g b) (valid b h) = b)
    (right : ∀ a h, P (f a h) ∧ g (f a h) = a) : Codec β where
  Valid := P
  serialize b := c.serialize (g b)
  deserialize input :=
    match read : c.deserialize input with
    | some (a, rest) => some (f a (c.sound input a rest read).1, rest)
    | none => none
  complete := by
    intro b rest h
    have read := c.complete (g b) rest (valid b h)
    split
    next a rest' read' =>
      rw [read] at read'
      cases read'
      rw [left b h]
    next none =>
      rw [read] at none
      cases none
  sound := by
    intro input b rest read
    split at read
    next a rest' read' =>
      cases read
      obtain ⟨holds, back⟩ := right a (c.sound _ _ _ read').1
      exact ⟨holds, by rw [back]; exact (c.sound _ _ _ read').2⟩
    · cases read

/-- The same values in another shape. -/
def imap (c : Codec α) (e : α ≃ β) : Codec β where
  Valid b := c.Valid (e.symm b)
  serialize b := c.serialize (e.symm b)
  deserialize input := (c.deserialize input).map fun p => (e p.1, p.2)
  complete := by
    intro b rest valid
    simp [c.complete _ rest valid]
  sound := by
    intro input b rest read
    obtain ⟨p, first, same⟩ := Option.map_eq_some_iff.mp read
    cases same
    rw [e.symm_apply_apply]
    exact c.sound _ _ _ first

/-- A value whose encoding starts with a key that says how to read the rest. -/
def keyed (c : Codec α) (key : β → α) (d : α → Codec β) (determined : ∀ a b, (d a).Valid b → key b = a) :
    Codec β where
  Valid b := c.Valid (key b) ∧ (d (key b)).Valid b
  serialize b := c.serialize (key b) ++ (d (key b)).serialize b
  deserialize input := do
    let (a, rest) ← c.deserialize input
    (d a).deserialize rest
  complete := by
    rintro b rest ⟨left, right⟩
    simp [c.complete (key b) _ left, (d (key b)).complete b rest right]
  sound := by
    intro input b rest read
    simp only [Option.bind_eq_bind, Option.bind_eq_some_iff, Prod.exists] at read
    obtain ⟨a, mid, first, second⟩ := read
    obtain ⟨left, rfl⟩ := c.sound _ _ _ first
    obtain ⟨right, rfl⟩ := (d a).sound _ _ _ second
    obtain rfl := determined a b right
    exact ⟨⟨left, right⟩, (List.append_assoc _ _ _).symm⟩

/-- Nothing is written for the empty list. -/
def nil : Codec (List α) where
  Valid l := l = []
  serialize _ := []
  deserialize input := some ([], input)
  complete := by
    rintro _ rest rfl
    rfl
  sound := by
    rintro input l rest read
    cases read
    exact ⟨rfl, rfl⟩

/-- A first element in front of the others. -/
def cons (c : Codec α) (d : Codec (List α)) : Codec (List α) where
  Valid l := ∃ a rest, l = a :: rest ∧ c.Valid a ∧ d.Valid rest
  serialize l :=
    match l with
    | a :: rest => c.serialize a ++ d.serialize rest
    | [] => []
  deserialize input := ((c.prod d).deserialize input).map fun p => (p.1.1 :: p.1.2, p.2)
  complete := by
    rintro _ rest ⟨a, others, rfl, head, tail⟩
    have read := (c.prod d).complete (a, others) rest ⟨head, tail⟩
    exact Option.map_eq_some_iff.mpr ⟨_, read, rfl⟩
  sound := by
    intro input l rest read
    obtain ⟨⟨⟨a, others⟩, rest'⟩, first, same⟩ := Option.map_eq_some_iff.mp read
    cases same
    obtain ⟨⟨head, tail⟩, rfl⟩ := (c.prod d).sound _ _ _ first
    exact ⟨⟨a, others, rfl, head, tail⟩, rfl⟩

/-- As many values as given, one after the other. -/
def many (c : Codec α) : ℕ → Codec (List α)
  | 0 => nil
  | n + 1 => cons c (many c n)

theorem valid_many {c : Codec α} {n : ℕ} {l : List α} : (c.many n).Valid l ↔ l.length = n ∧ ∀ a ∈ l, c.Valid a := by
  induction n generalizing l with
  | zero =>
    constructor
    · rintro rfl
      exact ⟨rfl, by simp⟩
    · rintro ⟨length, -⟩
      exact List.eq_nil_of_length_eq_zero length
  | succ n ih =>
    constructor
    · rintro ⟨a, rest, rfl, head, tail⟩
      obtain ⟨length, each⟩ := ih.mp tail
      exact ⟨congrArg (· + 1) length, List.forall_mem_cons.mpr ⟨head, each⟩⟩
    · rintro ⟨length, each⟩
      cases l with
      | nil => cases length
      | cons a rest =>
        obtain ⟨head, tail⟩ := List.forall_mem_cons.mp each
        exact ⟨a, rest, rfl, head, ih.mpr ⟨Nat.succ.inj length, tail⟩⟩

theorem serialize_many {c : Codec α} {n : ℕ} {l : List α} (length : l.length = n) :
    (c.many n).serialize l = l.flatMap c.serialize := by
  induction l generalizing n with
  | nil =>
    cases length
    rfl
  | cons a rest ih =>
    cases length
    rw [List.flatMap_cons, ← ih rfl]
    rfl

end Building

end Codec
