import Mathlib.Data.Nat.Digits.Defs
import Mathlib.Tactic.Ring
import Polyleverage.Codec.Basic

/-! # Words, arrays and vectors

Machine words are written lowest byte first in a fixed width, an array is its elements one after the
other, and a vector is preceded by its length as a word of four bytes.
-/

namespace Codec

/-- The lowest bytes of a number, lowest first. -/
def wordBytes : ℕ → ℕ → List UInt8
  | 0, _ => []
  | n + 1, v => UInt8.ofNat v :: wordBytes n (v / 256)

/-- The number with these bytes, lowest first. -/
def ofWordBytes (bytes : List UInt8) : ℕ := Nat.ofDigits 256 (bytes.map UInt8.toNat)

@[simp] theorem ofWordBytes_nil : ofWordBytes [] = 0 := rfl

theorem ofWordBytes_cons (b : UInt8) (bytes : List UInt8) :
    ofWordBytes (b :: bytes) = b.toNat + 256 * ofWordBytes bytes := by
  simp [ofWordBytes, Nat.ofDigits_cons]

@[simp] theorem length_wordBytes (n v : ℕ) : (wordBytes n v).length = n := by
  induction n generalizing v with
  | zero => rfl
  | succ n ih => rw [wordBytes, List.length_cons, ih]

theorem ofWordBytes_wordBytes {n v : ℕ} (fits : v < 256 ^ n) : ofWordBytes (wordBytes n v) = v := by
  induction n generalizing v with
  | zero =>
    rw [pow_zero, Nat.lt_one_iff] at fits
    rw [fits]
    rfl
  | succ n ih =>
    have above : v / 256 < 256 ^ n := by
      apply Nat.div_lt_of_lt_mul
      rwa [mul_comm, ← pow_succ]
    have low : (UInt8.ofNat v).toNat = v % 256 := UInt8.toNat_ofNat'
    rw [wordBytes, ofWordBytes_cons, ih above, low, Nat.mod_add_div]

theorem wordBytes_ofWordBytes {n : ℕ} {bytes : List UInt8} (length : bytes.length = n) :
    wordBytes n (ofWordBytes bytes) = bytes := by
  subst length
  induction bytes with
  | nil => rfl
  | cons b rest ih =>
    have lt := b.toNat_lt
    have low : UInt8.ofNat (b.toNat + 256 * ofWordBytes rest) = b := by
      apply UInt8.toNat_inj.mp
      rw [UInt8.toNat_ofNat']
      omega
    have above : (b.toNat + 256 * ofWordBytes rest) / 256 = ofWordBytes rest := by omega
    rw [ofWordBytes_cons, List.length_cons, wordBytes, low, above, ih]

theorem ofWordBytes_lt (bytes : List UInt8) : ofWordBytes bytes < 256 ^ bytes.length := by
  induction bytes with
  | nil => exact Nat.one_pos
  | cons b rest ih =>
    have lt := b.toNat_lt
    rw [ofWordBytes_cons, List.length_cons, pow_succ]
    omega

/-- A number in as many bytes, lowest first. -/
def word (n : ℕ) : Codec ℕ :=
  (bytes n).pmap (· < 256 ^ n) (fun bs _ => ofWordBytes bs) (wordBytes n) (fun v _ => length_wordBytes n v)
    (fun _ fits => ofWordBytes_wordBytes fits)
    (fun bs length => ⟨(congrArg (256 ^ ·) length) ▸ ofWordBytes_lt bs, wordBytes_ofWordBytes length⟩)

/-- A machine word, through the number it stands for. -/
def machineWord {α : Type} (n : ℕ) (toNat : α → ℕ) (ofNat : ℕ → α) (lt : ∀ a, toNat a < 256 ^ n)
    (ofNat_toNat : ∀ a, ofNat (toNat a) = a) (toNat_ofNat : ∀ v < 256 ^ n, toNat (ofNat v) = v) : Codec α :=
  (word n).pmap (fun _ => True) (fun v _ => ofNat v) toNat (fun a _ => lt a) (fun a _ => ofNat_toNat a)
    (fun v fits => ⟨trivial, toNat_ofNat v fits⟩)

def u8 : Codec UInt8 :=
  machineWord 1 UInt8.toNat UInt8.ofNat UInt8.toNat_lt (fun _ => UInt8.ofNat_toNat)
    (fun _ fits => UInt8.toNat_ofNat_of_lt fits)

def u16 : Codec UInt16 :=
  machineWord 2 UInt16.toNat UInt16.ofNat UInt16.toNat_lt (fun _ => UInt16.ofNat_toNat)
    (fun _ fits => UInt16.toNat_ofNat_of_lt fits)

def u32 : Codec UInt32 :=
  machineWord 4 UInt32.toNat UInt32.ofNat UInt32.toNat_lt (fun _ => UInt32.ofNat_toNat)
    (fun _ fits => UInt32.toNat_ofNat_of_lt fits)

def u64 : Codec UInt64 :=
  machineWord 8 UInt64.toNat UInt64.ofNat UInt64.toNat_lt (fun _ => UInt64.ofNat_toNat)
    (fun _ fits => UInt64.toNat_ofNat_of_lt fits)

section Sequences

variable {α : Type}

/-- The elements of an array, without its length. -/
def array (n : ℕ) (c : Codec α) : Codec (Vector α n) :=
  (c.many n).pmap (fun v => ∀ a ∈ v.toList, c.Valid a)
    (fun l valid => ⟨l.toArray, by simpa using (valid_many.mp valid).1⟩) Vector.toList
    (fun v each => valid_many.mpr ⟨v.length_toList, each⟩)
    (fun _ _ => rfl) (fun _ valid => ⟨(valid_many.mp valid).2, rfl⟩)

/-- A vector: how many elements there are, and the elements. -/
def vec (c : Codec α) : Codec (List α) :=
  (word 4).keyed List.length c.many fun _ _ valid => (valid_many.mp valid).1

theorem valid_vec {c : Codec α} {l : List α} : c.vec.Valid l ↔ l.length < 2 ^ 32 ∧ ∀ a ∈ l, c.Valid a := by
  constructor
  · rintro ⟨length, each⟩
    exact ⟨length, (valid_many.mp each).2⟩
  · rintro ⟨length, each⟩
    exact ⟨length, valid_many.mpr ⟨rfl, each⟩⟩

end Sequences

end Codec
