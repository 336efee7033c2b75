import MomentumChain.Word

/-!
# Byte strings and the numbers they hold

A byte string is a list of bytes.  A number is held by a string of fixed
length in base 256, with the lowest digit first (`littleEndian`) or last
(`bigEndian`).  A number that needs more digits loses the high ones.

`ofLittleEndian_littleEndian` says that reading gives back the number modulo
the radix of `8 * size` bits, and `littleEndian_injOn` that two numbers below
that bound never share a string.  The same holds for the other order.
-/

namespace MomentumChain

/-- A string of bytes. -/
abbrev Bytes : Type := List UInt8

namespace Bytes

/-- The lowest `size` digits of a number in base 256, lowest first. -/
def littleEndian : (size value : Nat) → Bytes
  | 0, _ => []
  | size + 1, value => UInt8.ofNat value :: littleEndian size (value / 256)

/-- The lowest `size` digits of a number in base 256, lowest last. -/
def bigEndian (size value : Nat) : Bytes := (littleEndian size value).reverse

/-- The number with the given digits, lowest first. -/
def ofLittleEndian : Bytes → Nat
  | [] => 0
  | byte :: bytes => byte.toNat + 256 * ofLittleEndian bytes

/-- The number with the given digits, lowest last. -/
def ofBigEndian (bytes : Bytes) : Nat := ofLittleEndian bytes.reverse

@[simp] theorem length_littleEndian (size value : Nat) : (littleEndian size value).length = size := by
  induction size generalizing value with
  | zero => rfl
  | succ size ih => simp [littleEndian, ih]

@[simp] theorem length_bigEndian (size value : Nat) : (bigEndian size value).length = size := by
  simp [bigEndian]

theorem ofLittleEndian_littleEndian (size value : Nat) :
    ofLittleEndian (littleEndian size value) = value % Word.radix (8 * size) := by
  induction size generalizing value with
  | zero => simp [littleEndian, ofLittleEndian, Nat.mod_one]
  | succ size ih =>
      have h : (UInt8.ofNat value).toNat = value % 256 := by simp
      rw [littleEndian, ofLittleEndian, ih, h, Nat.mul_succ, Nat.add_comm (8 * size) 8,
        Word.radix_add]
      exact Nat.mod_mul.symm

theorem ofBigEndian_bigEndian (size value : Nat) :
    ofBigEndian (bigEndian size value) = value % Word.radix (8 * size) := by
  rw [ofBigEndian, bigEndian, List.reverse_reverse, ofLittleEndian_littleEndian]

/-- Numbers that fit are told apart by their strings. -/
theorem littleEndian_injOn {size a b : Nat} (ha : a < Word.radix (8 * size))
    (hb : b < Word.radix (8 * size))
    (h : littleEndian size a = littleEndian size b) : a = b := by
  have := congrArg ofLittleEndian h
  rwa [ofLittleEndian_littleEndian, ofLittleEndian_littleEndian, Nat.mod_eq_of_lt ha,
    Nat.mod_eq_of_lt hb] at this

theorem bigEndian_injOn {size a b : Nat} (ha : a < Word.radix (8 * size))
    (hb : b < Word.radix (8 * size))
    (h : bigEndian size a = bigEndian size b) : a = b :=
  littleEndian_injOn ha hb (List.reverse_inj.mp h)

/-- A string of exactly `size` bytes as a vector. -/
def toVector? (size : Nat) (bytes : Bytes) : Option (Vector UInt8 size) :=
  if h : bytes.length = size then some ⟨bytes.toArray, by simpa using h⟩ else none

theorem toVector?_toList {size : Nat} (bytes : Vector UInt8 size) :
    toVector? size bytes.toList = some bytes := by
  simp [toVector?, Vector.toList]

end Bytes

end MomentumChain
