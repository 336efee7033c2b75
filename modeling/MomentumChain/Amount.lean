import MomentumChain.Digits
import MomentumChain.Hash

/-!
# Amounts

An amount of a token is a word of 256 bits.  It is written as `0x` and its
digits in base 16, without leading zeros.  Reading is as lenient as for hashes:
one leading `0x` is dropped, and then 1 to 64 bytes must remain, among which
blanks are skipped.
-/

namespace MomentumChain

/-- An amount of a token in base units. -/
structure Amount where
  word : BitVec 256
deriving DecidableEq

namespace Amount

def toNat (amount : Amount) : Nat := amount.word.toNat

/-- The amount of a number, which is reduced to 256 bits. -/
def ofNat (n : Nat) : Amount := ⟨BitVec.ofNat 256 n⟩

/-- No coins at all. -/
def zero : Amount := ofNat 0

instance : Inhabited Amount := ⟨zero⟩

/-- The largest amount as a number. -/
def maxNat : Nat := Word.radix 256 - 1

/-- Sum, or the largest amount where the sum does not fit. -/
def satAdd (a b : Amount) : Amount := ofNat (min (a.toNat + b.toNat) maxNat)

/-- Difference, or zero where it would be negative. -/
def satSub (a b : Amount) : Amount := ofNat (a.toNat - b.toNat)

theorem toNat_lt (a : Amount) : a.toNat < Word.radix 256 := Word.toNat_lt_radix a.word

theorem toNat_ofNat {n : Nat} (h : n < Word.radix 256) : (ofNat n).toNat = n := by
  rw [toNat, ofNat, Word.toNat_ofNat]
  exact Nat.mod_eq_of_lt h

@[simp] theorem ofNat_toNat (a : Amount) : ofNat a.toNat = a := by
  simp [ofNat, toNat]

theorem toNat_inj {a b : Amount} : a.toNat = b.toNat ↔ a = b :=
  ⟨fun h => by rw [← ofNat_toNat a, h, ofNat_toNat], fun h => h ▸ rfl⟩

theorem toNat_satAdd (a b : Amount) : (a.satAdd b).toNat = min (a.toNat + b.toNat) maxNat := by
  rw [satAdd, toNat_ofNat]
  have := Word.radix_pos 256
  simp only [maxNat]
  omega

theorem toNat_satSub (a b : Amount) : (a.satSub b).toNat = a.toNat - b.toNat := by
  rw [satSub, toNat_ofNat]
  have := a.toNat_lt
  omega

/-- The 32 bytes of an amount, highest first. -/
def toBytes (amount : Amount) : Bytes := Bytes.bigEndian 32 amount.toNat

/-- The written form of an amount. -/
def text (amount : Amount) : String :=
  "0x" ++ String.ofList ((digits 16 amount.toNat).map Hex.digit)

/-- Reads an amount from its text. -/
def read? (text : String) : Option Amount :=
  let raw := Nibbles.dropTag (Utf8.encode text)
  if 1 ≤ raw.length ∧ raw.length ≤ 64 then
    (Nibbles.read? raw).map fun bytes => ofNat (Bytes.ofBigEndian bytes)
  else none

end Amount

end MomentumChain
