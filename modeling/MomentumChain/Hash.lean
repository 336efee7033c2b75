import MomentumChain.Bytes.Hex
import MomentumChain.Digest.Keccak

/-!
# Hashes

A hash is a string of 32 bytes.  Hashes are compared as big-endian numbers,
which is the order of their byte strings.

A hash is written as `0x` and 64 lowercase digits.  Reading is more lenient
(`Nibbles.read?`).  One leading `0x` is dropped, and then 64 bytes must remain.
Blanks among them are skipped.  The digits are taken in pairs and fill the hash
from its first byte.  Bytes that are not reached are zero.
-/

namespace MomentumChain

/-! ## Digits among blanks -/

namespace Nibbles

/-- A byte that is skipped between digits. -/
def isBlank (byte : UInt8) : Bool := byte = 32 || byte = 9 || byte = 10 || byte = 13

/-- The values of the digits of a text, without its blanks. -/
def digits? : Bytes → Option (List Nat)
  | [] => some []
  | byte :: rest =>
      if isBlank byte then digits? rest
      else do
        let n ← Hex.value? byte
        let ns ← digits? rest
        pure (n :: ns)

/-- Digits taken in pairs.  A last single digit is dropped. -/
def pairs : List Nat → Bytes
  | high :: low :: rest => UInt8.ofNat (16 * high + low) :: pairs rest
  | _ => []

/-- The bytes of a text of digits.  A text of odd length gets a zero in front,
and blanks count for the length. -/
def read? (text : Bytes) : Option Bytes := do
  let digits ← digits? text
  pure (pairs (if text.length % 2 = 1 then 0 :: digits else digits))

/-- The text without one leading `0x`. -/
def dropTag : Bytes → Bytes
  | 48 :: 120 :: rest => rest
  | text => text

end Nibbles

/-! ## Hashes -/

/-- A digest of 256 bits. -/
structure Hash where
  /-- The bytes, first byte first. -/
  bytes : Vector UInt8 32
deriving DecidableEq

namespace Hash

/-- The hash of zero bytes, held where no hash is known. -/
def zero : Hash := ⟨Vector.replicate 32 0⟩

instance : Inhabited Hash := ⟨zero⟩

def toBytes (hash : Hash) : Bytes := hash.bytes.toList

@[simp] theorem length_toBytes (hash : Hash) : hash.toBytes.length = 32 := by simp [toBytes]

/-- Hashes are told apart by their bytes. -/
theorem toBytes_inj {a b : Hash} : a.toBytes = b.toBytes ↔ a = b := by
  cases a; cases b; simp [toBytes, Vector.toList_inj]

/-- Hashes are ordered as byte strings. -/
instance : LT Hash := ⟨fun a b => a.toBytes < b.toBytes⟩

instance (a b : Hash) : Decidable (a < b) :=
  inferInstanceAs (Decidable (a.toBytes < b.toBytes))

theorem lt_irrefl (hash : Hash) : ¬ hash < hash := List.lt_irrefl hash.toBytes

theorem lt_trans {a b c : Hash} (hab : a < b) (hbc : b < c) : a < c := List.lt_trans hab hbc

theorem eq_of_not_lt {a b : Hash} (hab : ¬ a < b) (hba : ¬ b < a) : a = b := by
  have hle : b.toBytes ≤ a.toBytes := List.not_lt.mp hab
  cases List.le_iff_lt_or_eq.mp hle with
  | inl hlt => exact absurd hlt hba
  | inr heq => exact (toBytes_inj.mp heq).symm

def ofMessage (message : Bytes) : Hash := ⟨Digest.sha3 message⟩

/-- The 64 digits of a hash. -/
def digits (hash : Hash) : String := Hex.encode hash.toBytes

/-- The written form of a hash. -/
def text (hash : Hash) : String := "0x" ++ hash.digits

/-- The hash that begins with the given bytes and is zero after them. -/
def ofStart (bytes : Bytes) : Hash := ⟨Vector.ofFn fun i => bytes.getD i.val 0⟩

/-- Reads a hash from its text. -/
def read? (text : String) : Option Hash :=
  let raw := Nibbles.dropTag (Utf8.encode text)
  if raw.length = 64 then (Nibbles.read? raw).map ofStart else none

end Hash

end MomentumChain
