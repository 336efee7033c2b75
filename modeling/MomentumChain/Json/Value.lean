import MomentumChain.Bytes.Hex
import MomentumChain.Digits

/-!
# JSON values and their text

Records are written as JSON text without blanks, and their members in order.

A value keeps what records need.  A number that is no natural number is only
known to be one (`Value.number`).  A string that holds an escape of an unpaired
surrogate has no text (`Value.string none`).  Both can stand in a text that is
read, in places that are skipped, and are written as one of their kind.

In a string, the quote, the backslash and the characters below the blank are
escaped and nothing else is.
-/

namespace MomentumChain.Json

/-- A JSON value. -/
inductive Value where
  | null
  | bool (value : Bool)
  | nat (value : Nat)
  /-- A number with a sign, a fraction or an exponent. -/
  | number
  /-- A string, without a text if it holds an unpaired surrogate. -/
  | string (text : Option String)
  | array (items : List Value)
  /-- A list of named values. -/
  | object (members : List (Option String × Value))

namespace Value

/-- A string with a text. -/
def text (s : String) : Value := .string (some s)

/-- Members with plain names. -/
def record (members : List (String × Value)) : Value :=
  .object (members.map fun (name, value) => (some name, value))

end Value

/-! ## Writing -/

/-- The digits of a number in base 10. -/
def decimal (n : Nat) : List Char := (digits 10 n).map Hex.digit

/-- A character of a string. -/
def escape (c : Char) : List Char :=
  if c = '"' then ['\\', '"']
  else if c = '\\' then ['\\', '\\']
  else if c.toNat = 8 then ['\\', 'b']
  else if c.toNat = 12 then ['\\', 'f']
  else if c = '\n' then ['\\', 'n']
  else if c = '\r' then ['\\', 'r']
  else if c = '\t' then ['\\', 't']
  else if c.toNat < 32 then
    ['\\', 'u', '0', '0', Hex.digit (c.toNat / 16), Hex.digit (c.toNat % 16)]
  else [c]

/-- The inside of a string.  A string without a text is written as one unpaired
surrogate. -/
def writeInside : Option String → List Char
  | some s => s.toList.flatMap escape
  | none => ['\\', 'u', 'd', '8', '0', '0']

/-- A string in quotes. -/
def writeString (text : Option String) : List Char := '"' :: (writeInside text ++ ['"'])

mutual

/-- The text of a value. -/
def write : Value → List Char
  | .null => ['n', 'u', 'l', 'l']
  | .bool true => ['t', 'r', 'u', 'e']
  | .bool false => ['f', 'a', 'l', 's', 'e']
  | .nat n => decimal n
  | .number => ['-', '0']
  | .string text => writeString text
  | .array [] => ['[', ']']
  | .array (item :: items) => '[' :: (write item ++ writeItems items)
  | .object [] => ['{', '}']
  | .object ((name, value) :: members) =>
      '{' :: (writeString name ++ (':' :: (write value ++ writeMembers members)))

/-- The items after the first one and the end of the list. -/
def writeItems : List Value → List Char
  | [] => [']']
  | item :: items => ',' :: (write item ++ writeItems items)

/-- The members after the first one and the end of the object. -/
def writeMembers : List (Option String × Value) → List Char
  | [] => ['}']
  | (name, value) :: members =>
      ',' :: (writeString name ++ (':' :: (write value ++ writeMembers members)))

end

/-- The text of a value as a string. -/
def render (value : Value) : String := String.ofList (write value)

end MomentumChain.Json
