import MomentumChain.Address
import MomentumChain.Amount
import MomentumChain.Json.Reader
import MomentumChain.Token

/-!
# Forms of values

A form says how the values of a type are held by JSON values.

* Numbers are numbers, and reading refuses one that its word cannot hold.
* Addresses, tokens, hashes and amounts are held by their texts.
* Byte strings are arrays of numbers.
* A choice is held by its name.  Reading also takes an object whose only member
  has that name and is null.
-/

namespace MomentumChain.Json

/-- How the values of a type are held. -/
structure Form (α : Type) where
  /-- The JSON value of a value. -/
  write : α → Value
  /-- The value of a JSON value. -/
  read? : Value → Option α

namespace Form

/-- The text of a value. -/
def text {α : Type} (form : Form α) (value : α) : String := render (form.write value)

/-- The value of a text. -/
def ofText? {α : Type} (form : Form α) (text : String) : Option α := do
  form.read? (← parse? text)

/-! ## Single values -/

/-- No value at all. -/
def unit : Form Unit where
  write _ := .null
  read?
    | .null => some ()
    | _ => none

/-- Truth values. -/
def bool : Form Bool where
  write b := .bool b
  read?
    | .bool b => some b
    | _ => none

/-- Words of 64 bits. -/
def word : Form UInt64 where
  write n := .nat n.toNat
  read?
    | .nat n => if n < UInt64.size then some (UInt64.ofNat n) else none
    | _ => none

/-- Bytes. -/
def byte : Form UInt8 where
  write n := .nat n.toNat
  read?
    | .nat n => if n < UInt8.size then some (UInt8.ofNat n) else none
    | _ => none

/-- Texts. -/
def string : Form String where
  write s := .text s
  read?
    | .string s => s
    | _ => none

/-- Values that are held by their texts. -/
def ofTexts {α : Type} (text : α → String) (read? : String → Option α) : Form α where
  write a := .text (text a)
  read? v := do read? (← string.read? v)

/-- Addresses. -/
def address : Form Address := ofTexts Address.text fun s => (Address.read s).toOption

/-- Tokens. -/
def token : Form Token := ofTexts Token.text fun s => (Token.read s).toOption

/-- Hashes. -/
def hash : Form Hash := ofTexts Hash.text Hash.read?

/-- Amounts. -/
def amount : Form Amount := ofTexts Amount.text Amount.read?

/-- Choices that are held by their names. -/
def choice {α : Type} (name : α → String) (ofName? : String → Option α) : Form α where
  write a := .text (name a)
  read?
    | .string (some s) => ofName? s
    | .object [(some s, .null)] => ofName? s
    | _ => none

/-! ## Several values -/

/-- Lists. -/
def list {α : Type} (form : Form α) : Form (List α) where
  write items := .array (items.map form.write)
  read?
    | .array items => items.mapM form.read?
    | _ => none

/-- Byte strings. -/
def bytes : Form Bytes := list byte

/-- Byte strings of a fixed length. -/
def vector (size : Nat) : Form (Vector UInt8 size) where
  write v := bytes.write v.toList
  read? v := do Bytes.toVector? size (← bytes.read? v)

/-- Pairs. -/
def pair {α β : Type} (first : Form α) (second : Form β) : Form (α × β) where
  write v := .array [first.write v.1, second.write v.2]
  read?
    | .array [a, b] => do return (← first.read? a, ← second.read? b)
    | _ => none

end Form

end MomentumChain.Json
