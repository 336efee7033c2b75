import MomentumChain.Bytes.Hex

/-!
# Identifiers

Addresses and tokens are byte strings of a fixed length.  Their text is a tag
and the hexadecimal digits of the bytes.  Reading drops the tag if it is there,
reads the digits and then looks at the length.
-/

namespace MomentumChain.Identifier

/-- What makes a text no identifier. -/
inductive Error where
  /-- The text after the tag is not hexadecimal. -/
  | invalidHex (cause : Hex.Error)
  /-- The number of bytes is not the one of the identifier. -/
  | invalidLength (expected actual : Nat)
deriving DecidableEq, Repr

/-- The text of an error. -/
def Error.message : Error → String
  | .invalidHex cause => s!"Invalid hex: {cause.message}"
  | .invalidLength expected actual =>
      s!"Invalid length: expected {expected} bytes, got {actual}"

/-- The written form of an identifier. -/
def write {size : Nat} (tag : String) (bytes : Vector UInt8 size) : String :=
  tag ++ Hex.encode bytes.toList

/-- The text without one leading tag. -/
def dropTag (tag text : Bytes) : Bytes :=
  if tag.isPrefixOf text then text.drop tag.length else text

/-- Reads an identifier of `size` bytes. -/
def read (tag : String) (size : Nat) (text : String) : Except Error (Vector UInt8 size) :=
  match Hex.decode (dropTag (Utf8.encode tag) (Utf8.encode text)) with
  | .error cause => .error (.invalidHex cause)
  | .ok bytes =>
      match Bytes.toVector? size bytes with
      | some identifier => .ok identifier
      | none => .error (.invalidLength size bytes.length)

end MomentumChain.Identifier
