import MomentumChain.Identifier

/-!
# Tokens

A token is named by 10 bytes, written as `zts` and their digits.
-/

namespace MomentumChain

/-- The name of a token. -/
structure Token where
  /-- The bytes, first byte first. -/
  bytes : Vector UInt8 10
deriving DecidableEq

namespace Token

/-- The token of blocks that transfer nothing. -/
def zero : Token := ⟨Vector.replicate 10 0⟩

instance : Inhabited Token := ⟨zero⟩

/-- The first native coin. -/
def znn : Token := ⟨#v[0x5a, 0x4e, 0x4e, 0, 0, 0, 0, 0, 0, 1]⟩

/-- The second native coin, which is fused for plasma. -/
def qsr : Token := ⟨#v[0x51, 0x53, 0x52, 0, 0, 0, 0, 0, 0, 2]⟩

def toBytes (token : Token) : Bytes := token.bytes.toList

@[simp] theorem length_toBytes (token : Token) : token.toBytes.length = 10 := by simp [toBytes]

/-- Tokens are told apart by their bytes. -/
theorem toBytes_inj {a b : Token} : a.toBytes = b.toBytes ↔ a = b := by
  cases a; cases b; simp [toBytes, Vector.toList_inj]

/-- The written form of a token. -/
def text (token : Token) : String := Identifier.write "zts" token.bytes

/-- Reads a token from its text. -/
def read (text : String) : Except Identifier.Error Token :=
  Token.mk <$> Identifier.read "zts" 10 text

end Token

end MomentumChain
