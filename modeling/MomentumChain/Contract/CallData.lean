import MomentumChain.Address
import MomentumChain.Block
import MomentumChain.Plasma.Variables

/-!
# Call data

The data of a call begins with the selector of the method: the first four bytes
of the Keccak digest of its signature.  The parameters follow, one after the
other, in formats of their own.

* A number has the bytes of its width, lowest first.
* A text has its length in eight bytes, lowest first, and then its UTF-8 bytes.
* An address and a hash are held by their texts.

Texts of addresses and hashes may be written in several ways, and reading takes
them all.  A call is readable (`unpack?`) if its selector is right, its
parameters can be read, and the parameters written again are as long as the
parameters given.
-/

namespace MomentumChain.Contract

/-! ## Formats of parameters -/

/-- How a parameter is held by bytes. -/
structure Format (α : Type) where
  /-- The bytes of a value. -/
  write : α → Bytes
  /-- The value at the start of some bytes, and the bytes after it. -/
  read? : Bytes → Option (α × Bytes)

namespace Format

/-- The first `size` bytes and those after them. -/
def take? (size : Nat) (bytes : Bytes) : Option (Bytes × Bytes) :=
  if size ≤ bytes.length then some (bytes.take size, bytes.drop size) else none

/-- No parameter at all. -/
def unit : Format Unit where
  write _ := []
  read? bytes := some ((), bytes)

/-- A number of 64 bits. -/
def word : Format UInt64 where
  write n := Bytes.littleEndian 8 n.toNat
  read? bytes := do
    let (digits, rest) ← take? 8 bytes
    pure (UInt64.ofNat (Bytes.ofLittleEndian digits), rest)

/-- A number of 8 bits. -/
def byte : Format UInt8 where
  write n := [n]
  read? bytes :=
    match bytes with
    | n :: rest => some (n, rest)
    | [] => none

def text : Format String where
  write s := word.write (UInt64.ofNat (Utf8.size s)) ++ Utf8.encode s
  read? bytes := do
    let (size, rest) ← word.read? bytes
    let (encoded, rest) ← take? size.toNat rest
    let s ← Utf8.decode? encoded
    pure (s, rest)

def address : Format Address where
  write a := text.write a.text
  read? bytes := do
    let (s, rest) ← text.read? bytes
    let a ← (Address.read s).toOption
    pure (a, rest)

def hash : Format Hash where
  write h := text.write h.text
  read? bytes := do
    let (s, rest) ← text.read? bytes
    let h ← Hash.read? s
    pure (h, rest)

/-- Two parameters, one after the other. -/
def pair {α β : Type} (first : Format α) (second : Format β) : Format (α × β) where
  write v := first.write v.1 ++ second.write v.2
  read? bytes := do
    let (a, rest) ← first.read? bytes
    let (b, rest) ← second.read? rest
    pure ((a, b), rest)

/-- The variables of the plasma market. -/
def plasmaVariables : Format Plasma.Variables where
  write v :=
    word.write v.budget ++ word.write v.fusionTarget ++ word.write v.workTarget ++
      byte.write v.changePercent ++ byte.write v.denominator
  read? bytes := do
    let (budget, rest) ← word.read? bytes
    let (fusionTarget, rest) ← word.read? rest
    let (workTarget, rest) ← word.read? rest
    let (changePercent, rest) ← byte.read? rest
    let (denominator, rest) ← byte.read? rest
    pure (⟨budget, fusionTarget, workTarget, changePercent, denominator⟩, rest)

end Format

/-! ## Calls -/

/-- Bytes of a selector. -/
def selectorSize : Nat := 4

/-- The selector of a signature. -/
def selector (signature : String) : Bytes :=
  (Digest.keccak (Utf8.encode signature)).toList.take selectorSize

/-- The selector of a call and its parameters. -/
def splitCall? (data : Bytes) : Option (Bytes × Bytes) := Format.take? selectorSize data

/-- The data of a call. -/
def pack {α : Type} (format : Format α) (signature : String) (value : α) : Bytes :=
  selector signature ++ format.write value

/-- The parameters of a call with the given signature. -/
def unpack? {α : Type} (format : Format α) (signature : String) (data : Bytes) : Option α := do
  let (called, parameters) ← splitCall? data
  guard (called = selector signature)
  let (value, _) ← format.read? parameters
  guard ((format.write value).length = parameters.length)
  pure value

end MomentumChain.Contract
