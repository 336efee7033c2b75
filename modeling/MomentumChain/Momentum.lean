import MomentumChain.Block

/-!
# Momentums

A momentum commits account blocks.  It names them by their headers, in order,
and names the momentum before it by its hash.

The hash of a momentum is the digest of `Momentum.hashInput`.  The headers
enter through the digest of `Momentum.contentInput`.  From version
`dynamicVersion` on, a momentum also records the resource prices of the next
round, and they are part of the input.
-/

namespace MomentumChain

/-- A step of the chain. -/
structure Momentum where
  chainId : UInt64 := 0
  version : UInt64 := 0
  /-- The hash under which the momentum is known. -/
  hash : Hash := .zero
  previousHash : Hash := .zero
  height : UInt64 := 0
  /-- Time in seconds. -/
  timestamp : UInt64 := 0
  /-- Headers of the committed blocks. -/
  content : List Header := []
  nextFusionPrice : UInt64 := 0
  nextWorkPrice : UInt64 := 0
deriving DecidableEq

namespace Momentum

instance : Inhabited Momentum := ⟨{}⟩

/-- Version of momentums that record no prices. -/
def legacyVersion : UInt64 := 1

/-- First version of momentums that record prices. -/
def dynamicVersion : UInt64 := 2

/-- The bytes of the headers. -/
def contentInput (content : List Header) : Bytes := content.flatMap Header.toBytes

/-- The digest of the headers. -/
def contentDigest (content : List Header) : Hash := Hash.ofMessage (contentInput content)

/-- The bytes whose digest is the hash of the momentum. -/
def hashInput (momentum : Momentum) : Bytes :=
  Bytes.ofWord momentum.version ++ Bytes.ofWord momentum.chainId ++
    momentum.previousHash.toBytes ++ Bytes.ofWord momentum.height ++
    Bytes.ofWord momentum.timestamp ++ (contentDigest momentum.content).toBytes ++
    if dynamicVersion ≤ momentum.version then
      Bytes.ofWord momentum.nextFusionPrice ++ Bytes.ofWord momentum.nextWorkPrice
    else []

/-- The hash that belongs to the momentum. -/
def digest (momentum : Momentum) : Hash := Hash.ofMessage momentum.hashInput

/-- The momentum under the hash that belongs to it. -/
def hashed (momentum : Momentum) : Momentum := { momentum with hash := momentum.digest }

/-- A momentum with the blocks it commits. -/
structure Detailed where
  momentum : Momentum
  /-- Its blocks in the order of the headers. -/
  blocks : List Block
deriving DecidableEq

/-- A momentum signed by its producer. -/
structure Signed where
  detailed : Detailed
  producer : Address
  publicKey : Bytes
  /-- Signature over the hash of the momentum. -/
  signature : Bytes
deriving DecidableEq

end Momentum

end MomentumChain
