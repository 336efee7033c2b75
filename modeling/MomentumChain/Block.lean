import MomentumChain.Address
import MomentumChain.Amount
import MomentumChain.Token

/-!
# Account blocks

Each account has a chain of blocks.  A block sends coins or receives a send.
Contracts receive sends in the same way, and the blocks they send in turn are
marked as contract sends.

The hash of a block is the digest of `Block.hashInput`, which lists every field
except the hash itself.  The data of a call enters through its own digest, so
every part of the input has a fixed length.
-/

namespace MomentumChain

namespace Bytes

/-- A 64-bit word in eight bytes, highest first. -/
def ofWord (word : UInt64) : Bytes := bigEndian 8 word.toNat

@[simp] theorem length_ofWord (word : UInt64) : (ofWord word).length = 8 := by simp [ofWord]

theorem ofWord_inj {a b : UInt64} : ofWord a = ofWord b ↔ a = b := by
  refine ⟨fun h => UInt64.toNat_inj.mp (bigEndian_injOn ?_ ?_ h), fun h => h ▸ rfl⟩
  · exact Word.toNat_lt_radix a.toBitVec
  · exact Word.toNat_lt_radix b.toBitVec

end Bytes

namespace Block

/-- What a block does. -/
inductive Kind where
  | userSend
  | userReceive
  /-- A contract sends as the effect of a receive. -/
  | contractSend
  | contractReceive
deriving DecidableEq, Repr

namespace Kind

/-- The byte that stands for the kind in the hash of a block. -/
def code : Kind → UInt8
  | .userSend => 2
  | .userReceive => 3
  | .contractSend => 4
  | .contractReceive => 5

def all : List Kind := [.userSend, .userReceive, .contractSend, .contractReceive]

/-- The name of the kind in records. -/
def name : Kind → String
  | .userSend => "UserSend"
  | .userReceive => "UserReceive"
  | .contractSend => "ContractSend"
  | .contractReceive => "ContractReceive"

def ofName? (name : String) : Option Kind := all.find? fun kind => kind.name = name

def isSend : Kind → Bool
  | .userSend | .contractSend => true
  | .userReceive | .contractReceive => false

def isReceive : Kind → Bool
  | .userReceive | .contractReceive => true
  | .userSend | .contractSend => false

end Kind

end Block

/-- A block of an account chain. -/
structure Block where
  kind : Block.Kind := .userSend
  /-- The hash under which the block is known. -/
  hash : Hash := .zero
  previousHash : Hash := .zero
  /-- Place in the account chain. -/
  height : UInt64 := 0
  /-- The account the block belongs to. -/
  address : Address := .zero
  /-- The account a send goes to. -/
  recipient : Address := .zero
  amount : Amount := .zero
  token : Token := .zero
  /-- Hash of the send that a receive accepts. -/
  fromHash : Hash := .zero
  /-- The call to a contract. -/
  data : Bytes := []
  /-- Plasma paid by fusion. -/
  fusedPlasma : UInt64 := 0
  difficulty : UInt64 := 0
  nonce : Vector UInt8 8 := Vector.replicate 8 0
  /-- Plasma the block consumes. -/
  basePlasma : UInt64 := 0
deriving DecidableEq

/-- What a momentum records of a block. -/
structure Header where
  address : Address
  height : UInt64
  hash : Hash
deriving DecidableEq

namespace Header

def toBytes (header : Header) : Bytes :=
  header.address.toBytes ++ Bytes.ofWord header.height ++ header.hash.toBytes

/-- Address, height and hash, separated by slashes. -/
def text (header : Header) : String :=
  header.address.text ++ "/" ++ toString header.height.toNat ++ "/" ++ header.hash.digits

end Header

namespace Block

instance : Inhabited Block := ⟨{}⟩

/-- The bytes whose digest is the hash of the block. -/
def hashInput (block : Block) : Bytes :=
  [block.kind.code] ++ block.previousHash.toBytes ++ Bytes.ofWord block.height ++
    block.address.toBytes ++ block.recipient.toBytes ++ block.amount.toBytes ++
    block.token.toBytes ++ block.fromHash.toBytes ++ (Hash.ofMessage block.data).toBytes ++
    Bytes.ofWord block.fusedPlasma ++ Bytes.ofWord block.difficulty ++ block.nonce.toList ++
    Bytes.ofWord block.basePlasma

/-- The hash that belongs to the block. -/
def digest (block : Block) : Hash := Hash.ofMessage block.hashInput

/-- The block under the hash that belongs to it. -/
def hashed (block : Block) : Block := { block with hash := block.digest }

/-- What a momentum records of the block. -/
def header (block : Block) : Header := ⟨block.address, block.height, block.hash⟩

def isContract (block : Block) : Bool := block.address.isContract

end Block

end MomentumChain
