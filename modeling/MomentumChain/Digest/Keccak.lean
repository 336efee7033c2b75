import MomentumChain.Bytes.Endian

/-!
# Keccak digests

The permutation Keccak-f[1600] acts on 25 lanes of 64 bits.  Lane `x + 5 * y`
stands in column `x` and row `y`.  A sponge of 17 lanes absorbs the message,
padded to whole blocks, and the digest is the first four lanes.

The padding starts with a byte that tells two families of digests apart, and
its last bit is set.  `sha3` pads with `0x06` and `keccak` with `0x01`.
-/

namespace MomentumChain.Digest

/-- The lanes of the permutation. -/
abbrev Lanes : Type := Vector UInt64 25

/-- The lane rotated to the left. -/
def rotateLeft (lane : UInt64) (count : Nat) : UInt64 :=
  (lane <<< UInt64.ofNat (count % 64)) ||| (lane >>> UInt64.ofNat ((64 - count % 64) % 64))

/-! ## The permutation -/

/-- Distance of the rotation of each lane. -/
def rotations : Vector Nat 25 :=
  #v[0, 1, 62, 28, 27,
     36, 44, 6, 55, 20,
     3, 10, 43, 25, 39,
     41, 45, 15, 21, 8,
     18, 2, 61, 56, 14]

/-- The constant of each round. -/
def roundConstants : List UInt64 :=
  [0x0000000000000001, 0x0000000000008082, 0x800000000000808a, 0x8000000080008000,
   0x000000000000808b, 0x0000000080000001, 0x8000000080008081, 0x8000000000008009,
   0x000000000000008a, 0x0000000000000088, 0x0000000080008009, 0x000000008000000a,
   0x000000008000808b, 0x800000000000008b, 0x8000000000008089, 0x8000000000008003,
   0x8000000000008002, 0x8000000000000080, 0x000000000000800a, 0x800000008000000a,
   0x8000000080008081, 0x8000000000008080, 0x0000000080000001, 0x8000000080008008]

/-- The lane in column `x` and row `y`, both taken modulo 5. -/
def laneAt (lanes : Lanes) (x y : Nat) : UInt64 :=
  lanes.get ⟨x % 5 + 5 * (y % 5), by omega⟩

/-- The lanes given by column and row. -/
def ofColumns (lane : Nat → Nat → UInt64) : Lanes :=
  Vector.ofFn fun i => lane (i.val % 5) (i.val / 5)

/-- Adds to each lane the parities of two neighbouring columns. -/
def theta (lanes : Lanes) : Lanes :=
  let parity : Vector UInt64 5 := Vector.ofFn fun x =>
    laneAt lanes x 0 ^^^ laneAt lanes x 1 ^^^ laneAt lanes x 2 ^^^ laneAt lanes x 3 ^^^
      laneAt lanes x 4
  let mixed : Vector UInt64 5 := Vector.ofFn fun x =>
    parity.get ⟨(x.val + 4) % 5, by omega⟩ ^^^
      rotateLeft (parity.get ⟨(x.val + 1) % 5, by omega⟩) 1
  ofColumns fun x y => laneAt lanes x y ^^^ mixed.get ⟨x % 5, by omega⟩

/-- Rotates every lane and moves it to its new place. -/
def rhoPi (lanes : Lanes) : Lanes :=
  ofColumns fun x y =>
    rotateLeft (laneAt lanes (x + 3 * y) x)
      (rotations.get ⟨(x + 3 * y) % 5 + 5 * (x % 5), by omega⟩)

/-- Combines each lane with the next two of its row. -/
def chi (lanes : Lanes) : Lanes :=
  ofColumns fun x y =>
    laneAt lanes x y ^^^ (~~~ laneAt lanes (x + 1) y &&& laneAt lanes (x + 2) y)

/-- Adds the constant of the round to the first lane. -/
def iota (constant : UInt64) (lanes : Lanes) : Lanes :=
  lanes.set 0 (lanes.get 0 ^^^ constant)

/-- One round. -/
def round (lanes : Lanes) (constant : UInt64) : Lanes := iota constant (chi (rhoPi (theta lanes)))

/-- The permutation Keccak-f[1600]. -/
def permute (lanes : Lanes) : Lanes := roundConstants.foldl round lanes

/-! ## The sponge -/

/-- Lanes of one block. -/
def rate : Nat := 17

/-- The message padded to whole blocks. -/
def pad (first : UInt8) (message : Bytes) : Bytes :=
  match 8 * rate - message.length % (8 * rate) with
  | 0 | 1 => message ++ [first ||| 0x80]
  | room + 2 => message ++ first :: (List.replicate room 0 ++ [0x80])

/-- A byte string as lanes, eight bytes each. -/
def toLanes : Bytes → List UInt64
  | [] => []
  | byte :: bytes =>
      UInt64.ofNat (Bytes.ofLittleEndian (byte :: bytes.take 7)) :: toLanes (bytes.drop 7)
termination_by bytes => bytes.length
decreasing_by simp only [List.length_drop, List.length_cons]; omega

/-- Adds a block to the lanes. -/
def addBlock (lanes : Lanes) (block : List UInt64) : Lanes :=
  Vector.ofFn fun i => lanes.get i ^^^ block.getD i.val 0

/-- Absorbs blocks one after the other. -/
def absorb (lanes : Lanes) : List UInt64 → Lanes
  | [] => lanes
  | lane :: rest =>
      absorb (permute (addBlock lanes (lane :: rest.take (rate - 1)))) (rest.drop (rate - 1))
termination_by message => message.length
decreasing_by simp only [List.length_drop, List.length_cons]; omega

/-- The first 32 bytes of the lanes. -/
def squeeze (lanes : Lanes) : Vector UInt8 32 :=
  Vector.ofFn fun i =>
    UInt8.ofNat ((lanes.get ⟨i.val / 8, by omega⟩).toNat >>> (8 * (i.val % 8)))

/-- Digest of 256 bits with the given first byte of padding. -/
def sponge (first : UInt8) (message : Bytes) : Vector UInt8 32 :=
  squeeze (absorb (Vector.replicate 25 0) (toLanes (pad first message)))

/-- The digest SHA3-256. -/
def sha3 (message : Bytes) : Vector UInt8 32 := sponge 0x06 message

/-- The digest Keccak-256. -/
def keccak (message : Bytes) : Vector UInt8 32 := sponge 0x01 message

end MomentumChain.Digest
