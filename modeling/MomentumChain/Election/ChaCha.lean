/-!
# The random stream of an election

The words of a stream come from the ChaCha permutation with eight rounds.  Its
16 words hold four constants, a key of eight words, a block counter of two words
and two zeros.  The key is derived from a number, the seed, by eight steps of a
linear congruence whose states are scrambled.
-/

namespace MomentumChain.Election

/-- The words of the permutation. -/
abbrev Words : Type := Vector UInt32 16

/-- The word rotated to the left by fewer than 32 bits. -/
def rotateLeft32 (word : UInt32) (count : UInt32) : UInt32 :=
  (word <<< count) ||| (word >>> ((32 - count) % 32))

/-- The word rotated to the right by fewer than 32 bits. -/
def rotateRight32 (word : UInt32) (count : UInt32) : UInt32 :=
  (word >>> count) ||| (word <<< ((32 - count) % 32))

/-! ## The key of a seed -/

/-- The next state of the linear congruence. -/
def seedStep (state : UInt64) : UInt64 := state * 6364136223846793005 + 11634580027462260723

/-- The word that a state gives. -/
def seedWord (state : UInt64) : UInt32 :=
  rotateRight32 ((((state >>> 18) ^^^ state) >>> 27).toUInt32) (state >>> 59).toUInt32

/-- The words of the states after a state. -/
def seedWords : (count : Nat) → UInt64 → List UInt32
  | 0, _ => []
  | count + 1, state => seedWord (seedStep state) :: seedWords count (seedStep state)

/-- The key of a seed. -/
def keyOfSeed (seed : UInt64) : List UInt32 := seedWords 8 seed

/-! ## The permutation -/

/-- Mixes four words. -/
def quarterRound (words : Words) (a b c d : Fin 16) : Words :=
  let x := words.get a + words.get b
  let w := rotateLeft32 (words.get d ^^^ x) 16
  let z := words.get c + w
  let y := rotateLeft32 (words.get b ^^^ z) 12
  let x := x + y
  let w := rotateLeft32 (w ^^^ x) 8
  let z := z + w
  let y := rotateLeft32 (y ^^^ z) 7
  (((words.set a x).set b y).set c z).set d w

/-- A round of the columns and a round of the diagonals. -/
def doubleRound (words : Words) : Words :=
  let words := quarterRound words 0 4 8 12
  let words := quarterRound words 1 5 9 13
  let words := quarterRound words 2 6 10 14
  let words := quarterRound words 3 7 11 15
  let words := quarterRound words 0 5 10 15
  let words := quarterRound words 1 6 11 12
  let words := quarterRound words 2 7 8 13
  quarterRound words 3 4 9 14

/-- The four constants. -/
def constants : List UInt32 := [0x61707865, 0x3320646e, 0x79622d32, 0x6b206574]

/-- The words before the permutation. -/
def startWords (key : List UInt32) (counter : UInt64) : Words :=
  let all := constants ++ key ++ [counter.toUInt32, (counter >>> 32).toUInt32]
  Vector.ofFn fun i => all.getD i.val 0

/-- A block of the stream. -/
def streamBlock (key : List UInt32) (counter : UInt64) : Words :=
  let start := startWords key counter
  let mixed := doubleRound (doubleRound (doubleRound (doubleRound start)))
  Vector.ofFn fun i => mixed.get i + start.get i

/-- The word of the stream at a position. -/
def streamWord (key : List UInt32) (position : Nat) : UInt32 :=
  (streamBlock key (UInt64.ofNat (position / 16))).get ⟨position % 16, by omega⟩

end MomentumChain.Election
