import MomentumChain.Word

/-!
# Random permutations

A list is shuffled from its end.  Each place is swapped with a place that is not
behind it, chosen evenly by a draw.

A draw scales a number of a random stream to the range.  Numbers that would
favour some results are rejected, and the next number is tried.  A number is one
word of the stream, or two words if the range does not fit one.  How many numbers
one draw may try is bounded by `limit`, and a draw that tries more has no result.
-/

namespace MomentumChain.Election

/-- A random stream: the word at each position. -/
abbrev Stream : Type := Nat → UInt32

/-- Words of the stream in a number for a range. -/
def drawnWords (range : Nat) : Nat := if range < UInt32.size then 1 else 2

/-- The number in some words of the stream, the lowest word first. -/
def readWords (stream : Stream) : (count position : Nat) → Nat
  | 0, _ => 0
  | count + 1, position =>
      (stream position).toNat + UInt32.size * readWords stream count (position + 1)

/-- The largest low part of a scaled number of `width` bits that is not rejected. -/
def acceptedZone (width range : Nat) : Nat := range <<< (width - 1 - Nat.log2 range) - 1

/-- A number below `range` and the position of the stream after the draw. -/
def draw (stream : Stream) (range : Nat) : (limit position : Nat) → Option (Nat × Nat)
  | 0, _ => none
  | limit + 1, position =>
      let words := drawnWords range
      let width := 32 * words
      let scaled := readWords stream words position * range
      if scaled % Word.radix width ≤ acceptedZone width range then
        some (scaled / Word.radix width, position + words)
      else draw stream range limit (position + words)

/-- The array with two places swapped.  A place outside of it changes nothing. -/
def swapPlaces {α : Type} (items : Array α) (i j : Nat) : Array α :=
  if h : i < items.size ∧ j < items.size then items.swap i j h.1 h.2 else items

/-- Shuffles the places up to `last`. -/
def shuffleUpTo {α : Type} (stream : Stream) (limit : Nat) :
    (last position : Nat) → Array α → Option (Array α)
  | 0, _, items => some items
  | last + 1, position, items => do
      let (place, position) ← draw stream (last + 2) limit position
      shuffleUpTo stream limit last position (swapPlaces items (last + 1) place)

/-- The list in random order. -/
def shuffle {α : Type} (stream : Stream) (limit : Nat) (items : List α) : Option (List α) :=
  (shuffleUpTo stream limit (items.length - 1) 0 items.toArray).map Array.toList

end MomentumChain.Election
