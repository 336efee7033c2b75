import MomentumChain.Election.ChaCha
import MomentumChain.Election.Delegation
import MomentumChain.Election.Shuffle
import MomentumChain.Word

/-!
# Election of producers

The candidates of a tick are ranked and then shuffled by the stream of a seed.
The shuffled list fills the slots of the tick and is repeated if there are more
slots than candidates.

The seats of a tick are laid out at once, with room for one more round of the
candidates.  A number of seats that no table can hold is an arithmetic fault.
-/

namespace MomentumChain.Election

/-- Why there are no producers. -/
inductive Error where
  | noCandidates
  /-- A draw rejected all numbers that it may try. -/
  | drawLimit
deriving DecidableEq, Repr

/-- The text of an error. -/
def Error.message : Error → String
  | .noCandidates => "Cannot elect producers from an empty candidate set"
  | .drawLimit => "Random draw did not end"

/-! ## Seats -/

/-- Bytes of a seat in the table of a tick. -/
def seatSize : Nat := 80

/-- The largest number of seats: a table has less than `2 ^ 63` bytes. -/
def maxSeats : Nat := Word.radix 63 / seatSize

/-- Fills slots with a list, repeated as often as needed. -/
def fillSlots {α : Type} (slots : Nat) (items : List α) : List α :=
  (List.replicate ((slots + items.length - 1) / items.length) items).flatten.take slots

/-! ## Elections -/

/-- The producers of a tick if no draw tries more than `limit` numbers. -/
def electWithin (limit : Nat) (candidates : List Delegation) (slots : Nat) (seed : UInt64) :
    Except (Failure Error) (List Delegation) :=
  if candidates.isEmpty then .error (.error .noCandidates)
  else if maxSeats < slots + candidates.length then .error (.fault .overflow)
  else
    match shuffle (streamWord (keyOfSeed seed)) limit (Delegation.byRank candidates) with
    | some shuffled => .ok (fillSlots slots shuffled)
    | none => .error (.error .drawLimit)

/-- Numbers that a draw may try.  A draw rejects at most half of all numbers, so a
run of this many rejections is out of all likelihood. -/
def drawLimit : Nat := 65536

/-- The producers of a tick. -/
def elect (candidates : List Delegation) (slots : Nat) (seed : UInt64) :
    Except (Failure Error) (List Delegation) :=
  electWithin drawLimit candidates slots seed

end MomentumChain.Election
