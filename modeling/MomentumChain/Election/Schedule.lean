import MomentumChain.Election.Delegation
import MomentumChain.Word

/-!
# The schedule of a tick

Each elected producer has one slot of `blockTime` seconds.  The slots follow one
another from the start of the tick.  Times saturate.
-/

namespace MomentumChain.Election

/-- The slot of a producer. -/
structure Slot where
  name : String
  producer : Address
  /-- First second of the slot. -/
  start : UInt64
  /-- First second after the slot. -/
  stop : UInt64
deriving DecidableEq

/-- First second of the slot at a place. -/
def slotStart (tickStart blockTime : UInt64) (place : Nat) : UInt64 :=
  Word.satAdd tickStart (Word.satMul (UInt64.ofNat place) blockTime)

/-- The slots of the elected producers. -/
def schedule (elected : List Delegation) (tickStart blockTime : UInt64) : List Slot :=
  elected.zipIdx.map fun (delegation, place) =>
    let start := slotStart tickStart blockTime place
    ⟨delegation.name, delegation.producer, start, Word.satAdd start blockTime⟩

end MomentumChain.Election
