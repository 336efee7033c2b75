import MomentumChain.Address
import MomentumChain.Amount

/-!
# Delegations

A pillar stands for election with the weight that is delegated to it.
Candidates are ranked by weight, highest first, and at equal weight by name.
-/

namespace MomentumChain.Election

/-- A candidate of an election. -/
structure Delegation where
  name : String
  /-- The address that produces momentums for the pillar. -/
  producer : Address
  /-- The weight delegated to the pillar. -/
  weight : Amount
deriving DecidableEq

namespace Delegation

/-- The first candidate is ranked no lower than the second. -/
def ranksBefore (a b : Delegation) : Bool :=
  b.weight.toNat < a.weight.toNat || (a.weight = b.weight && !(decide (b.name < a.name)))

/-- The candidates by rank.  Candidates of equal rank keep their order. -/
def byRank (candidates : List Delegation) : List Delegation := candidates.mergeSort ranksBefore

end Delegation

end MomentumChain.Election
