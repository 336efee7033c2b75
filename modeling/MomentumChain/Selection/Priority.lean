import MomentumChain.Plasma.Market
import MomentumChain.Sort.Stable

/-!
# Priority of blocks

The candidates of a momentum are put in order before any of them is admitted.

* Blocks of contracts go first, in the order of the pool.
* Blocks of priority addresses follow, in the order of the pool.
* Of two other blocks of one account, the lower goes first.
* Of two other blocks of different accounts, the one that pays more per unit of
  base plasma goes first, and at equal price the one with the larger hash.

This relation is not transitive.  The sort by it (`Sort.stableSort`) can leave
a block in front of a lower block of its account.  So the blocks of each account
are then put in order of height within the positions of that account
(`restoreHeights`).
-/

namespace MomentumChain.Selection

/-- What decides on the content of a round. -/
structure Rules where
  market : Plasma.Market
  /-- Accounts whose blocks go before those of other users. -/
  priority : Address.Set

/-- The first block goes before the second. -/
def Rules.goesBefore (rules : Rules) (a b : Block) : Bool :=
  if b.isContract then false
  else if a.isContract then true
  else if rules.priority.contains b.address then false
  else if rules.priority.contains a.address then true
  else if a.address = b.address then a.height < b.height
  else
    match rules.market.compare a b with
    | .higher => true
    | .same => b.hash < a.hash
    | .worse => false

/-! ## Heights within an account -/

/-- Fills places, each of which belongs to an account, with the blocks of that
account in the order in which they are given. -/
def fill : (places : List Address) → (blocks : List Block) → List Block
  | [], _ => []
  | place :: places, blocks =>
      match blocks.find? (·.address = place) with
      | some block => block :: fill places (blocks.eraseP (·.address = place))
      | none => fill places blocks

/-- The blocks in order of height.  Blocks of equal height keep their order. -/
def byHeight (blocks : List Block) : List Block := blocks.mergeSort (·.height ≤ ·.height)

/-- Puts the blocks of each account in order of height within the places that
the account has. -/
def restoreHeights (blocks : List Block) : List Block :=
  fill (blocks.map (·.address)) (byHeight blocks)

/-- The candidates in order of priority. -/
def Rules.order (rules : Rules) (candidates : List Block) : List Block :=
  restoreHeights (Sort.stableSort rules.goesBefore candidates)

end MomentumChain.Selection
