import MomentumChain.Momentum
import MomentumChain.Plasma.Price
import MomentumChain.Plasma.Usage
import MomentumChain.Plasma.Variables

/-!
# The plasma market of a round

A round has a price for each resource.  The prices were recorded by the
momentum before it, and are minimal if that momentum recorded none.

A block pays with fused plasma and with plasma bought by work.  What it pays is
worth `fused * workPrice + work * fusionPrice`.  Blocks are compared by this
payment per unit of base plasma, as exact fractions (`Market.compare`).  A user
block pays enough if it pays no less than a block that buys the base plasma of
a plain block by fusion alone (`Market.paysEnough`).

`payment_mul_lt` says that the products that are compared fit in 256 bits.
-/

namespace MomentumChain.Plasma

/-- How the price paid by one block compares with that of another. -/
inductive PriceOrder where
  | higher
  | same
  | worse
deriving DecidableEq, Repr

namespace PriceOrder

def name : PriceOrder → String
  | .higher => "Higher"
  | .same => "Same"
  | .worse => "Worse"

end PriceOrder

/-- The prices of a round and the variables in force. -/
structure Market where
  fusionPrice : UInt64
  workPrice : UInt64
  vars : Variables
deriving DecidableEq, Repr

namespace Market

/-! ## The market of a round -/

/-- The market with the given prices, which are raised to the minimum. -/
def withPrices (fusionPrice workPrice : UInt64) (vars : Variables) : Market :=
  ⟨max fusionPrice minPrice, max workPrice minPrice, vars⟩

/-- The market of the round after a momentum. -/
def after (previous : Momentum) (vars : Variables) : Market :=
  if Momentum.dynamicVersion ≤ previous.version then
    withPrices previous.nextFusionPrice previous.nextWorkPrice vars
  else withPrices minPrice minPrice vars

/-- Base plasma that user blocks may consume. -/
def budget (market : Market) : UInt64 := market.vars.budget

/-- Number of contract blocks a momentum may commit. -/
def contractCap (market : Market) : Nat := (market.budget / callBase).toNat

/-- Fusion price of the next round after a usage. -/
def nextFusionPrice (market : Market) (used : UInt64) : Checked UInt64 :=
  nextPrice market.fusionPrice used market.vars.fusionTarget market.vars.changePercent
    market.vars.denominator

/-- Work price of the next round after a usage. -/
def nextWorkPrice (market : Market) (used : UInt64) : Checked UInt64 :=
  nextPrice market.workPrice used market.vars.workTarget market.vars.changePercent
    market.vars.denominator

/-! ## Usage of blocks -/

/-- The share of fusion in the base plasma of a block that pays with both
resources.  Each payment is weighted by both prices, and the rest is work. -/
def sharedUsage (market : Market) (block : Block) : Checked Usage := do
  let prices ← Word.mul 512 market.fusionPrice.toNat market.workPrice.toNat
  let fused ← Word.mul 512 block.fusedPlasma.toNat prices
  let work ← Word.mul 512 (ofDifficulty block.difficulty).toNat prices
  let total ← Word.add 512 fused work
  if total = 0 then
    return ⟨block.basePlasma, 0⟩
  let share ← Word.div (← Word.mul 512 fused block.basePlasma.toNat) total
  let fusion := UInt64.ofNat share
  pure ⟨fusion, ← Word.sub64 block.basePlasma fusion⟩

/-- The base plasma of a block by resource.  Contract blocks use none. -/
def usage (market : Market) (block : Block) : Checked Usage :=
  if block.isContract then .ok Usage.none
  else if block.difficulty = 0 then .ok ⟨block.basePlasma, 0⟩
  else if block.fusedPlasma = 0 then .ok ⟨0, block.basePlasma⟩
  else market.sharedUsage block

/-- The base plasma of several blocks by resource. -/
def totalUsage (market : Market) (blocks : List Block) : Checked Usage :=
  blocks.foldlM (fun total block => return total.add (← market.usage block)) Usage.none

/-! ## Prices paid by blocks -/

/-- What a block pays. -/
def payment (market : Market) (block : Block) : Nat :=
  block.fusedPlasma.toNat * market.workPrice.toNat +
    (ofDifficulty block.difficulty).toNat * market.fusionPrice.toNat

/-- Compares the payments of two blocks per unit of base plasma. -/
def compare (market : Market) (a b : Block) : PriceOrder :=
  let left := market.payment a * b.basePlasma.toNat
  let right := market.payment b * a.basePlasma.toNat
  if right < left then .higher else if left = right then .same else .worse

/-- A block that pays for the base plasma of a plain block by fusion alone. -/
def referenceBlock (market : Market) : Checked Block := do
  let scaled ← Word.mul64 blockBase market.fusionPrice
  pure { fusedPlasma := scaled / parPrice, basePlasma := blockBase }

/-- The block pays at least the price of the round.  Contract blocks need not
pay. -/
def paysEnough (market : Market) (block : Block) : Checked Bool :=
  if block.isContract then .ok true
  else do
    let reference ← market.referenceBlock
    pure (market.compare block reference != .worse)

/-! ## Bounds -/

/-- The products that `compare` looks at fit in 256 bits. -/
theorem payment_mul_lt (market : Market) (a b : Block) :
    market.payment a * b.basePlasma.toNat < Word.radix 256 := by
  have hfused : a.fusedPlasma.toNat * market.workPrice.toNat ≤ 2 ^ 64 * 2 ^ 64 :=
    Nat.mul_le_mul (Nat.le_of_lt a.fusedPlasma.toNat_lt) (Nat.le_of_lt market.workPrice.toNat_lt)
  have hwork : (ofDifficulty a.difficulty).toNat * market.fusionPrice.toNat ≤ 2 ^ 64 * 2 ^ 64 :=
    Nat.mul_le_mul (Nat.le_of_lt (ofDifficulty a.difficulty).toNat_lt)
      (Nat.le_of_lt market.fusionPrice.toNat_lt)
  have hpayment : market.payment a ≤ 2 ^ 129 := by
    unfold payment
    omega
  calc market.payment a * b.basePlasma.toNat
      ≤ 2 ^ 129 * 2 ^ 64 := Nat.mul_le_mul hpayment (Nat.le_of_lt b.basePlasma.toNat_lt)
    _ < Word.radix 256 := by decide

end Market

end MomentumChain.Plasma
