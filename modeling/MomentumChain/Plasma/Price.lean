import MomentumChain.Plasma.Units

/-!
# The price of a resource

Each resource has a price for a round.  The next price follows the usage of
the round: it rises if more was used than the target and falls if less was
used.  The relative move is the relative distance to the target divided by a
damping denominator.  A rise is rounded down and a fall is rounded up, so the
price of an unused resource always falls.  The price never falls below
`minPrice`, and a round moves it by a bounded percentage only.

The computation is carried out in 128-bit words, and every step is checked.
-/

namespace MomentumChain.Plasma

/-- How far the price moves for a distance of `gap` between usage and target,
rounded down. -/
def moveDown (price gap divisor : Nat) : Checked Nat := do
  Word.div (← Word.mul 128 price gap) divisor

/-- How far the price moves for a distance of `gap` between usage and target,
rounded up. -/
def moveUp (price gap divisor : Nat) : Checked Nat := do
  let scaled ← Word.mul 128 price gap
  let quotient ← Word.div scaled divisor
  let remainder ← Word.rem scaled divisor
  if remainder = 0 then pure quotient else Word.add 128 quotient 1

/-- The largest 128-bit word, where a rise of the price stops. -/
def wideMax : Nat := Word.radix 128 - 1

/-- The price after the move and before any bound. -/
def movedPrice (price used target divisor : Nat) : Checked Nat := do
  if target < used then
    let rise ← moveDown price (← Word.sub used target) divisor
    pure (min (price + rise) wideMax)
  else
    let fall ← moveUp price (← Word.sub target used) divisor
    pure (price - fall)

/-- The price of the next round.  `used` is the plasma bought with the resource
in this round. -/
def nextPrice (current used target : UInt64) (changePercent denominator : UInt8) :
    Checked UInt64 := do
  let price := max current minPrice
  if used = target then
    return price
  let divisor ← Word.mul 128 (max target 1).toNat (max denominator 1).toNat
  let moved ← movedPrice price.toNat used.toNat target.toNat divisor
  let lower ← Word.div (← Word.mul 128 price.toNat (100 - changePercent.toNat)) 100
  let upper ← Word.div (← Word.mul 128 price.toNat (← Word.add 128 100 changePercent.toNat)) 100
  let next ← Word.clamp lower upper (max moved minPrice.toNat)
  pure (UInt64.ofNat (min next Word.max64.toNat))

end MomentumChain.Plasma
