import Mathlib
import MomentumChain.Plasma.Market
import MomentumChain.Proofs.Plasma.Price

/-!
# How far a price moves in a round

`PriceMove` says what a round may do to a price.  The price stays at or above the
minimum, it moves by a bounded percentage only, and it moves in the direction in which
the usage misses the target.  The next price keeps all of it, for every price, usage and
target and for every percentage and damping (`nextPrice_move`).

The bounds of the percentage are applied after the minimum.  That does not undo the
minimum, since the upper bound lies above the price, and the price is not below it.

A usage that is summed up may have stopped at the largest word.  A target is a word, so a
usage that stopped compares with it as the whole usage does (`PriceMove.of_stopped`).
-/

namespace MomentumChain.Plasma

/-- The moves of a price in a round.  `percent` bounds the change, and above one hundred
there is no lower bound but the minimum. -/
structure PriceMove (price percent used target next : Nat) : Prop where
  least : minPrice.toNat ≤ next
  lower : price * (100 - percent) / 100 ≤ next
  upper : next ≤ min Word.max64.toNat (price * (100 + percent) / 100)
  rise : price < next → target < used
  fall : next < price → used < target
  hold : used = target → next = price

/-- A usage that stopped at the largest word moves the price as the whole usage does. -/
theorem PriceMove.of_stopped {price percent used next : Nat} {target : UInt64}
    (h : PriceMove price percent (min used (UInt64.size - 1)) target.toNat next) :
    PriceMove price percent used target.toNat next where
  least := h.least
  lower := h.lower
  upper := h.upper
  rise hrise := Nat.lt_of_lt_of_le (h.rise hrise) (Nat.min_le_left _ _)
  fall hfall := by
    have hlt := h.fall hfall
    have htarget : target.toNat < UInt64.size := target.toNat_lt
    omega
  hold hused := by
    refine h.hold ?_
    have htarget : target.toNat < UInt64.size := target.toNat_lt
    omega

section

variable {price used target divisor : Nat}

theorem exactMove_le (price divisor : Nat) (h : used ≤ target) :
    exactMove price used target divisor ≤ price := by
  rw [exactMove, if_neg (Nat.not_lt.mpr h)]
  exact Nat.sub_le ..

/-- At the target the rounding up does not move the price. -/
theorem le_exactMove (price : Nat) (h : target ≤ used) (hdivisor : 0 < divisor) :
    price ≤ exactMove price used target divisor := by
  rw [exactMove]
  split
  · exact Nat.le_add_right ..
  · have hgap : target - used = 0 := by omega
    rw [hgap, Nat.mul_zero, Nat.zero_add, Nat.div_eq_of_lt (by omega)]
    exact Nat.le_refl _

/-- The exact next price is a move. -/
theorem exactNextPrice_move (used target percent : Nat) (hmin : minPrice.toNat ≤ price)
    (hmax : price ≤ Word.max64.toNat) (hdivisor : 0 < divisor) :
    PriceMove price percent used target
      (exactNextPrice price used target percent divisor) := by
  obtain ⟨hlower, hupper⟩ := lower_le_upper price percent
  constructor
  case least =>
    simp only [exactNextPrice]
    omega
  case lower =>
    simp only [exactNextPrice]
    omega
  case upper =>
    simp only [exactNextPrice]
    omega
  case rise =>
    intro hrise
    by_contra hle
    have hmove := exactMove_le price divisor (Nat.le_of_not_lt hle)
    simp only [exactNextPrice] at hrise
    omega
  case fall =>
    intro hfall
    by_contra hle
    have hmove := le_exactMove price (Nat.le_of_not_lt hle) hdivisor
    simp only [exactNextPrice] at hfall
    omega
  case hold =>
    intro hused
    rw [hused]
    exact exactNextPrice_self hmin hmax hdivisor

end

/-- The price of the next round is a move from the price of this one, which counts as the
minimum if it is lower. -/
theorem nextPrice_move {current used target next : UInt64} {changePercent denominator : UInt8}
    (h : nextPrice current used target changePercent denominator = .ok next) :
    PriceMove (max current.toNat minPrice.toNat) changePercent.toNat used.toNat target.toNat
      next.toNat := by
  have hcurrent := current.toNat_lt
  have hmax : Word.max64.toNat = 2 ^ 64 - 1 := rfl
  have hmin : minPrice.toNat ≤ Word.max64.toNat := by decide
  obtain ⟨next', hnext, hexact⟩ := nextPrice_toNat current used target changePercent denominator
  cases hnext.symm.trans h
  rw [hexact]
  exact exactNextPrice_move used.toNat target.toNat changePercent.toNat (Nat.le_max_right ..)
    (by omega) (damping_pos target denominator)

-- a usage of twice the target raises a price by a twentieth, if the damping is twenty
example : nextPrice 1000 2100000 1050000 10 20 = .ok 1050 := by rfl

/-! ## Prices of a round -/

/-- The price of a round for a resource whose price the momentum before may have recorded. -/
def priceAfter (previous : Momentum) (recorded : UInt64) : Nat :=
  if Momentum.dynamicVersion ≤ previous.version then max recorded.toNat minPrice.toNat
  else minPrice.toNat

theorem max_priceAfter (previous : Momentum) (recorded : UInt64) :
    max (priceAfter previous recorded) minPrice.toNat = priceAfter previous recorded := by
  unfold priceAfter
  split
  · omega
  · omega

namespace Market

variable {previous : Momentum} {vars : Variables} {used next : UInt64}

theorem fusionPrice_after (previous : Momentum) (vars : Variables) :
    (after previous vars).fusionPrice.toNat = priceAfter previous previous.nextFusionPrice := by
  unfold after priceAfter
  split
  · exact toNat_max ..
  · rfl

theorem workPrice_after (previous : Momentum) (vars : Variables) :
    (after previous vars).workPrice.toNat = priceAfter previous previous.nextWorkPrice := by
  unfold after priceAfter
  split
  · exact toNat_max ..
  · rfl

@[simp] theorem vars_after (previous : Momentum) (vars : Variables) :
    (after previous vars).vars = vars := by
  unfold after
  split
  · rfl
  · rfl

/-- The fusion price of the next round is a move towards the fusion target. -/
theorem nextFusionPrice_move (h : (after previous vars).nextFusionPrice used = .ok next) :
    PriceMove (priceAfter previous previous.nextFusionPrice) vars.changePercent.toNat used.toNat
      vars.fusionTarget.toNat next.toNat := by
  have hmove := nextPrice_move h
  rwa [fusionPrice_after, max_priceAfter, vars_after] at hmove

/-- The work price of the next round is a move towards the work target. -/
theorem nextWorkPrice_move (h : (after previous vars).nextWorkPrice used = .ok next) :
    PriceMove (priceAfter previous previous.nextWorkPrice) vars.changePercent.toNat used.toNat
      vars.workTarget.toNat next.toNat := by
  have hmove := nextPrice_move h
  rwa [workPrice_after, max_priceAfter, vars_after] at hmove

end Market

end MomentumChain.Plasma
