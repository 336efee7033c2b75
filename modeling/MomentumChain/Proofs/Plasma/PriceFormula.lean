import Mathlib
import MomentumChain.Proofs.Plasma.Price

/-!
# The formula of the next price

The rule for the price is a rule about integers.  The price moves by

    price * (used - target) / target / denominator

where the distance of the usage from the target may be negative and both divisions round to
the floor (`signedMove`).  Then the minimum and the bounds of the round are applied
(`formulaPrice`).

The computation has no negative numbers.  It takes one of two branches by the sign of the
distance, divides once by the damping, rounds the quotient up where the price falls, and stops
at zero where a difference would be negative.  `nextPrice_formula` says that the two agree for
every price, usage and target and for every percentage and damping.  Three facts carry this.

* Two floors in a row are one floor of the division by the product (`signedMove_eq`).
* The floor of a negative quotient is the quotient rounded up (`neg_ediv_eq_neg_round_up`).
* A percentage above one hundred makes the lower bound negative, where the computation stops at
  zero.  Neither bounds a price that is not below the minimum (`max_lower_cast`).
-/

namespace MomentumChain.Plasma

/-! ## The formula -/

/-- The distance by which a price moves.  It is negative if less was used than the target.  A
target or a denominator of zero divides like one. -/
def signedMove (price used target denominator : ℤ) : ℤ :=
  ((price * (used - target)).fdiv (max target 1)).fdiv (max denominator 1)

/-- The price of the next round as an integer.  The minimum is applied before the bounds. -/
def formulaPrice (price used target percent denominator : ℤ) : ℤ :=
  let moved := max (price + signedMove price used target denominator) minPrice.toNat
  let lower := (price * (100 - percent)).fdiv 100
  let upper := (price * (100 + percent)).fdiv 100
  min (max lower (min moved upper)) Word.max64.toNat

/-! ## The move as an integer -/

theorem signedMove_eq (price used : ℤ) (target : UInt64) (denominator : UInt8) :
    signedMove price used target.toNat denominator.toNat =
      price * (used - target.toNat) / damping target denominator := by
  have htarget : (0 : ℤ) ≤ max (target.toNat : ℤ) 1 := by omega
  have hdenominator : (0 : ℤ) ≤ max (denominator.toNat : ℤ) 1 := by omega
  rw [signedMove, Int.fdiv_eq_ediv_of_nonneg _ htarget,
    Int.fdiv_eq_ediv_of_nonneg _ hdenominator, Int.ediv_ediv_of_nonneg htarget, damping]
  push_cast
  rfl

theorem neg_ediv_eq_neg_round_up (n : ℕ) {divisor : ℕ} (h : 0 < divisor) :
    -(n : ℤ) / divisor = -((n + (divisor - 1)) / divisor : ℕ) := by
  have hle := Nat.div_mul_le_self (n + (divisor - 1)) divisor
  have hlt := Nat.lt_div_mul_add h (a := n + (divisor - 1))
  generalize (n + (divisor - 1)) / divisor = quotient at hle hlt ⊢
  rw [Int.ediv_eq_iff_of_pos (by omega), neg_mul]
  norm_cast
  omega

/-- The price after the move is the price and the signed distance.  The difference does not stop
at zero, since the target is not above the divisor. -/
theorem exactMove_cast (price used : ℕ) {target divisor : ℕ} (hpos : 0 < divisor)
    (hle : target ≤ divisor) :
    (exactMove price used target divisor : ℤ) =
      price + price * ((used : ℤ) - target) / divisor := by
  unfold exactMove
  split
  · rename_i hlt
    push_cast [Nat.cast_sub (Nat.le_of_lt hlt)]
    rfl
  · rename_i hnot
    have hgap : (used : ℤ) - target = -((target - used : ℕ) : ℤ) := by omega
    have hfall : (price * (target - used) + (divisor - 1)) / divisor ≤ price := by
      rw [Nat.div_le_iff_le_mul_add_pred hpos, Nat.mul_comm divisor]
      have hmul : price * (target - used) ≤ price * divisor := Nat.mul_le_mul_left _ (by omega)
      omega
    rw [hgap, mul_neg, ← Nat.cast_mul, neg_ediv_eq_neg_round_up _ hpos, Nat.cast_sub hfall]
    rfl

/-! ## The bounds as integers -/

theorem max_lower_cast (price percent : ℕ) {value : ℤ} (h : 0 ≤ value) :
    max (((price : ℤ) * (100 - percent)).fdiv 100) value =
      max ((price * (100 - percent) / 100 : ℕ) : ℤ) value := by
  rw [Int.fdiv_eq_ediv_of_nonneg _ (by omega)]
  rcases Nat.le_total percent 100 with hle | hge
  · push_cast [Nat.cast_sub hle]
    rfl
  · have hlower : (price : ℤ) * (100 - percent) ≤ 0 :=
      mul_nonpos_of_nonneg_of_nonpos (by omega) (by omega)
    rw [Nat.sub_eq_zero_of_le hge, Nat.mul_zero, Nat.zero_div]
    omega

/-- The exact price of the next round is the one of the formula. -/
theorem exactNextPrice_cast (price used : ℕ) (target : UInt64) (percent : ℕ)
    (denominator : UInt8) :
    (exactNextPrice price used target.toNat percent (damping target denominator) : ℤ) =
      formulaPrice price used target.toNat percent denominator.toNat := by
  have hmove := exactMove_cast price used (damping_pos target denominator)
    (target_le_damping target denominator)
  rw [← signedMove_eq] at hmove
  have hupper : ((price : ℤ) * (100 + percent)).fdiv 100 =
      (price * (100 + percent) / 100 : ℕ) := by
    rw [Int.fdiv_eq_ediv_of_nonneg _ (by omega)]
    push_cast
    rfl
  simp only [formulaPrice, exactNextPrice, ← hmove, hupper]
  rw [max_lower_cast _ _ (by omega)]
  push_cast
  rfl

/-- No step of the computation fails, and its result is the price of the formula. -/
theorem nextPrice_formula (current used target : UInt64) (changePercent denominator : UInt8) :
    ∃ next, nextPrice current used target changePercent denominator = .ok next ∧
      (next.toNat : ℤ) = formulaPrice (max current.toNat minPrice.toNat : ℕ) used.toNat
        target.toNat changePercent.toNat denominator.toNat := by
  obtain ⟨next, hnext, hexact⟩ :=
    nextPrice_toNat current used target changePercent denominator
  exact ⟨next, hnext, by rw [hexact, exactNextPrice_cast]⟩

-- a distance of -100.05 is rounded to the floor
example : signedMove 2001 0 1050000 20 = -101 ∧ formulaPrice 2001 0 1050000 10 20 = 1900 := by
  decide

-- the lower bound is negative, and the minimum decides
example : formulaPrice 5000 0 1050000 200 1 = 1000 := by decide

end MomentumChain.Plasma
