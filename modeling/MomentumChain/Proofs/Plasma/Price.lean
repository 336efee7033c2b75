import Mathlib
import MomentumChain.Plasma.Price

/-!
# The next price is exact

The price of a round is computed in checked 128-bit words.  No step of it fails,
and its result is the exact one (`nextPrice_eq`), for every price, usage and target
and for every percentage and damping, also where governance would refuse them.

The reason is the size of the operands.  A price and a distance are 64-bit words,
so their product and all that is made of it fit in 128 bits.  The bounds of a
round do not cross, since they lie on both sides of the price.
-/

namespace MomentumChain.Plasma

/-- The price after the move, rounded to the floor. -/
def exactMove (price used target divisor : Nat) : Nat :=
  if target < used then price + price * (used - target) / divisor
  else price - (price * (target - used) + (divisor - 1)) / divisor

/-- The price of the next round as a natural number. -/
def exactNextPrice (price used target percent divisor : Nat) : Nat :=
  let moved := max (exactMove price used target divisor) minPrice.toNat
  let lower := price * (100 - percent) / 100
  let upper := price * (100 + percent) / 100
  min (max lower (min moved upper)) Word.max64.toNat

/-! ## Steps of the move -/

section

variable {price gap divisor : Nat}

theorem mul_lt_wide {a b : Nat} (ha : a < UInt64.size) (hb : b < UInt64.size) :
    a * b + UInt64.size < Word.radix 128 := by
  have hmul : a * b ≤ 18446744073709551615 * 18446744073709551615 :=
    Nat.mul_le_mul (Nat.le_of_lt_succ ha) (Nat.le_of_lt_succ hb)
  have hsize : UInt64.size = 18446744073709551616 := rfl
  have hradix : Word.radix 128 = 340282366920938463463374607431768211456 := by decide
  omega

theorem moveDown_eq (hprice : price < UInt64.size) (hgap : gap < UInt64.size)
    (hdivisor : 0 < divisor) : moveDown price gap divisor = .ok (price * gap / divisor) := by
  have hwide := mul_lt_wide hprice hgap
  rw [moveDown, Word.mul_of_lt (by omega)]
  exact Word.div_of_pos hdivisor

/-- A quotient rounded up is the next one, unless the division is exact. -/
theorem div_round_up (n : Nat) (hdivisor : 0 < divisor) :
    (n + (divisor - 1)) / divisor = if n % divisor = 0 then n / divisor else n / divisor + 1 := by
  have hrest := Nat.mod_lt n hdivisor
  have hn : n + (divisor - 1) = divisor * (n / divisor) + (n % divisor + (divisor - 1)) := by
    have := Nat.div_add_mod n divisor
    omega
  rw [hn, Nat.mul_add_div hdivisor]
  split
  · rename_i hzero
    have hnone : (n % divisor + (divisor - 1)) / divisor = 0 := Nat.div_eq_of_lt (by omega)
    rw [hnone, Nat.add_zero]
  · have hone : (n % divisor + (divisor - 1)) / divisor = 1 :=
      Nat.div_eq_of_lt_le (by omega) (by omega)
    rw [hone]

theorem moveUp_eq (hprice : price < UInt64.size) (hgap : gap < UInt64.size)
    (hdivisor : 0 < divisor) :
    moveUp price gap divisor = .ok ((price * gap + (divisor - 1)) / divisor) := by
  have hwide := mul_lt_wide hprice hgap
  have hle : price * gap / divisor ≤ price * gap := Nat.div_le_self ..
  have hsize : UInt64.size = 18446744073709551616 := rfl
  rw [moveUp, Word.mul_of_lt (by omega)]
  show (do
    let quotient ← Word.div (price * gap) divisor
    let remainder ← Word.rem (price * gap) divisor
    if remainder = 0 then pure quotient else Word.add 128 quotient 1) = _
  rw [Word.div_of_pos hdivisor, Word.rem_of_pos hdivisor, div_round_up _ hdivisor]
  show (if price * gap % divisor = 0 then pure (price * gap / divisor)
    else Word.add 128 (price * gap / divisor) 1) = _
  split
  · rfl
  · exact Word.add_of_lt (by omega)

end

/-- The move before any bound neither fails nor stops at the end of the word. -/
theorem movedPrice_eq {price used target divisor : Nat} (hprice : price < UInt64.size)
    (hused : used < UInt64.size) (htarget : target < UInt64.size) (hdivisor : 0 < divisor) :
    movedPrice price used target divisor = .ok (exactMove price used target divisor) := by
  unfold movedPrice exactMove
  by_cases hlt : target < used
  · have hwide := mul_lt_wide hprice (b := used - target) (by omega)
    have hrise : price * (used - target) / divisor ≤ price * (used - target) := Nat.div_le_self ..
    have hmax : wideMax + 1 = Word.radix 128 := by decide
    rw [if_pos hlt, if_pos hlt, Word.sub_of_le (by omega)]
    show (do
      let rise ← moveDown price (used - target) divisor
      pure (min (price + rise) wideMax)) = _
    rw [moveDown_eq hprice (by omega) hdivisor]
    show Except.ok _ = _
    rw [Nat.min_eq_left (by omega)]
  · rw [if_neg hlt, if_neg hlt, Word.sub_of_le (by omega)]
    show (do
      let fall ← moveUp price (target - used) divisor
      pure (price - fall)) = _
    rw [moveUp_eq hprice (by omega) hdivisor]
    rfl

/-! ## The price of the next round -/

theorem toNat_max (a b : UInt64) : (max a b).toNat = max a.toNat b.toNat := by
  show (if a ≤ b then b else a).toNat = _
  simp only [apply_ite UInt64.toNat, UInt64.le_iff_toNat_le, max_def]

theorem toNat_max8 (a b : UInt8) : (max a b).toNat = max a.toNat b.toNat := by
  show (if a ≤ b then b else a).toNat = _
  simp only [apply_ite UInt8.toNat, UInt8.le_iff_toNat_le, max_def]

/-- What the price is divided by to find the distance of the move. -/
def damping (target : UInt64) (denominator : UInt8) : Nat :=
  max target.toNat 1 * max denominator.toNat 1

theorem damping_pos (target : UInt64) (denominator : UInt8) : 0 < damping target denominator :=
  Nat.mul_pos (by omega) (by omega)

/-- A price that is moved down by the distance to the target does not pass zero. -/
theorem target_le_damping (target : UInt64) (denominator : UInt8) :
    target.toNat ≤ damping target denominator :=
  calc target.toNat ≤ max target.toNat 1 := Nat.le_max_left ..
    _ ≤ damping target denominator := Nat.le_mul_of_pos_right _ (by omega)

theorem mul_damping (target : UInt64) (denominator : UInt8) :
    Word.mul 128 (max target 1).toNat (max denominator 1).toNat =
      .ok (damping target denominator) := by
  have htarget := target.toNat_lt
  have hdenominator := denominator.toNat_lt
  have hsize : UInt64.size = 2 ^ 64 := rfl
  rw [toNat_max, toNat_max8]
  refine Word.mul_of_lt (Nat.lt_of_le_of_lt (Nat.le_add_right _ UInt64.size) (mul_lt_wide ?_ ?_))
  · show max target.toNat 1 < UInt64.size
    omega
  · show max denominator.toNat 1 < UInt64.size
    omega

/-- The bounds of a round lie on both sides of the price. -/
theorem lower_le_upper (price percent : Nat) :
    price * (100 - percent) / 100 ≤ price ∧ price ≤ price * (100 + percent) / 100 := by
  constructor
  · refine Nat.div_le_of_le_mul ?_
    rw [Nat.mul_comm 100]
    exact Nat.mul_le_mul_left price (by omega)
  · rw [Nat.le_div_iff_mul_le (by omega)]
    exact Nat.mul_le_mul_left price (by omega)

/-- At the target the exact price stays. -/
theorem exactNextPrice_self {price target percent divisor : Nat} (hmin : minPrice.toNat ≤ price)
    (hmax : price ≤ Word.max64.toNat) (hdivisor : 0 < divisor) :
    exactNextPrice price target target percent divisor = price := by
  obtain ⟨hlower, hupper⟩ := lower_le_upper price percent
  have hmove : exactMove price target target divisor = price := by
    rw [exactMove, if_neg (Nat.lt_irrefl _), Nat.sub_self, Nat.mul_zero, Nat.zero_add,
      Nat.div_eq_of_lt (by omega), Nat.sub_zero]
  simp only [exactNextPrice, hmove]
  omega

/-- The price of the next round is the exact one. -/
theorem nextPrice_eq (current used target : UInt64) (changePercent denominator : UInt8) :
    nextPrice current used target changePercent denominator =
      .ok (.ofNat (exactNextPrice (max current.toNat minPrice.toNat) used.toNat target.toNat
        changePercent.toNat (damping target denominator))) := by
  rw [← toNat_max]
  unfold nextPrice
  have hmin : minPrice.toNat ≤ (max current minPrice).toNat := by
    rw [toNat_max]
    omega
  generalize max current minPrice = price at hmin ⊢
  have hprice := price.toNat_lt
  have hpercent := changePercent.toNat_lt
  have hdivisor := damping_pos target denominator
  by_cases heq : used = target
  · have hmax : Word.max64.toNat = 2 ^ 64 - 1 := rfl
    rw [if_pos heq, heq, exactNextPrice_self hmin (by omega) hdivisor, UInt64.ofNat_toNat]
    rfl
  · have hmoved := movedPrice_eq hprice used.toNat_lt target.toNat_lt hdivisor
    have hfits (percent : Nat) (h : percent < 512) :
        Word.mul 128 price.toNat percent = .ok (price.toNat * percent) := by
      have hwide := mul_lt_wide (b := percent) hprice (by show percent < 2 ^ 64; omega)
      exact Word.mul_of_lt (by omega)
    have hwide : UInt64.size < Word.radix 128 := by decide
    have hsize : UInt64.size = 2 ^ 64 := rfl
    have hsum : Word.add 128 100 changePercent.toNat = .ok (100 + changePercent.toNat) :=
      Word.add_of_lt (by omega)
    have hdiv (n : Nat) : Word.div n 100 = .ok (n / 100) := Word.div_of_pos (by omega)
    obtain ⟨hlower, hupper⟩ := lower_le_upper price.toNat changePercent.toNat
    have hclamp (n : Nat) : Word.clamp _ _ n = _ := Word.clamp_of_le (Nat.le_trans hlower hupper)
    rw [if_neg heq]
    simp only [mul_damping, hmoved, hfits (100 - changePercent.toNat) (by omega), hsum,
      hfits (100 + changePercent.toNat) (by omega), hdiv, hclamp, bind, Except.bind]
    rfl

/-- The exact price fits in a word, so the word that holds it is not cut. -/
theorem nextPrice_toNat (current used target : UInt64) (changePercent denominator : UInt8) :
    ∃ next, nextPrice current used target changePercent denominator = .ok next ∧
      next.toNat = exactNextPrice (max current.toNat minPrice.toNat) used.toNat target.toNat
        changePercent.toNat (damping target denominator) := by
  refine ⟨_, nextPrice_eq .., ?_⟩
  rw [UInt64.toNat_ofNat', Nat.mod_eq_of_lt]
  exact Nat.lt_of_le_of_lt (Nat.min_le_right ..) (by decide)

/-- There is a next price whatever the price, the usage and the variables are. -/
theorem exists_nextPrice (current used target : UInt64) (changePercent denominator : UInt8) :
    ∃ price, nextPrice current used target changePercent denominator = .ok price :=
  ⟨_, nextPrice_eq ..⟩

end MomentumChain.Plasma
