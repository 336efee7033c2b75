import Mathlib
import MomentumChain.Proofs.Plasma.PriceFormula

/-!
# The next price is monotone

A higher price, more usage and a lower target all make the next price higher or leave it as it
is (`nextPrice_mono`).  Any of the three may stay the same, so the next price is monotone in
each of them by itself.

Before the bounds the price is multiplied by a factor and rounded to the floor
(`exactMove_eq_floor`).  The factor is the same formula above and below the target, so no case
is split at the target (`growth`).  It grows with the usage and falls with the target.  It is
not negative, for the price cannot fall by more than itself (`growth_nonneg`).  That is what
makes the move monotone in the price below the target.  The bounds of the round move up with
the price, so they keep the order.
-/

namespace MomentumChain.Plasma

/-! ## The factor of a move -/

/-- The factor by which a round multiplies a price, before any bound and rounding. -/
def growth (used target : UInt64) (denominator : UInt8) : ℚ :=
  1 + ((used.toNat : ℚ) - target.toNat) / damping target denominator

theorem growth_nonneg (used target : UInt64) (denominator : UInt8) :
    0 ≤ growth used target denominator := by
  have hpos : (0 : ℚ) < damping target denominator := by
    exact_mod_cast damping_pos target denominator
  have hle : (target.toNat : ℚ) ≤ damping target denominator := by
    exact_mod_cast target_le_damping target denominator
  have hused : (0 : ℚ) ≤ used.toNat := Nat.cast_nonneg _
  rw [growth, ← sub_neg_eq_add, sub_nonneg, ← neg_div, div_le_one hpos]
  linarith

/-- A target divides itself once, or not at all if it is zero. -/
theorem target_div_max (target : ℕ) : (target : ℚ) / (max target 1 : ℕ) = (min target 1 : ℕ) := by
  rcases Nat.eq_zero_or_pos target with rfl | hpos
  · simp
  · have hne : (target : ℚ) ≠ 0 := by exact_mod_cast hpos.ne'
    rw [Nat.max_eq_left hpos, Nat.min_eq_right hpos, Nat.cast_one, div_self hne]

/-- More usage and a lower target make the factor larger. -/
theorem growth_le_growth {used used' target target' : UInt64} (denominator : UInt8)
    (hused : used ≤ used') (htarget : target' ≤ target) :
    growth used target denominator ≤ growth used' target' denominator := by
  rw [UInt64.le_iff_toNat_le] at hused htarget
  have hshare : (used.toNat : ℚ) / (max target.toNat 1 : ℕ) ≤
      used'.toNat / (max target'.toNat 1 : ℕ) := by
    refine div_le_div₀ (Nat.cast_nonneg _) (by exact_mod_cast hused) ?_ ?_
    · exact_mod_cast (by omega : 0 < max target'.toNat 1)
    · exact_mod_cast (by omega : max target'.toNat 1 ≤ max target.toNat 1)
  have hwhole : (target'.toNat : ℚ) / (max target'.toNat 1 : ℕ) ≤
      target.toNat / (max target.toNat 1 : ℕ) := by
    rw [target_div_max, target_div_max]
    exact_mod_cast (by omega : min target'.toNat 1 ≤ min target.toNat 1)
  have hgap : ((used.toNat : ℚ) - target.toNat) / (max target.toNat 1 : ℕ) ≤
      (used'.toNat - target'.toNat) / (max target'.toNat 1 : ℕ) := by
    rw [sub_div, sub_div]
    exact sub_le_sub hshare hwhole
  unfold growth damping
  rw [Nat.cast_mul, Nat.cast_mul, ← div_div, ← div_div]
  gcongr

/-- The price after the move is the price times the factor, rounded to the floor. -/
theorem exactMove_eq_floor (price : ℕ) (used target : UInt64) (denominator : UInt8) :
    (exactMove price used.toNat target.toNat (damping target denominator) : ℤ) =
      ⌊(price : ℚ) * growth used target denominator⌋ := by
  have hscaled : (price : ℚ) * growth used target denominator = (price : ℤ) +
      ((price * ((used.toNat : ℤ) - target.toNat) : ℤ) : ℚ) / damping target denominator := by
    unfold growth
    push_cast
    ring
  rw [exactMove_cast _ _ (damping_pos ..) (target_le_damping ..), hscaled,
    Int.floor_intCast_add, Rat.floor_intCast_div_natCast]

/-! ## Two rounds compared -/

section

variable {price price' : ℕ} {used used' target target' : UInt64}

theorem exactMove_le_exactMove (denominator : UInt8) (hprice : price ≤ price')
    (hused : used ≤ used') (htarget : target' ≤ target) :
    exactMove price used.toNat target.toNat (damping target denominator) ≤
      exactMove price' used'.toNat target'.toNat (damping target' denominator) := by
  have hfactor := growth_le_growth denominator hused htarget
  have hnonneg := growth_nonneg used target denominator
  rw [← Int.ofNat_le, exactMove_eq_floor, exactMove_eq_floor]
  gcongr

/-- A higher move between higher bounds makes a higher price. -/
theorem exactNextPrice_le_exactNextPrice (percent : ℕ) (denominator : UInt8)
    (hprice : price ≤ price') (hused : used ≤ used') (htarget : target' ≤ target) :
    exactNextPrice price used.toNat target.toNat percent (damping target denominator) ≤
      exactNextPrice price' used'.toNat target'.toNat percent (damping target' denominator) := by
  have hmove := exactMove_le_exactMove denominator hprice hused htarget
  dsimp only [exactNextPrice]
  gcongr

/-- The next price follows the price and the usage, and it goes against the target. -/
theorem nextPrice_mono {current current' : UInt64} (changePercent denominator : UInt8)
    (hcurrent : current ≤ current') (hused : used ≤ used') (htarget : target' ≤ target) :
    ∃ next next', nextPrice current used target changePercent denominator = .ok next ∧
      nextPrice current' used' target' changePercent denominator = .ok next' ∧
      next ≤ next' := by
  obtain ⟨next, hnext, hexact⟩ :=
    nextPrice_toNat current used target changePercent denominator
  obtain ⟨next', hnext', hexact'⟩ :=
    nextPrice_toNat current' used' target' changePercent denominator
  refine ⟨next, next', hnext, hnext', ?_⟩
  rw [UInt64.le_iff_toNat_le] at hcurrent
  rw [UInt64.le_iff_toNat_le, hexact, hexact']
  exact exactNextPrice_le_exactNextPrice _ denominator (by omega) hused htarget

end

/-- From below the minimum and below the target to the largest word and a target of zero. -/
theorem nextPrice_mono_extremes :
    (999 : UInt64) ≤ Word.max64 ∧ (5 : UInt64) ≤ 10 ∧ (0 : UInt64) ≤ 10 ∧
      ∃ next next', nextPrice 999 5 10 10 20 = .ok next ∧
        nextPrice Word.max64 10 0 10 20 = .ok next' ∧ next ≤ next' := by
  have hcurrent : (999 : UInt64) ≤ Word.max64 := by decide
  have hused : (5 : UInt64) ≤ 10 := by decide
  have htarget : (0 : UInt64) ≤ 10 := by decide
  exact ⟨hcurrent, hused, htarget, nextPrice_mono 10 20 hcurrent hused htarget⟩

end MomentumChain.Plasma
