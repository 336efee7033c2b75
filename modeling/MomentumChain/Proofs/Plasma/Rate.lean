import Mathlib
import MomentumChain.Proofs.Plasma.Payment

/-!
# The rate that a block pays

Two blocks are compared by cross multiplication, so that nothing is rounded.  On blocks that
declare base plasma this is the comparison of their rates, the payment per unit of base
plasma as a rational number (`Market.rate`).  So the comparison is an order of preference
there, with no cycles.

Without base plasma there is no rate.  Such a block can tie with blocks that do not tie with
one another, and the rate of zero that it gets here means nothing.
-/

namespace MomentumChain.Plasma.Market

/-- What a block pays per unit of base plasma. -/
def rate (market : Market) (block : Block) : ℚ :=
  market.payment block / block.basePlasma.toNat

variable {market : Market} {a b : Block}

theorem basePlasma_pos_rat (h : 0 < a.basePlasma) : (0 : ℚ) < a.basePlasma.toNat := by
  rw [UInt64.lt_iff_toNat_lt] at h
  exact_mod_cast h

theorem rate_lt_rate_iff (ha : 0 < a.basePlasma) (hb : 0 < b.basePlasma) :
    market.rate b < market.rate a ↔
      market.payment b * a.basePlasma.toNat < market.payment a * b.basePlasma.toNat := by
  rw [rate, rate, div_lt_div_iff₀ (basePlasma_pos_rat hb) (basePlasma_pos_rat ha)]
  norm_cast

/-- The higher price is the higher rate. -/
theorem compare_eq_higher_iff_rate (ha : 0 < a.basePlasma) (hb : 0 < b.basePlasma) :
    market.compare a b = .higher ↔ market.rate b < market.rate a := by
  rw [compare_eq_higher_iff, rate_lt_rate_iff ha hb]

/-- The worse price is the lower rate. -/
theorem compare_eq_worse_iff_rate (ha : 0 < a.basePlasma) (hb : 0 < b.basePlasma) :
    market.compare a b = .worse ↔ market.rate a < market.rate b := by
  rw [compare_eq_worse_iff, rate_lt_rate_iff hb ha]

/-- The same price is the same rate. -/
theorem compare_eq_same_iff_rate (ha : 0 < a.basePlasma) (hb : 0 < b.basePlasma) :
    market.compare a b = .same ↔ market.rate a = market.rate b := by
  have hhigher : market.compare a b = .higher ↔ market.rate b < market.rate a :=
    compare_eq_higher_iff_rate ha hb
  have hworse : market.compare a b = .worse ↔ market.rate a < market.rate b :=
    compare_eq_worse_iff_rate ha hb
  cases hcompare : market.compare a b with
  | higher => simp [(hhigher.mp hcompare).ne']
  | worse => simp [(hworse.mp hcompare).ne]
  | same =>
      rw [hcompare] at hhigher hworse
      have hle : market.rate a ≤ market.rate b := by simpa using hhigher
      have hge : market.rate b ≤ market.rate a := by simpa using hworse
      simp [le_antisymm hle hge]

end MomentumChain.Plasma.Market
