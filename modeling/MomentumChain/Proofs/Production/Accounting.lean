import MomentumChain.Proofs.Plasma.PriceMove
import MomentumChain.Proofs.Production.Faults

/-!
# Admitted plasma and priced plasma

The plasma of a momentum is accounted for twice.  The selection adds up the base plasma
of the user blocks that it admits, as the blocks declare it.  The market adds up what each
block pays by fusion and by work.  The two sums are the same number (`content_usage_exact`),
since the shares of a block leave no rest, and below the largest word neither sum stops
before its end.
-/

namespace MomentumChain

open Selection

/-- The shares of several blocks make up the base plasma of the user blocks among them. -/
theorem Plasma.fusionUse_add_workUse (blocks : List Block) :
    fusionUse blocks + workUse blocks = demand blocks := by
  induction blocks with
  | nil => rfl
  | cons block rest ih =>
      have hshares := fusionShare_add_workShare block
      have hdemand : demand (block :: rest) =
          (if block.isContract then 0 else block.basePlasma.toNat) + demand rest := by
        cases hcontract : block.isContract <;> simp [demand, users, hcontract]
      rw [fusionUse_cons, workUse_cons, hdemand, ← ih, ← hshares]
      omega

namespace Production

open Plasma

/-- A usage whose parts are exact and add up to less than the largest word is exact. -/
theorem totalUsage_of_demand_lt {market : Market} (h : market.HasPrices) {blocks : List Block}
    (hdemand : demand blocks < Word.max64.toNat) :
    ∃ usage, market.totalUsage blocks = .ok usage ∧ usage.fusion.toNat = fusionUse blocks ∧
      usage.work.toNat = workUse blocks ∧ usage.total.toNat = demand blocks := by
  obtain ⟨usage, husage, hfusion, hwork⟩ := Market.totalUsage_eq h blocks
  have hsum := fusionUse_add_workUse blocks
  have hmax : Word.max64.toNat = UInt64.size - 1 := rfl
  refine ⟨usage, husage, by omega, by omega, ?_⟩
  rw [Usage.total, Word.toNat_satAdd]
  omega

/-- There is a content unless the round is overpriced.  If the budget is below the largest
word then the market finds in a content the plasma that the selection has admitted: each
resource has the exact sum of its shares, both together have the base plasma of all user
blocks, and this is within the budget. -/
theorem content_usage_exact (previous : Momentum) (vars : Variables) (priority : Address.Set)
    (pool : List Block) (hbudget : vars.budget < Word.max64) :
    ((∃ blocks, Rules.content ⟨.after previous vars, priority⟩ pool = .ok blocks) ↔
        ¬ Overpriced previous vars priority pool) ∧
      ∀ blocks, Rules.content ⟨.after previous vars, priority⟩ pool = .ok blocks →
        ∃ usage, (Market.after previous vars).totalUsage blocks = .ok usage ∧
          usage.fusion.toNat = fusionUse blocks ∧ usage.work.toNat = workUse blocks ∧
          usage.fusion.toNat + usage.work.toNat = demand blocks ∧
          usage.total = userPlasma blocks ∧ usage.total.toNat = demand blocks ∧
          demand blocks ≤ vars.budget.toNat := by
  have hmax : Word.max64.toNat = UInt64.size - 1 := rfl
  have hlimit : vars.budget.toNat < Word.max64.toNat := UInt64.lt_iff_toNat_lt.mp hbudget
  constructor
  · rw [Rules.content_isOk_iff, overpriced_iff, not_not]
  · intro blocks h
    obtain ⟨_, hkept⟩ := accept_within h
    rw [Market.budget, Market.vars_after] at hkept
    have hdemand : demand blocks ≤ vars.budget.toNat := demand_le_of_userPlasma_le hkept hbudget
    obtain ⟨usage, husage, hfusion, hwork, htotal⟩ :=
      totalUsage_of_demand_lt (Market.hasPrices_after previous vars)
        (Nat.lt_of_le_of_lt hdemand hlimit)
    have hsum : usage.fusion.toNat + usage.work.toNat = demand blocks := by
      rw [hfusion, hwork, fusionUse_add_workUse]
    have hsame : usage.total = userPlasma blocks := by
      rw [← UInt64.toNat_inj, htotal, toNat_userPlasma]
      omega
    exact ⟨usage, husage, hfusion, hwork, hsum, hsame, htotal, hdemand⟩

/-- A momentum at whose prices fusion costs five times what work costs. -/
def uneven : Momentum :=
  { version := Momentum.dynamicVersion, height := 1, nextFusionPrice := 5000
    nextWorkPrice := 1000 }

/-- Variables with a budget of a few blocks. -/
def narrow : Variables := { Variables.initial with budget := 100000 }

/-- A block pays with both resources, one with work alone, and one that pays as well asks
for more than is left of the budget. -/
def mixed : List Block :=
  [{ userBlock 1 1 63000 42000 with difficulty := 45000000 }, userBlock 3 1 210000 42000,
    contractBlock .pillarContract .contractReceive 1,
    { userBlock 2 1 0 21000 with difficulty := 33000000 }]

/-- The shares of the first block do not come out even. -/
theorem content_usage_exact_mixed :
    ∃ blocks usage,
      Rules.content ⟨.after uneven narrow, .empty⟩ mixed = .ok blocks ∧
        (Market.after uneven narrow).totalUsage blocks = .ok usage ∧
        usage.fusion.toNat = 28451 ∧ usage.work.toNat = 34549 ∧ userPlasma blocks = 63000 := by
  have h : Rules.content ⟨.after uneven narrow, .empty⟩ mixed =
      .ok [contractBlock .pillarContract .contractReceive 1,
        { userBlock 2 1 0 21000 with difficulty := 33000000 },
        { userBlock 1 1 63000 42000 with difficulty := 45000000 }] := by cbv
  obtain ⟨usage, husage, hfusion, hwork, _⟩ :=
    (content_usage_exact uneven narrow .empty mixed (by decide)).2 _ h
  exact ⟨_, usage, h, husage, hfusion, hwork, by decide⟩

end Production

end MomentumChain
