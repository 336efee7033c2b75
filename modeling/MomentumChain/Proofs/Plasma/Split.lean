import MomentumChain.Proofs.Plasma.Usage

/-!
# The split of a block

The base plasma of a user block is split between the two resources by what it pays, and not by
the prices (`usage_split`).

* A block without work is all fusion, and one with work and without fused plasma is all work.
* A block that pays with both has the fraction of its base plasma that fused plasma is of all its
  plasma, rounded down, and the rest is work.

Both payments are weighted by the product of the prices before they are divided.  The product is
positive in the market of every round, so it cancels under the floor.  The computation needs less
than 512 bits, the quotient fits in the 64 bits of a plasma because it is a fraction of one, and
the rest is not negative for the same reason.
-/

namespace MomentumChain.Plasma

/-- How the base plasma of a user block is split. -/
structure SplitOf (block : Block) (usage : Usage) : Prop where
  whole : usage.fusion.toNat + usage.work.toNat = block.basePlasma.toNat
  workless : block.difficulty = 0 → usage.fusion = block.basePlasma
  unfused : block.difficulty ≠ 0 → block.fusedPlasma = 0 → usage.fusion = 0
  /-- The share of fusion, rounded down.  The divisor is not zero. -/
  shared : block.difficulty ≠ 0 → block.fusedPlasma ≠ 0 →
    usage.fusion.toNat = block.basePlasma.toNat * block.fusedPlasma.toNat /
      (block.fusedPlasma.toNat + (ofDifficulty block.difficulty).toNat)

namespace SplitOf

variable {block : Block} {usage usage' : Usage}

/-- The shares of a user block are a split. -/
theorem of_shares (huser : block.isContract = false)
    (hfusion : usage.fusion.toNat = fusionShare block)
    (hwork : usage.work.toNat = workShare block) : SplitOf block usage where
  whole := by
    rw [hfusion, hwork, fusionShare_add_workShare, huser, if_neg Bool.false_ne_true]
  workless hnone := by
    rw [← UInt64.toNat_inj, hfusion, fusionShare, huser, if_neg Bool.false_ne_true, if_pos hnone]
  unfused hsome hnone := by
    rw [← UInt64.toNat_inj, hfusion, fusionShare, huser, if_neg Bool.false_ne_true, if_neg hsome,
      hnone, UInt64.toNat_zero, Nat.mul_zero, Nat.zero_div]
  shared hsome _ := by
    rw [hfusion, fusionShare, huser, if_neg Bool.false_ne_true, if_neg hsome]

/-- There is one split of a block. -/
theorem unique (h : SplitOf block usage) (h' : SplitOf block usage') : usage = usage' := by
  have hfusion : usage.fusion.toNat = usage'.fusion.toNat := by
    by_cases hdifficulty : block.difficulty = 0
    · rw [h.workless hdifficulty, h'.workless hdifficulty]
    · by_cases hfused : block.fusedPlasma = 0
      · rw [h.unfused hdifficulty hfused, h'.unfused hdifficulty hfused]
      · rw [h.shared hdifficulty hfused, h'.shared hdifficulty hfused]
  have hwork : usage.work.toNat = usage'.work.toNat := by
    have hwhole := h.whole
    have hwhole' := h'.whole
    omega
  cases usage
  cases usage'
  rw [Usage.mk.injEq]
  exact ⟨UInt64.toNat_inj.mp hfusion, UInt64.toNat_inj.mp hwork⟩

end SplitOf

/-- At positive prices the usage of a user block is its split, and no step of the computation
fails. -/
theorem Market.exists_usage_splitOf {market : Market} {block : Block} (hprices : market.HasPrices)
    (huser : block.isContract = false) :
    ∃ usage, market.usage block = .ok usage ∧ SplitOf block usage := by
  obtain ⟨usage, husage, hfusion, hwork⟩ := Market.usage_eq_shares hprices block
  exact ⟨usage, husage, .of_shares huser hfusion hwork⟩

/-- A user block has one split, which is its usage in the market of every round, at whatever
prices. -/
theorem usage_split (block : Block) (huser : block.isContract = false) :
    ∃ usage, SplitOf block usage ∧
      (∀ fusionPrice workPrice vars,
        (Market.withPrices fusionPrice workPrice vars).usage block = .ok usage) ∧
      ∀ previous vars, (Market.after previous vars).usage block = .ok usage := by
  -- any market gives the split, and the split does not mention the market
  obtain ⟨usage, _, hsplit⟩ := Market.exists_usage_splitOf
    (Market.hasPrices_withPrices minPrice minPrice .initial) huser
  have husage {market : Market} (hprices : market.HasPrices) :
      market.usage block = .ok usage := by
    obtain ⟨usage', husage', hsplit'⟩ := Market.exists_usage_splitOf hprices huser
    rw [husage', hsplit'.unique hsplit]
  exact ⟨usage, hsplit,
    fun _ _ _ => husage (Market.hasPrices_withPrices ..),
    fun _ _ => husage (Market.hasPrices_after ..)⟩

/-- Declares and pays as much as a block can. -/
def boundless : Block :=
  { fusedPlasma := Word.max64, difficulty := Word.max64, basePlasma := Word.max64 }

/-- The largest words are split alike at the largest prices and at the smallest. -/
theorem usage_split_boundless :
    boundless.isContract = false ∧
      (Market.withPrices Word.max64 Word.max64 .initial).usage boundless =
        .ok ⟨18436749491783270394, 9994581926281221⟩ ∧
      (Market.withPrices 0 0 .initial).usage boundless =
        .ok ⟨18436749491783270394, 9994581926281221⟩ := by
  have huser : boundless.isContract = false := by decide
  have hshares : SplitOf boundless ⟨18436749491783270394, 9994581926281221⟩ :=
    ⟨by decide, by decide, by decide, fun _ _ => by decide⟩
  obtain ⟨usage, hsplit, hpriced, _⟩ := usage_split boundless huser
  rw [hsplit.unique hshares] at hpriced
  exact ⟨huser, hpriced .., hpriced ..⟩

end MomentumChain.Plasma
