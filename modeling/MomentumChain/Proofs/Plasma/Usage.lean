import Mathlib
import MomentumChain.Plasma.Market
import MomentumChain.Proofs.Plasma.Price

/-!
# The usage of blocks is exact

Every block has a usage, and the two resources share its base plasma without a
rest (`exists_usage`).  The share of fusion is a fraction of the base plasma with
payments as numerator and denominator, so it neither exceeds the base plasma nor
needs more than the 512 bits that it is computed in.  Each payment is weighted by
both prices.  The weights cancel under the floor, so the shares of a block are the
same in every market with positive prices (`fusionShare`, `workShare`).

So a list of blocks has a usage too, whatever the prices of the round are
(`exists_totalUsage`), and the prices of the next round follow from it
(`exists_nextPrices`).  It is the sum of the shares, up to the largest word
(`totalUsage_eq`).
-/

namespace MomentumChain.Plasma

/-! ## Shares of the base plasma -/

/-- The part of the base plasma of a block that is paid by fusion. -/
def fusionShare (block : Block) : Nat :=
  if block.isContract then 0
  else if block.difficulty = 0 then block.basePlasma.toNat
  else block.basePlasma.toNat * block.fusedPlasma.toNat /
    (block.fusedPlasma.toNat + (ofDifficulty block.difficulty).toNat)

/-- The rest of its base plasma, which is paid by work. -/
def workShare (block : Block) : Nat :=
  (if block.isContract then 0 else block.basePlasma.toNat) - fusionShare block

/-- The base plasma of several blocks that is paid by fusion. -/
def fusionUse (blocks : List Block) : Nat := (blocks.map fusionShare).sum

/-- The base plasma of several blocks that is paid by work. -/
def workUse (blocks : List Block) : Nat := (blocks.map workShare).sum

@[simp] theorem fusionUse_nil : fusionUse [] = 0 := rfl

@[simp] theorem workUse_nil : workUse [] = 0 := rfl

@[simp] theorem fusionUse_cons (block : Block) (blocks : List Block) :
    fusionUse (block :: blocks) = fusionShare block + fusionUse blocks := rfl

@[simp] theorem workUse_cons (block : Block) (blocks : List Block) :
    workUse (block :: blocks) = workShare block + workUse blocks := rfl

theorem fusionShare_add_workShare (block : Block) :
    fusionShare block + workShare block =
      if block.isContract then 0 else block.basePlasma.toNat := by
  refine Nat.add_sub_of_le ?_
  unfold fusionShare
  split
  · exact Nat.le_refl _
  · split
    · exact Nat.le_refl _
    · refine Nat.div_le_of_le_mul ?_
      rw [Nat.mul_comm]
      exact Nat.mul_le_mul_right _ (Nat.le_add_right _ _)

namespace Market

/-- Both prices are positive, as in the market of every round. -/
structure HasPrices (market : Market) : Prop where
  fusion : 0 < market.fusionPrice.toNat
  work : 0 < market.workPrice.toNat

theorem hasPrices_withPrices (fusionPrice workPrice : UInt64) (vars : Variables) :
    (withPrices fusionPrice workPrice vars).HasPrices := by
  have hmin : 0 < minPrice.toNat := by decide
  constructor
  · show 0 < (max fusionPrice minPrice).toNat
    rw [toNat_max]
    omega
  · show 0 < (max workPrice minPrice).toNat
    rw [toNat_max]
    omega

theorem hasPrices_after (previous : Momentum) (vars : Variables) :
    (after previous vars).HasPrices := by
  unfold after
  split
  · exact hasPrices_withPrices ..
  · exact hasPrices_withPrices ..

/-! ## The usage of a block -/

/-- A payment weighted by both prices. -/
theorem mul_prices_le (payment fusionPrice workPrice : UInt64) :
    payment.toNat * (fusionPrice.toNat * workPrice.toNat) ≤
      UInt64.size * (UInt64.size * UInt64.size) :=
  Nat.mul_le_mul (Nat.le_of_lt payment.toNat_lt)
    (Nat.mul_le_mul (Nat.le_of_lt fusionPrice.toNat_lt) (Nat.le_of_lt workPrice.toNat_lt))

/-- A fraction of a word is a word that is not above it. -/
theorem toNat_ofNat_fraction {part total : Nat} (hpart : part ≤ total) (word : UInt64) :
    (UInt64.ofNat (part * word.toNat / total)).toNat = part * word.toNat / total ∧
      UInt64.ofNat (part * word.toNat / total) ≤ word := by
  have hle : part * word.toNat / total ≤ word.toNat :=
    Nat.div_le_of_le_mul (Nat.mul_le_mul_right _ hpart)
  have hlt := word.toNat_lt
  have heq : (UInt64.ofNat (part * word.toNat / total)).toNat = part * word.toNat / total := by
    rw [UInt64.toNat_ofNat', Nat.mod_eq_of_lt (by omega)]
  refine ⟨heq, ?_⟩
  rw [UInt64.le_iff_toNat_le, heq]
  exact hle

/-- Weights that are positive cancel under the floor. -/
theorem weighted_fraction (fused work base : Nat) {weight : Nat} (hweight : 0 < weight) :
    fused * weight * base / (fused * weight + work * weight) = base * fused / (fused + work) := by
  rw [← Nat.add_mul, Nat.mul_right_comm, Nat.mul_div_mul_right _ _ hweight, Nat.mul_comm fused]

/-- A share of the base plasma is exact, and the rest is work. -/
theorem exists_sharedUsage (market : Market) (block : Block) :
    ∃ usage, market.sharedUsage block = .ok usage ∧
      usage.fusion.toNat + usage.work.toNat = block.basePlasma.toNat ∧
      (market.HasPrices → 0 < block.fusedPlasma.toNat →
        usage.fusion.toNat = block.basePlasma.toNat * block.fusedPlasma.toNat /
          (block.fusedPlasma.toNat + (ofDifficulty block.difficulty).toNat)) := by
  have hprices : market.fusionPrice.toNat * market.workPrice.toNat < Word.radix 512 :=
    Nat.lt_of_le_of_lt (Nat.mul_le_mul (Nat.le_of_lt market.fusionPrice.toNat_lt)
      (Nat.le_of_lt market.workPrice.toNat_lt)) (by decide)
  have hfused := mul_prices_le block.fusedPlasma market.fusionPrice market.workPrice
  have hwork := mul_prices_le (ofDifficulty block.difficulty) market.fusionPrice market.workPrice
  have hcube : 2 * (UInt64.size * (UInt64.size * UInt64.size)) < Word.radix 512 := by decide
  have hscaled := Nat.lt_of_le_of_lt
    (Nat.mul_le_mul hfused (Nat.le_of_lt block.basePlasma.toNat_lt)) (by decide : _ < Word.radix 512)
  have hpositive : market.HasPrices → 0 < market.fusionPrice.toNat * market.workPrice.toNat :=
    fun h => Nat.mul_pos h.fusion h.work
  unfold sharedUsage
  simp only [bind, Except.bind, Word.mul_of_lt hprices]
  rw [Word.mul_of_lt (by omega), Word.mul_of_lt (by omega)]
  generalize market.fusionPrice.toNat * market.workPrice.toNat = weight at *
  generalize block.fusedPlasma.toNat = fused at *
  generalize (ofDifficulty block.difficulty).toNat = work at *
  simp only [Word.add_of_lt (show fused * weight + work * weight < Word.radix 512 by omega)]
  by_cases htotal : fused * weight + work * weight = 0
  · rw [if_pos htotal]
    refine ⟨_, rfl, Nat.add_zero _, fun h hpays => ?_⟩
    have := Nat.mul_pos hpays (hpositive h)
    omega
  · obtain ⟨hshare, hle⟩ := toNat_ofNat_fraction
      (Nat.le_add_right (fused * weight) (work * weight)) block.basePlasma
    rw [if_neg htotal, Word.mul_of_lt hscaled]
    simp only [Word.div_of_pos (Nat.pos_of_ne_zero htotal), Word.sub64_of_le hle]
    refine ⟨_, rfl, ?_, fun h _ => ?_⟩
    · rw [UInt64.toNat_sub_of_le _ _ hle]
      exact Nat.add_sub_of_le (UInt64.le_iff_toNat_le.mp hle)
    · rw [hshare, weighted_fraction _ _ _ (hpositive h)]

/-- Every block has a usage, and it is the base plasma of a user block. -/
theorem exists_usage (market : Market) (block : Block) :
    ∃ usage, market.usage block = .ok usage ∧
      usage.fusion.toNat + usage.work.toNat =
        (if block.isContract then 0 else block.basePlasma.toNat) ∧
      (market.HasPrices → usage.fusion.toNat = fusionShare block) := by
  unfold usage fusionShare
  cases hcontract : block.isContract with
  | true => exact ⟨Usage.none, rfl, rfl, fun _ => rfl⟩
  | false =>
      rw [if_neg Bool.false_ne_true, if_neg Bool.false_ne_true]
      by_cases hdifficulty : block.difficulty = 0
      · rw [if_pos hdifficulty, if_pos hdifficulty]
        exact ⟨_, rfl, rfl, fun _ => rfl⟩
      · rw [if_neg hdifficulty, if_neg hdifficulty]
        by_cases hfused : block.fusedPlasma = 0
        · rw [if_pos hfused, hfused, UInt64.toNat_zero, Nat.mul_zero, Nat.zero_div]
          exact ⟨_, rfl, Nat.zero_add _, fun _ => rfl⟩
        · rw [if_neg hfused]
          obtain ⟨usage, husage, hsum, hshare⟩ := exists_sharedUsage market block
          refine ⟨usage, husage, hsum, fun h => hshare h (Nat.pos_of_ne_zero fun hzero => ?_)⟩
          exact hfused (UInt64.toNat_inj.mp hzero)

/-- At positive prices the usage of a block is its two shares. -/
theorem usage_eq_shares {market : Market} (h : market.HasPrices) (block : Block) :
    ∃ usage, market.usage block = .ok usage ∧ usage.fusion.toNat = fusionShare block ∧
      usage.work.toNat = workShare block := by
  obtain ⟨usage, husage, hsum, hfusion⟩ := exists_usage market block
  rw [← fusionShare_add_workShare, hfusion h] at hsum
  exact ⟨usage, husage, hfusion h, Nat.add_left_cancel hsum⟩

/-! ## The usage of several blocks -/

/-- Every list of blocks has a usage. -/
theorem exists_totalUsage (market : Market) (blocks : List Block) :
    ∃ usage, market.totalUsage blocks = .ok usage := by
  unfold totalUsage
  generalize Usage.none = total
  induction blocks generalizing total with
  | nil => exact ⟨total, rfl⟩
  | cons block rest ih =>
      obtain ⟨usage, husage, _⟩ := exists_usage market block
      rw [List.foldlM_cons, husage]
      exact ih (total.add usage)

/-- At positive prices the shares of the blocks are added to the usage so far. -/
theorem foldlM_usage {market : Market} (h : market.HasPrices) (blocks : List Block)
    (total : Usage) :
    ∃ usage, blocks.foldlM (fun total block => return total.add (← market.usage block)) total =
        .ok usage ∧
      usage.fusion.toNat = min (total.fusion.toNat + fusionUse blocks) (UInt64.size - 1) ∧
      usage.work.toNat = min (total.work.toNat + workUse blocks) (UInt64.size - 1) := by
  induction blocks generalizing total with
  | nil =>
      have hfusion := total.fusion.toNat_lt
      have hwork := total.work.toNat_lt
      have hsize : UInt64.size = 2 ^ 64 := rfl
      refine ⟨total, rfl, ?_, ?_⟩
      · rw [fusionUse_nil]
        omega
      · rw [workUse_nil]
        omega
  | cons block rest ih =>
      obtain ⟨usage, husage, hfusion, hwork⟩ := usage_eq_shares h block
      obtain ⟨sum, hsum, hfusions, hworks⟩ := ih (total.add usage)
      refine ⟨sum, ?_, ?_, ?_⟩
      · rw [List.foldlM_cons, husage]
        exact hsum
      · rw [hfusions, Usage.add, Word.toNat_satAdd, hfusion, fusionUse_cons]
        omega
      · rw [hworks, Usage.add, Word.toNat_satAdd, hwork, workUse_cons]
        omega

/-- At positive prices the usage of several blocks is the sum of their shares, up to the
largest word. -/
theorem totalUsage_eq {market : Market} (h : market.HasPrices) (blocks : List Block) :
    ∃ usage, market.totalUsage blocks = .ok usage ∧
      usage.fusion.toNat = min (fusionUse blocks) (UInt64.size - 1) ∧
      usage.work.toNat = min (workUse blocks) (UInt64.size - 1) := by
  have hnone : Usage.none.fusion.toNat = 0 ∧ Usage.none.work.toNat = 0 := ⟨rfl, rfl⟩
  have hfold := foldlM_usage h blocks Usage.none
  rw [hnone.1, hnone.2, Nat.zero_add, Nat.zero_add] at hfold
  exact hfold

/-- Every list of blocks leads to prices of the next round. -/
theorem exists_nextPrices (market : Market) (blocks : List Block) :
    ∃ usage fusionPrice workPrice, market.totalUsage blocks = .ok usage ∧
      market.nextFusionPrice usage.fusion = .ok fusionPrice ∧
      market.nextWorkPrice usage.work = .ok workPrice := by
  obtain ⟨usage, husage⟩ := market.exists_totalUsage blocks
  obtain ⟨fusionPrice, hfusion⟩ := exists_nextPrice market.fusionPrice usage.fusion
    market.vars.fusionTarget market.vars.changePercent market.vars.denominator
  obtain ⟨workPrice, hwork⟩ := exists_nextPrice market.workPrice usage.work
    market.vars.workTarget market.vars.changePercent market.vars.denominator
  exact ⟨usage, fusionPrice, workPrice, husage, hfusion, hwork⟩

end Market

end MomentumChain.Plasma
