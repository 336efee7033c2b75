import Mathlib
import MomentumChain.Proofs.Plasma.Payment

/-!
# The price rule is symmetric

A user block is measured against a block that pays by fusion alone, and whose fused plasma is
rounded.  Neither shows in the outcome.  The rule is

    fusionPrice * workPrice * basePlasma ≤ 1000 * (fused * workPrice + work * fusionPrice)

in exact integers (`Market.Covers`), as long as the price of the reference fits in a word.

* Nothing is rounded away, since the base plasma of the reference is a multiple of the price at
  par (`payment_scaledReference`).
* The payment of the reference is the product of the prices, up to a constant.  So the rule
  treats the resources alike (`covers_exchanged`).
* It follows that a block that pays more is not refused for it (`Covers.of_pays_more`), and that a
  block that pays enough would have paid enough at lower prices (`Covers.of_cheaper`).
-/

namespace MomentumChain.Plasma.Market

/-! ## The rule in exact integers -/

/-- The payment of the block covers the price of its base plasma. -/
def Covers (market : Market) (block : Block) : Prop :=
  market.fusionPrice.toNat * market.workPrice.toNat * block.basePlasma.toNat ≤
    parPrice.toNat * market.payment block

instance (market : Market) (block : Block) : Decidable (market.Covers block) :=
  inferInstanceAs (Decidable (_ ≤ _))

variable {market : Market} {block a b : Block}

/-- The price of the reference fits up to the largest word divided by its base plasma. -/
theorem priceFits_iff_le : market.PriceFits ↔ market.fusionPrice ≤ Word.max64 / blockBase := by
  have hbase : 0 < blockBase.toNat := by decide
  have hmax : UInt64.size = Word.max64.toNat + 1 := rfl
  rw [PriceFits, hmax, Nat.lt_succ_iff, UInt64.le_iff_toNat_le, UInt64.toNat_div,
    Nat.le_div_iff_mul_le hbase, Nat.mul_comm]

/-- The fused plasma of the reference is not rounded. -/
theorem fusedPlasma_scaledReference (h : market.PriceFits) :
    parPrice.toNat * market.scaledReference.fusedPlasma.toNat =
      blockBase.toNat * market.fusionPrice.toNat := by
  have hdvd : parPrice.toNat ∣ blockBase.toNat := by decide
  rw [scaledReference, UInt64.toNat_div, UInt64.toNat_mul, Nat.mod_eq_of_lt h]
  exact Nat.mul_div_cancel' (hdvd.mul_right _)

theorem payment_scaledReference (h : market.PriceFits) :
    parPrice.toNat * market.payment market.scaledReference =
      blockBase.toNat * (market.fusionPrice.toNat * market.workPrice.toNat) := by
  have hwork : (ofDifficulty market.scaledReference.difficulty).toNat = 0 := rfl
  rw [payment, hwork, Nat.zero_mul, Nat.add_zero, ← Nat.mul_assoc,
    fusedPlasma_scaledReference h, Nat.mul_assoc]

/-- To pay enough is to cover the price. -/
theorem paysEnough_iff_covers (h : market.PriceFits) (huser : block.isContract = false) :
    market.paysEnough block = .ok true ↔ market.Covers block := by
  have hpar : 0 < parPrice.toNat := by decide
  have hbase : 0 < blockBase.toNat := by decide
  have hreference : parPrice.toNat *
      (market.payment market.scaledReference * block.basePlasma.toNat) =
        blockBase.toNat *
          (market.fusionPrice.toNat * market.workPrice.toNat * block.basePlasma.toNat) := by
    rw [← Nat.mul_assoc, payment_scaledReference h, Nat.mul_assoc]
  have hpayment : parPrice.toNat * (market.payment block * blockBase.toNat) =
      blockBase.toNat * (parPrice.toNat * market.payment block) := by
    rw [← Nat.mul_assoc, Nat.mul_comm]
  rw [paysEnough_iff h huser, ← Nat.mul_le_mul_left_iff hpar, hreference, hpayment,
    Nat.mul_le_mul_left_iff hbase, Covers]

/-- The rule has an answer wherever the price of the reference fits. -/
theorem paysEnough_eq (h : market.PriceFits) (huser : block.isContract = false) :
    market.paysEnough block = .ok (decide (market.Covers block)) := by
  have hcovers := paysEnough_iff_covers h huser
  rw [paysEnough_of_priceFits h huser, Except.ok.injEq] at hcovers ⊢
  rw [Bool.eq_iff_iff, hcovers, decide_eq_true_iff]

/-! ## Symmetry -/

/-- The market with its prices exchanged. -/
def exchanged (market : Market) : Market :=
  { market with fusionPrice := market.workPrice, workPrice := market.fusionPrice }

@[simp] theorem exchanged_fusionPrice (market : Market) :
    market.exchanged.fusionPrice = market.workPrice := rfl

@[simp] theorem exchanged_workPrice (market : Market) :
    market.exchanged.workPrice = market.fusionPrice := rfl

/-- Blocks of the same base plasma, of which one pays by work what the other pays by fusion. -/
structure Exchanged (a b : Block) : Prop where
  base : a.basePlasma = b.basePlasma
  fused : a.fusedPlasma = ofDifficulty b.difficulty
  work : ofDifficulty a.difficulty = b.fusedPlasma

theorem payment_exchanged (h : Exchanged a b) :
    market.exchanged.payment b = market.payment a := by
  rw [payment, payment, exchanged_fusionPrice, exchanged_workPrice, h.fused, h.work, Nat.add_comm]

theorem covers_exchanged (h : Exchanged a b) : market.exchanged.Covers b ↔ market.Covers a := by
  rw [Covers, Covers, payment_exchanged h, ← h.base, exchanged_fusionPrice, exchanged_workPrice,
    Nat.mul_comm market.workPrice.toNat]

/-! ## Payments and prices -/

/-- For no more base plasma, `b` pays no less than `a` by either resource. -/
structure PaysMore (a b : Block) : Prop where
  base : b.basePlasma ≤ a.basePlasma
  fused : a.fusedPlasma ≤ b.fusedPlasma
  work : ofDifficulty a.difficulty ≤ ofDifficulty b.difficulty

theorem Covers.of_pays_more (h : market.Covers a) (hmore : PaysMore a b) : market.Covers b := by
  have hbase := UInt64.le_iff_toNat_le.mp hmore.base
  have hfused := UInt64.le_iff_toNat_le.mp hmore.fused
  have hwork := UInt64.le_iff_toNat_le.mp hmore.work
  calc market.fusionPrice.toNat * market.workPrice.toNat * b.basePlasma.toNat
      ≤ market.fusionPrice.toNat * market.workPrice.toNat * a.basePlasma.toNat := by gcongr
    _ ≤ parPrice.toNat * market.payment a := h
    _ ≤ parPrice.toNat * market.payment b := by
        unfold payment
        gcongr

/-- What two payments cover at higher prices they cover at lower ones.  Measured in the product of
the higher prices, each payment is worth no less at the lower prices. -/
theorem covered_of_le {fusion fusion' work work' base fused worked scale : ℕ}
    (hfusion : fusion ≤ fusion') (hwork : work ≤ work')
    (h : fusion' * work' * base ≤ scale * (fused * work' + worked * fusion')) :
    fusion * work * base ≤ scale * (fused * work + worked * fusion) := by
  cases Nat.eq_zero_or_pos (fusion' * work') with
  | inl hzero =>
      -- one of the higher prices is zero, and so is the lower one
      have hfree : fusion * work = 0 := Nat.le_zero.mp (hzero ▸ Nat.mul_le_mul hfusion hwork)
      rw [hfree, Nat.zero_mul]
      exact Nat.zero_le _
  | inr hpos =>
      refine Nat.le_of_mul_le_mul_right ?_ hpos
      calc fusion * work * base * (fusion' * work')
          = fusion' * work' * base * (fusion * work) := by ring
        _ ≤ scale * (fused * work' + worked * fusion') * (fusion * work) :=
            Nat.mul_le_mul_right _ h
        _ = scale * (fused * work * (fusion * work') + worked * fusion * (fusion' * work)) := by
            ring
        _ ≤ scale * (fused * work * (fusion' * work') + worked * fusion * (fusion' * work')) := by
            gcongr
        _ = scale * (fused * work + worked * fusion) * (fusion' * work') := by ring

theorem Covers.of_cheaper {cheaper : Market} (h : market.Covers block)
    (hfusion : cheaper.fusionPrice ≤ market.fusionPrice)
    (hwork : cheaper.workPrice ≤ market.workPrice) : cheaper.Covers block :=
  covered_of_le (UInt64.le_iff_toNat_le.mp hfusion) (UInt64.le_iff_toNat_le.mp hwork) h

/-! ## The rule -/

/-- What the price rule says of user blocks. -/
structure PriceRule (market : Market) : Prop where
  /-- The rule has an answer, and it is the one of the exact integers. -/
  exact : ∀ block, block.isContract = false →
    market.paysEnough block = .ok (decide (market.Covers block))
  /-- It does not matter which resource is which. -/
  exchange : ∀ a b, a.isContract = false → b.isContract = false → Exchanged a b →
    market.exchanged.fusionPrice ≤ Word.max64 / blockBase →
    market.exchanged.paysEnough b = market.paysEnough a
  payMore : ∀ a b, a.isContract = false → b.isContract = false → PaysMore a b →
    market.paysEnough a = .ok true → market.paysEnough b = .ok true
  /-- To raise a price makes no block pay enough. -/
  raise : ∀ cheaper : Market, cheaper.fusionPrice ≤ market.fusionPrice →
    cheaper.workPrice ≤ market.workPrice → ∀ block, block.isContract = false →
    market.paysEnough block = .ok true → cheaper.paysEnough block = .ok true

/-- The price rule holds in every market where the price of the reference fits in a word. -/
theorem price_rule (market : Market) (h : market.fusionPrice ≤ Word.max64 / blockBase) :
    market.PriceRule where
  exact _ := paysEnough_eq (priceFits_iff_le.mpr h)
  exchange a b ha hb hexchanged hother := by
    rw [paysEnough_eq (priceFits_iff_le.mpr hother) hb,
      paysEnough_eq (priceFits_iff_le.mpr h) ha]
    simp only [covers_exchanged hexchanged]
  payMore a b ha hb hmore hpays := by
    rw [paysEnough_iff_covers (priceFits_iff_le.mpr h) ha] at hpays
    exact (paysEnough_iff_covers (priceFits_iff_le.mpr h) hb).mpr (hpays.of_pays_more hmore)
  raise cheaper hfusion hwork block huser hpays := by
    have hfits : cheaper.PriceFits := priceFits_iff_le.mpr (UInt64.le_trans hfusion h)
    rw [paysEnough_iff_covers (priceFits_iff_le.mpr h) huser] at hpays
    exact (paysEnough_iff_covers hfits huser).mpr (hpays.of_cheaper hfusion hwork)

/-- The highest fusion price that can be measured, with the lowest work price. -/
def steep : Market := withPrices 878416384462359 1000 .initial

/-- Pays the price of a thousand units by fusion, to the unit. -/
def exactByFusion : Block := { fusedPlasma := 878416384462359, basePlasma := 1000 }

/-- Pays as much by work. -/
def exactByWork : Block := { difficulty := 1317624576693538500, basePlasma := 1000 }

/-- One unit less does not pay, and it does not matter by which resource. -/
theorem price_rule_steep :
    steep.fusionPrice ≤ Word.max64 / blockBase ∧ Exchanged exactByFusion exactByWork ∧
      steep.paysEnough exactByFusion = .ok true ∧
      steep.paysEnough { exactByFusion with fusedPlasma := 878416384462358 } = .ok false ∧
      steep.exchanged.paysEnough exactByWork = .ok true := by
  have hfits : steep.fusionPrice ≤ Word.max64 / blockBase := by decide
  have hexchanged : Exchanged exactByFusion exactByWork := ⟨by decide, by decide, by decide⟩
  have hrule := price_rule steep hfits
  have hpays : steep.paysEnough exactByFusion = .ok true := by
    rw [hrule.exact _ (by decide)]
    decide
  refine ⟨hfits, hexchanged, hpays, ?_, ?_⟩
  · rw [hrule.exact _ (by decide)]
    decide
  · rw [hrule.exchange exactByFusion exactByWork (by decide) (by decide) hexchanged (by decide)]
    exact hpays

end MomentumChain.Plasma.Market
