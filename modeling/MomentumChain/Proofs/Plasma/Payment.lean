import MomentumChain.Plasma.Market

/-!
# Paying the price of a round

A user block is measured against a block that buys the base plasma of a plain
block by fusion alone.  That block exists as long as its price fits in a word
(`Market.PriceFits`), and then every user block either pays or underpays.

A block that pays no worse a price than one that pays, pays as well
(`paysEnough_of_not_worse`).  So a block that pays outbids every block that underpays
(`compare_eq_higher_of_pays`).  It may not be free, that is, declare no base plasma and
pay nothing: a free block pays the price of every round and ties with every other block.
-/

namespace MomentumChain.Plasma.Market

/-- The price of the base plasma of a plain block fits in a word. -/
def PriceFits (market : Market) : Prop :=
  blockBase.toNat * market.fusionPrice.toNat < UInt64.size

instance (market : Market) : Decidable market.PriceFits :=
  inferInstanceAs (Decidable (_ < _))

/-- The block consumes nothing and pays nothing. -/
def Free (market : Market) (block : Block) : Prop :=
  block.basePlasma = 0 ∧ market.payment block = 0

instance (market : Market) (block : Block) : Decidable (market.Free block) :=
  inferInstanceAs (Decidable (_ ∧ _))

/-- The block that others are measured against, if its price fits. -/
def scaledReference (market : Market) : Block :=
  { fusedPlasma := blockBase * market.fusionPrice / parPrice, basePlasma := blockBase }

variable {market : Market} {block : Block}

theorem paysEnough_of_contract (h : block.isContract = true) : market.paysEnough block = .ok true :=
  if_pos h

theorem paysEnough_of_priceFits (hfits : market.PriceFits) (h : block.isContract = false) :
    market.paysEnough block = .ok (market.compare block market.scaledReference != .worse) := by
  rw [paysEnough, h, if_neg Bool.false_ne_true, referenceBlock, Word.mul64_of_lt hfits]
  rfl

theorem paysEnough_of_not_priceFits (hfits : ¬ market.PriceFits) (h : block.isContract = false) :
    market.paysEnough block = .error .overflow := by
  have hmul : Word.mul64 blockBase market.fusionPrice = .error .overflow := if_neg hfits
  rw [paysEnough, h, if_neg Bool.false_ne_true, referenceBlock, hmul]
  rfl

/-- Whether a user block pays can be told exactly if the price fits. -/
theorem priceFits_of_paysEnough {answer : Bool} (h : block.isContract = false)
    (hpays : market.paysEnough block = .ok answer) : market.PriceFits := by
  refine Classical.byContradiction fun hfits => ?_
  rw [paysEnough_of_not_priceFits hfits h] at hpays
  cases hpays

/-- The block pays the price of the round, and this can be told. -/
def pays (market : Market) (block : Block) : Bool :=
  match market.paysEnough block with
  | .ok answer => answer
  | .error _ => false

theorem pays_eq_true_iff : market.pays block = true ↔ market.paysEnough block = .ok true := by
  unfold pays
  cases market.paysEnough block with
  | ok answer => simp
  | error fault => simp

theorem pays_eq_false_iff : market.pays block = false ↔ market.paysEnough block ≠ .ok true := by
  rw [← Bool.not_eq_true, pays_eq_true_iff]

/-! ## Prices as fractions -/

theorem compare_eq_higher_iff {a b : Block} :
    market.compare a b = .higher ↔
      market.payment b * a.basePlasma.toNat < market.payment a * b.basePlasma.toNat := by
  simp only [compare]
  split
  · simp [*]
  · split <;> simp [*]

theorem compare_eq_worse_iff {a b : Block} :
    market.compare a b = .worse ↔
      market.payment a * b.basePlasma.toNat < market.payment b * a.basePlasma.toNat := by
  simp only [compare]
  split
  · rename_i hlt
    simp only [reduceCtorEq, false_iff, Nat.not_lt]
    exact Nat.le_of_lt hlt
  · rename_i hnot
    split
    · rename_i heq
      simp [heq]
    · rename_i hne
      simp only [true_iff]
      omega

/-- One block pays the higher price exactly if the other pays the worse one. -/
theorem compare_eq_higher_comm {a b : Block} :
    market.compare a b = .higher ↔ market.compare b a = .worse := by
  rw [compare_eq_higher_iff, compare_eq_worse_iff]

theorem compare_eq_same_iff {a b : Block} :
    market.compare a b = .same ↔
      market.payment a * b.basePlasma.toNat = market.payment b * a.basePlasma.toNat := by
  simp only [compare]
  split
  · rename_i hlt
    simp [Nat.ne_of_gt hlt]
  · split <;> simp [*]

/-- To pay the same price is symmetric. -/
theorem compare_eq_same_comm {a b : Block} :
    market.compare a b = .same ↔ market.compare b a = .same := by
  rw [compare_eq_same_iff, compare_eq_same_iff, eq_comm]

theorem paysEnough_iff (hfits : market.PriceFits) (h : block.isContract = false) :
    market.paysEnough block = .ok true ↔
      market.payment market.scaledReference * block.basePlasma.toNat ≤
        market.payment block * blockBase.toNat := by
  rw [paysEnough_of_priceFits hfits h, Except.ok.injEq, bne_iff_ne, ne_eq, compare_eq_worse_iff,
    Nat.not_lt]
  rfl

/-- To pay enough is inherited by blocks that pay no worse a price.  It can be told of `b`, so the
price of the reference fits. -/
theorem paysEnough_of_not_worse {a b : Block} (ha : a.isContract = false)
    (hb : b.isContract = false) (hbase : 0 < b.basePlasma)
    (hpays : market.paysEnough b = .ok true) (hnot : market.compare a b ≠ .worse) :
    market.paysEnough a = .ok true := by
  have hfits := priceFits_of_paysEnough hb hpays
  rw [paysEnough_iff hfits hb] at hpays
  rw [ne_eq, compare_eq_worse_iff, Nat.not_lt] at hnot
  rw [paysEnough_iff hfits ha]
  refine Nat.le_of_mul_le_mul_right (c := b.basePlasma.toNat) ?_
    (UInt64.lt_iff_toNat_lt.mp hbase)
  calc market.payment market.scaledReference * a.basePlasma.toNat * b.basePlasma.toNat
      = market.payment market.scaledReference * b.basePlasma.toNat * a.basePlasma.toNat :=
          Nat.mul_right_comm ..
    _ ≤ market.payment b * blockBase.toNat * a.basePlasma.toNat := Nat.mul_le_mul_right _ hpays
    _ = market.payment b * a.basePlasma.toNat * blockBase.toNat := Nat.mul_right_comm ..
    _ ≤ market.payment a * b.basePlasma.toNat * blockBase.toNat := Nat.mul_le_mul_right _ hnot
    _ = market.payment a * blockBase.toNat * b.basePlasma.toNat := Nat.mul_right_comm ..

/-- A block that pays and is not free outbids every block that underpays. -/
theorem compare_eq_higher_of_pays {a b : Block} (ha : a.isContract = false)
    (hb : b.isContract = false) (hpays : market.paysEnough a = .ok true)
    (hunder : market.paysEnough b ≠ .ok true) (hfree : ¬ market.Free a) :
    market.compare a b = .higher := by
  cases Nat.eq_zero_or_pos a.basePlasma.toNat with
  | inl hzero =>
      have hpayment : market.payment a ≠ 0 := fun h =>
        hfree ⟨UInt64.toNat_inj.mp hzero, h⟩
      -- the underpaying block consumes something, or it would have nothing to pay for
      have hconsumes : 0 < b.basePlasma.toNat := by
        refine Nat.pos_of_ne_zero fun hnone => hunder ?_
        rw [paysEnough_iff (priceFits_of_paysEnough ha hpays) hb, hnone, Nat.mul_zero]
        exact Nat.zero_le _
      rw [compare_eq_higher_iff, hzero, Nat.mul_zero]
      exact Nat.mul_pos (Nat.pos_of_ne_zero hpayment) hconsumes
  | inr hpos =>
      refine Classical.byContradiction fun hnot => hunder ?_
      rw [compare_eq_higher_comm] at hnot
      exact paysEnough_of_not_worse hb ha (UInt64.lt_iff_toNat_lt.mpr hpos) hpays hnot

theorem compare_eq_worse_of_pays {a b : Block} (ha : a.isContract = false)
    (hb : b.isContract = false) (hpays : market.paysEnough a = .ok true)
    (hunder : market.paysEnough b ≠ .ok true) (hfree : ¬ market.Free a) :
    market.compare b a = .worse :=
  compare_eq_worse_iff.mpr
    (compare_eq_higher_iff.mp (compare_eq_higher_of_pays ha hb hpays hunder hfree))

end MomentumChain.Plasma.Market
