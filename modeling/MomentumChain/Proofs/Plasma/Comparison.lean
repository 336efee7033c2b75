import MomentumChain.Proofs.Plasma.Price
import MomentumChain.Proofs.Plasma.Rate

/-!
# The comparison of prices is an order of preference

`Market.Consistent` lists what the order of priority and the end of admission rely on.  It holds
in every market (`compare_consistent`).

* The comparison is exact.  It is carried out in 256-bit words, and no product and no sum of it
  leaves its word (`compareWords_eq`): a payment fits in 129 bits and a base plasma in 64.
* Of two blocks one pays the higher price exactly if the other pays the worse one, and to pay
  the same is symmetric, also for blocks without base plasma.
* On blocks with base plasma it is the comparison of their rates, so each of its three outcomes
  is transitive.
* A block that pays no worse a price than a block with base plasma pays enough if that one does.

Blocks without base plasma are left out of the third point.  Such a block may pay the same as
two blocks that differ, as a free block does.
-/

namespace MomentumChain.Plasma.Market

/-! ## The comparison in words -/

/-- What a block pays, in 256-bit words. -/
def paymentWord (market : Market) (block : Block) : Checked Nat := do
  let fused ← Word.mul 256 block.fusedPlasma.toNat market.workPrice.toNat
  let work ← Word.mul 256 (ofDifficulty block.difficulty).toNat market.fusionPrice.toNat
  Word.add 256 fused work

/-- Compares the payments of two blocks per unit of base plasma, in 256-bit words. -/
def compareWords (market : Market) (a b : Block) : Checked PriceOrder := do
  let left ← Word.mul 256 (← market.paymentWord a) b.basePlasma.toNat
  let right ← Word.mul 256 (← market.paymentWord b) a.basePlasma.toNat
  pure (if right < left then .higher else if left = right then .same else .worse)

theorem paymentWord_eq (market : Market) (block : Block) :
    market.paymentWord block = .ok (market.payment block) := by
  have hwide : 2 * Word.radix 128 < Word.radix 256 := by decide
  have hfused := mul_lt_wide block.fusedPlasma.toNat_lt market.workPrice.toNat_lt
  have hwork := mul_lt_wide (ofDifficulty block.difficulty).toNat_lt market.fusionPrice.toNat_lt
  rw [paymentWord, Word.mul_of_lt (by omega), Word.mul_of_lt (by omega)]
  exact Word.add_of_lt (by omega)

theorem compareWords_eq (market : Market) (a b : Block) :
    market.compareWords a b = .ok (market.compare a b) := by
  simp only [compareWords, paymentWord_eq, Word.mul_of_lt (market.payment_mul_lt a b),
    Word.mul_of_lt (market.payment_mul_lt b a), bind, Except.bind]
  rfl

/-! ## Transitivity -/

variable {market : Market} {a b c : Block}

/-- Blocks with base plasma are ordered by their rates. -/
theorem compare_trans {order : PriceOrder} (ha : 0 < a.basePlasma) (hb : 0 < b.basePlasma)
    (hc : 0 < c.basePlasma) (hab : market.compare a b = order)
    (hbc : market.compare b c = order) : market.compare a c = order := by
  cases order with
  | higher =>
      rw [compare_eq_higher_iff_rate ha hb] at hab
      rw [compare_eq_higher_iff_rate hb hc] at hbc
      exact (compare_eq_higher_iff_rate ha hc).mpr (hbc.trans hab)
  | same =>
      rw [compare_eq_same_iff_rate ha hb] at hab
      rw [compare_eq_same_iff_rate hb hc] at hbc
      exact (compare_eq_same_iff_rate ha hc).mpr (hab.trans hbc)
  | worse =>
      rw [compare_eq_worse_iff_rate ha hb] at hab
      rw [compare_eq_worse_iff_rate hb hc] at hbc
      exact (compare_eq_worse_iff_rate ha hc).mpr (hab.trans hbc)

-- a free block pays the same as two blocks that differ
example :
    let market := withPrices 1000 1000 .initial
    let dear : Block := { fusedPlasma := 42000, basePlasma := 21000 }
    let cheap : Block := { fusedPlasma := 21000, basePlasma := 21000 }
    let free : Block := { basePlasma := 0 }
    market.compare dear free = .same ∧ market.compare free cheap = .same ∧
      market.compare dear cheap = .higher := by decide

/-! ## The order -/

/-- What makes the comparison of prices an order of preference. -/
structure Consistent (market : Market) : Prop where
  /-- No step of the comparison leaves its 256-bit word. -/
  exact : ∀ a b, market.compareWords a b = .ok (market.compare a b)
  mirror : ∀ a b, market.compare a b = .higher ↔ market.compare b a = .worse
  tie : ∀ a b, market.compare a b = .same ↔ market.compare b a = .same
  /-- Blocks with base plasma are compared by their rates. -/
  rates : ∀ a b, 0 < a.basePlasma → 0 < b.basePlasma →
    (market.compare a b = .higher ↔ market.rate b < market.rate a) ∧
      (market.compare a b = .same ↔ market.rate a = market.rate b) ∧
      (market.compare a b = .worse ↔ market.rate a < market.rate b)
  trans : ∀ order a b c, 0 < a.basePlasma → 0 < b.basePlasma → 0 < c.basePlasma →
    market.compare a b = order → market.compare b c = order → market.compare a c = order
  /-- Whoever pays no worse a price than a block that pays enough, pays enough. -/
  pays : ∀ a b, a.isContract = false → b.isContract = false → 0 < b.basePlasma →
    market.paysEnough b = .ok true → market.compare a b ≠ .worse →
    market.paysEnough a = .ok true

/-- Prices are compared consistently in every market. -/
theorem compare_consistent (market : Market) : market.Consistent where
  exact := market.compareWords_eq
  mirror _ _ := compare_eq_higher_comm
  tie _ _ := compare_eq_same_comm
  rates _ _ ha hb := ⟨compare_eq_higher_iff_rate ha hb, compare_eq_same_iff_rate ha hb,
    compare_eq_worse_iff_rate ha hb⟩
  trans _ _ _ _ := compare_trans
  pays _ _ := paysEnough_of_not_worse

/-- A market in which the resources differ in price. -/
def uneven : Market := withPrices 1241 1052 .initial

/-- Pays for a plain block by fusion. -/
def paidByFusion : Block := { fusedPlasma := 26061, basePlasma := 21000 }

/-- Pays for a plain block by work. -/
def paidByWork : Block := { difficulty := 33138000, basePlasma := 21000 }

/-- Pays for twice as much. -/
def paidTwice : Block := { fusedPlasma := 52122, basePlasma := 42000 }

/-- All three pay exactly the price of the round. -/
theorem compare_consistent_level :
    uneven.compare paidByFusion paidByWork = .same ∧
      uneven.compare paidByWork paidTwice = .same ∧
      uneven.compare paidByFusion paidTwice = .same ∧
      uneven.paysEnough paidTwice = .ok true ∧ uneven.paysEnough paidByFusion = .ok true := by
  have hfirst : uneven.compare paidByFusion paidByWork = .same := by decide
  have hsecond : uneven.compare paidByWork paidTwice = .same := by decide
  have htwice : uneven.paysEnough paidTwice = .ok true := by decide
  have hthird := (compare_consistent uneven).trans .same paidByFusion paidByWork paidTwice
    (by decide) (by decide) (by decide) hfirst hsecond
  have hpays := (compare_consistent uneven).pays paidByFusion paidTwice (by decide) (by decide)
    (by decide) htwice (by decide)
  exact ⟨hfirst, hsecond, hthird, htwice, hpays⟩

end MomentumChain.Plasma.Market
