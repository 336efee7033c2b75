import Mathlib
import MomentumChain.Proofs.Selection.Privilege
import MomentumChain.Proofs.Sort.Neighbours

/-!
# The shape of the order of priority

Among ordinary blocks the relation of priority has cycles, so the order of priority is not
sorted by it.  Two things are known of it for every pool.

* Before the heights are restored, no block goes before its neighbour in front
  (`sorted_neighbours`), since the relation is asymmetric (`goesBefore_asymmetric`).
* The order has three parts: contracts, priority addresses, all others.  In the first two every
  place belongs to the account that has it in the pool.  In all three the blocks of an account
  ascend in height within the places of the account (`order_shape`).

Blocks of one account and one height are told apart in the third part alone, where the price
and the hash of blocks of other accounts may have put them in either order.  In the first two
they stay as they are in the pool, for the sort leaves them there and merge sort is stable.
-/

namespace MomentumChain.Selection

/-- Merge sort does not move blocks of one height past one another. -/
theorem filter_height_byHeight (height : UInt64) (blocks : List Block) :
    (byHeight blocks).filter (·.height = height) = blocks.filter (·.height = height) := by
  have hlevel : (fun b : Block => decide (b.height = height)) =
      Sort.level (fun b c : Block => decide (b.height < c.height)) { height } := by
    funext b
    rw [Bool.eq_iff_iff, Sort.level_iff]
    simp only [decide_eq_true_eq, decide_eq_false_iff_not, UInt64.not_lt]
    constructor
    · rintro rfl
      exact ⟨UInt64.le_refl _, UInt64.le_refl _⟩
    · rintro ⟨hle, hge⟩
      exact UInt64.le_antisymm hle hge
  rw [hlevel]
  exact filter_level_byHeight { height } blocks

namespace Rules

variable {rules : Rules} {pool : List Block}

/-! ## Neighbours -/

/-- Of two blocks at most one pays the higher price, or the same price with the larger hash. -/
theorem not_outbids_both {market : Plasma.Market} {a b : Block}
    (hab : market.compare a b = .higher ∨ market.compare a b = .same ∧ b.hash < a.hash)
    (hba : market.compare b a = .higher ∨ market.compare b a = .same ∧ a.hash < b.hash) :
    False := by
  rcases hab with hab | ⟨hab, hhash⟩
  · rw [Plasma.Market.compare_eq_higher_comm] at hab
    rcases hba with hba | ⟨hba, _⟩
    · cases hab.symm.trans hba
    · cases hab.symm.trans hba
  · rw [Plasma.Market.compare_eq_same_comm] at hab
    rcases hba with hba | ⟨_, hhash'⟩
    · cases hab.symm.trans hba
    · exact Hash.lt_irrefl _ (Hash.lt_trans hhash hhash')

/-- Between two ordinary blocks the heights decide within an account, the prices between
accounts, and the hashes at one price. -/
theorem goesBefore_ordinary_iff {a b : Block} (ha : rules.rank a.address = 2)
    (hb : rules.rank b.address = 2) :
    rules.goesBefore a b = true ↔
      a.address = b.address ∧ a.height < b.height ∨
        a.address ≠ b.address ∧ (rules.market.compare a b = .higher ∨
          rules.market.compare a b = .same ∧ b.hash < a.hash) := by
  obtain ⟨huser, hnone⟩ := rank_eq_two_iff.mp ha
  obtain ⟨huser', hnone'⟩ := rank_eq_two_iff.mp hb
  simp only [goesBefore, huser, huser', hnone, hnone', Bool.false_eq_true, if_false]
  by_cases haddress : a.address = b.address
  · simp [haddress]
  · cases rules.market.compare a b <;> simp [haddress]

/-- Of any two blocks at most one goes before the other. -/
theorem goesBefore_asymmetric (rules : Rules) : Sort.Asymmetric rules.goesBefore := by
  intro a b hless
  rcases Nat.lt_trichotomy (rules.rank a.address) (rules.rank b.address) with hlt | heq | hgt
  · exact goesBefore_of_rank_gt hlt
  · rcases Nat.lt_or_ge (rules.rank b.address) 2 with hrank | hrank
    · rw [goesBefore_of_rank_eq heq hrank] at hless
      cases hless
    · have hb2 : rules.rank b.address = 2 := by
        have := rules.rank_cases b.address
        omega
      have ha2 : rules.rank a.address = 2 := heq.trans hb2
      rw [goesBefore_ordinary_iff ha2 hb2] at hless
      rw [← Bool.not_eq_true, goesBefore_ordinary_iff hb2 ha2]
      rintro (⟨haddress, hlt⟩ | ⟨haddress, hbid⟩)
      · rcases hless with ⟨_, hlt'⟩ | ⟨hne, _⟩
        · exact UInt64.lt_asymm hlt hlt'
        · exact hne haddress.symm
      · rcases hless with ⟨heq, _⟩ | ⟨_, hbid'⟩
        · exact haddress heq.symm
        · exact not_outbids_both hbid' hbid
  · rw [goesBefore_of_rank_gt hgt] at hless
    cases hless

end Rules

/-- A list sorted by an asymmetric relation, transitive or not, has the elements of the list, and
none of them goes before its neighbour in front.  The relation of priority is asymmetric for
all prices and all sets of priority addresses. -/
theorem sorted_neighbours :
    (∀ {α : Type} (less : α → α → Bool), Sort.Asymmetric less → ∀ xs : List α,
        (Sort.stableSort less xs).Perm xs ∧ Sort.LocallySorted less (Sort.stableSort less xs)) ∧
      ∀ rules : Rules, Sort.Asymmetric rules.goesBefore ∧
        ∀ pool, Sort.LocallySorted rules.goesBefore (Sort.stableSort rules.goesBefore pool) := by
  refine ⟨fun less hasymm xs => ⟨Sort.stableSort_perm less xs, ?_⟩, fun rules => ?_⟩
  · exact Sort.stableSort_locallySorted hasymm xs
  · have hasymm := rules.goesBefore_asymmetric
    exact ⟨hasymm, Sort.stableSort_locallySorted hasymm⟩

/-- Each of three elements goes before the next one, and the last before the first. -/
def beats (x y : Fin 3) : Bool := y = x + 1

/-- There are more elements than fit in a run, and no order of them agrees with the relation. -/
theorem sorted_neighbours_beats :
    Sort.Asymmetric beats ∧ beats 0 1 ∧ beats 1 2 ∧ beats 2 0 ∧
      Sort.LocallySorted beats
        (Sort.stableSort beats
          [0, 1, 2, 2, 1, 0, 1, 1, 0, 2, 0, 2, 1, 2, 0, 1, 0, 2, 2, 1, 0, 0]) := by
  have hasymm : Sort.Asymmetric beats := by
    unfold Sort.Asymmetric
    decide
  exact ⟨hasymm, rfl, rfl, rfl, (sorted_neighbours.1 beats hasymm _).2⟩

namespace Rules

variable {rules : Rules} {pool : List Block}

/-! ## Three parts -/

/-- The sort leaves the blocks of a contract or a priority address as they stand in the pool. -/
theorem ofAccount_stableSort {a : Address} (ha : rules.rank a < 2) :
    ofAccount a (Sort.stableSort rules.goesBefore pool) = ofAccount a pool := by
  have hrank : ∀ blocks : List Block, ofAccount a blocks =
      ofAccount a (blocks.filter fun b => rules.rank b.address = rules.rank a) := by
    intro blocks
    rw [ofAccount, ofAccount, List.filter_filter]
    refine List.filter_congr fun b _ => ?_
    by_cases hb : b.address = a <;> simp [hb]
  rw [hrank, stableSort_filter_rank _ _ ha, ← hrank]

/-- Blocks of a contract or a priority address that claim one height keep their order. -/
theorem ofAccount_order_filter_height {a : Address} (ha : rules.rank a < 2) (height : UInt64) :
    (ofAccount a (rules.order pool)).filter (·.height = height) =
      (ofAccount a pool).filter (·.height = height) := by
  have hcomm : ∀ blocks : List Block, (ofAccount a blocks).filter (·.height = height) =
      ofAccount a (blocks.filter (·.height = height)) := fun _ => List.filter_comm ..
  rw [order, ofAccount_restoreHeights, hcomm, filter_height_byHeight, ← hcomm,
    ofAccount_stableSort ha]

/-- What the order of priority makes of a pool. -/
structure Shape (rules : Rules) (pool ordered : List Block) : Prop where
  perm : ordered.Perm pool
  /-- Contracts, then priority addresses, then all others. -/
  parts : ordered =
    contracts ordered ++ (rules.preferred ordered ++ rules.ordinary ordered)
  /-- The contracts follow one another as in the pool. -/
  contracts : (contracts ordered).map (·.address) = (contracts pool).map (·.address)
  /-- The priority addresses follow one another as in the pool. -/
  preferred : (rules.preferred ordered).map (·.address) =
    (rules.preferred pool).map (·.address)
  /-- Every place belongs to the account to which the sort gave it. -/
  places : ordered.map (·.address) =
    (Sort.stableSort rules.goesBefore pool).map (·.address)
  /-- The blocks of an account fill its places in order of height. -/
  ascends : ∀ a, (ofAccount a ordered).Pairwise fun b c => b.height ≤ c.height
  /-- At one height the blocks of a contract or a priority address keep their order. -/
  ties : ∀ a height, a.isContract = true ∨ rules.priority.contains a = true →
    (ofAccount a ordered).filter (·.height = height) =
      (ofAccount a pool).filter (·.height = height)

theorem rank_lt_two {a : Address} (h : a.isContract = true ∨ rules.priority.contains a = true) :
    rules.rank a < 2 := by
  unfold rank
  rcases h with h | h <;> cases ha : a.isContract <;> simp_all

/-- The order of priority has this shape for every pool, and a content is a part of it.  There
is a content unless the price cannot be told. -/
theorem order_shape (rules : Rules) (pool : List Block) :
    rules.Shape pool (rules.order pool) ∧
      ((∃ blocks, rules.content pool = .ok blocks) ↔ rules.Priceable pool) ∧
      ∀ blocks, rules.content pool = .ok blocks → blocks.Sublist (rules.order pool) := by
  refine ⟨?_, content_isOk_iff, fun blocks => content_sublist⟩
  exact {
    perm := rules.order_perm pool
    parts := by
      rw [← users_order]
      exact rules.order_eq_append pool
    contracts := by rw [contracts_order, map_address_restoreHeights]
    preferred := by rw [preferred_order, map_address_restoreHeights]
    places := rules.map_address_order pool
    ascends := fun a => by
      rw [order, ofAccount_restoreHeights]
      exact (byHeight_ascends _).sublist List.filter_sublist
    ties := fun a height ha => ofAccount_order_filter_height (rank_lt_two ha) height }

/-- Two contracts, a priority address with two blocks for one height, and ordinary blocks. -/
def mingled : List Block :=
  [userBlock 1 2 60000 21000, userBlock 3 2 30000 21000,
    contractBlock .pillarContract .contractReceive 2, userBlock 3 1 21000 21000,
    contractBlock .plasmaContract .contractReceive 1,
    contractBlock .pillarContract .contractReceive 1,
    { userBlock 3 1 42000 21000 with hash := plainHash 3 9 }, userBlock 2 1 22000 21000]

/-- The part of it that is admitted.  There is room for two contract blocks. -/
def unmingled : List Block :=
  [contractBlock .pillarContract .contractReceive 1,
    contractBlock .plasmaContract .contractReceive 1, userBlock 3 1 21000 21000,
    { userBlock 3 1 42000 21000 with hash := plainHash 3 9 }, userBlock 3 2 30000 21000,
    userBlock 1 2 60000 21000, userBlock 2 1 22000 21000]

theorem order_shape_mingled :
    favouring.Shape mingled (favouring.order mingled) ∧
      favouring.content mingled = .ok unmingled ∧
        unmingled.Sublist (favouring.order mingled) := by
  have h : favouring.content mingled = .ok unmingled := by cbv
  obtain ⟨hshape, _, hsub⟩ := order_shape favouring mingled
  exact ⟨hshape, h, hsub unmingled h⟩

end Rules

end MomentumChain.Selection
