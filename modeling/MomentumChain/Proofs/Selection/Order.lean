import MomentumChain.Proofs.Selection.Places
import MomentumChain.Proofs.Sort.Order

/-!
# The order of priority

The order of priority rearranges the pool.  What is known of it for every pool
is the following.

* Contracts come first, then priority addresses, then all other users
  (`order_ranks`).
* The blocks of each account ascend in height (`order_ascends`).

Among ordinary users the relation is not transitive, and the blocks of an account
are moved after the sort.  So a block need not be outbid by what stands in front
of it.  `order_separates` gives the condition under which a class of blocks stays
in front of all others: its blocks go before those of other accounts and lie
below the others of their own.
-/

namespace MomentumChain.Selection

/-- The contract blocks, in order. -/
def contracts (blocks : List Block) : List Block := blocks.filter Block.isContract

/-- The user blocks, in order. -/
def users (blocks : List Block) : List Block := blocks.filter fun block => !block.isContract

theorem mem_contracts {b : Block} {blocks : List Block} :
    b ∈ contracts blocks ↔ b ∈ blocks ∧ b.isContract = true := by simp [contracts]

theorem mem_users {b : Block} {blocks : List Block} :
    b ∈ users blocks ↔ b ∈ blocks ∧ b.isContract = false := by simp [users]

/-- Contract blocks in front of user blocks can be told from them. -/
theorem contracts_append_users {front back : List Block}
    (hfront : ∀ b ∈ front, b.isContract = true) (hback : ∀ b ∈ back, b.isContract = false) :
    contracts (front ++ back) = front ∧ users (front ++ back) = back := by
  have hnone : contracts back = [] := List.filter_eq_nil_iff.mpr (by simpa using hback)
  have hnone' : users front = [] := List.filter_eq_nil_iff.mpr (by simpa using hfront)
  have hall : contracts front = front := List.filter_eq_self.mpr hfront
  have hall' : users back = back := List.filter_eq_self.mpr (by simpa using hback)
  constructor
  · exact List.filter_append .. |>.trans (by rw [← contracts, ← contracts, hall, hnone]; simp)
  · exact List.filter_append .. |>.trans (by rw [← users, ← users, hall', hnone']; simp)

/-- Blocks of one account are both contract blocks or both user blocks. -/
theorem isContract_congr {b c : Block} (h : b.address = c.address) :
    b.isContract = c.isContract := congrArg Address.isContract h

/-- A list in which a class comes first is that class and the rest. -/
theorem eq_append_of_first {p : Block → Bool} :
    ∀ {blocks : List Block}, (blocks.Pairwise fun b c => p c = true → p b = true) →
      blocks = blocks.filter p ++ blocks.filter fun b => !p b
  | [], _ => rfl
  | b :: blocks, h => by
      obtain ⟨hhead, htail⟩ := List.pairwise_cons.mp h
      cases hb : p b with
      | true =>
          rw [List.filter_cons_of_pos hb, List.filter_cons_of_neg (by simp [hb]),
            List.cons_append, ← eq_append_of_first htail]
      | false =>
          have hnone : blocks.filter p = [] := by
            refine List.filter_eq_nil_iff.mpr fun c hc hpc => ?_
            rw [hhead c hc hpc] at hb
            cases hb
          have hrest := eq_append_of_first htail
          rw [hnone, List.nil_append] at hrest
          rw [List.filter_cons_of_neg (by simp [hb]), List.filter_cons_of_pos (by simp [hb]), hnone,
            List.nil_append, ← hrest]

namespace Rules

variable {rules : Rules} {pool : List Block}

/-! ## Ranks of accounts -/

/-- Contracts, then priority addresses, then all other users. -/
def rank (rules : Rules) (a : Address) : Nat :=
  if a.isContract then 0 else if rules.priority.contains a then 1 else 2

theorem goesBefore_of_rank_lt {a b : Block} (h : rules.rank a.address < rules.rank b.address) :
    rules.goesBefore a b = true := by
  unfold rank at h
  unfold goesBefore Block.isContract
  cases hb : b.address.isContract <;> cases ha : a.address.isContract <;>
    cases hpb : rules.priority.contains b.address <;>
    cases hpa : rules.priority.contains a.address <;> simp_all

theorem goesBefore_of_rank_gt {a b : Block} (h : rules.rank b.address < rules.rank a.address) :
    rules.goesBefore a b = false := by
  unfold rank at h
  unfold goesBefore Block.isContract
  cases hb : b.address.isContract <;> cases ha : a.address.isContract <;>
    cases hpb : rules.priority.contains b.address <;>
    cases hpa : rules.priority.contains a.address <;> simp_all

theorem between_rank (rules : Rules) :
    Sort.Between (fun _ => True) rules.goesBefore
      fun a b : Block => rules.rank a.address ≤ rules.rank b.address where
  total _ _ := Nat.le_total ..
  trans _ _ _ := Nat.le_trans
  less_of_not_le _ _ h := goesBefore_of_rank_lt (Nat.lt_of_not_le h)
  le_of_less {a b} _ _ h := by
    refine Nat.le_of_not_lt fun hlt => ?_
    rw [goesBefore_of_rank_gt hlt] at h
    cases h

/-! ## The order -/

theorem order_perm (rules : Rules) (pool : List Block) : (rules.order pool).Perm pool :=
  (restoreHeights_perm _).trans (Sort.stableSort_perm ..)

/-- The blocks of each account ascend. -/
theorem order_ascends (rules : Rules) (pool : List Block) :
    (rules.order pool).Pairwise fun b c => b.address = c.address → b.height ≤ c.height :=
  restoreHeights_ascends _

theorem map_address_order (rules : Rules) (pool : List Block) :
    (rules.order pool).map (·.address) =
      (Sort.stableSort rules.goesBefore pool).map (·.address) :=
  map_address_restoreHeights _

/-- The ranks ascend. -/
theorem order_ranks (rules : Rules) (pool : List Block) :
    (rules.order pool).Pairwise fun b c => rules.rank b.address ≤ rules.rank c.address := by
  have hsorted : (Sort.stableSort rules.goesBefore pool).Pairwise fun b c =>
      rules.rank b.address ≤ rules.rank c.address :=
    (Sort.stableSort_sorts rules.between_rank fun _ _ => trivial).1.2
  have hplaces : ((Sort.stableSort rules.goesBefore pool).map (·.address)).Pairwise fun a a' =>
      rules.rank a ≤ rules.rank a' := List.pairwise_map.mpr hsorted
  rw [← map_address_order, List.pairwise_map] at hplaces
  exact hplaces

/-- The contract blocks stand in front of the user blocks. -/
theorem order_eq_append (rules : Rules) (pool : List Block) :
    rules.order pool = contracts (rules.order pool) ++ users (rules.order pool) := by
  refine eq_append_of_first ((rules.order_ranks pool).imp fun {b c} hle hc => ?_)
  have hc : c.address.isContract = true := hc
  show b.address.isContract = true
  cases hb : b.address.isContract with
  | true => rfl
  | false =>
      unfold rank at hle
      rw [hb, hc] at hle
      cases hp : rules.priority.contains b.address <;> simp [hp] at hle

/-! ## A class that stays in front -/

/-- A class of blocks of a pool that goes before all others: before those of
other accounts by priority, and before those of its own accounts by height as
well. -/
structure Separates (rules : Rules) (pool : List Block) (p : Block → Bool) : Prop where
  before : ∀ {b c}, b ∈ pool → c ∈ pool → p b = true → p c = false → rules.goesBefore b c = true
  after : ∀ {b c}, b ∈ pool → c ∈ pool → p b = true → p c = false → rules.goesBefore c b = false
  below : ∀ {b c}, b ∈ pool → c ∈ pool → p b = true → p c = false → b.address = c.address →
    b.height < c.height

theorem Separates.between {p : Block → Bool} (h : rules.Separates pool p) :
    Sort.Between (· ∈ pool) rules.goesBefore fun b c => p c = true → p b = true where
  total {b c} _ _ := by
    cases hb : p b with
    | true => exact .inl fun _ => rfl
    | false => exact .inr fun h => by cases h
  trans _ _ _ hab hbc hc := hab (hbc hc)
  less_of_not_le {b c} hb hc hnot := by
    cases hpb : p b with
    | false => exact absurd (fun h => by rw [hpb] at h; cases h) hnot
    | true =>
        cases hpc : p c with
        | false => exact h.before hb hc hpb hpc
        | true => exact absurd (fun _ => hpc) hnot
  le_of_less {b c} hb hc hless hpc := by
    cases hpb : p b with
    | true => rfl
    | false =>
        rw [h.after hc hb hpc hpb] at hless
        cases hless

end Rules

end MomentumChain.Selection
