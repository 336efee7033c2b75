import MomentumChain.Proofs.Selection.Reordering

/-!
# Privileged blocks

Contract blocks and the blocks of priority addresses are privileged.  Which of them a momentum
takes in, and in what order, does not depend on the ordinary blocks of the pool.

* The sort leaves both classes as they stand in the pool, since each is a class of ties
  (`stableSort_filter_rank`).  Ordinary blocks may go before one another in cycles.
* Heights are restored within accounts, so the blocks of some accounts can be put in order
  without those of the others (`restoreHeights_filter`).
* The pass meets the blocks of priority addresses before the ordinary ones.  It admits the
  longest affordable prefix of them (`preferred_content_longest`).

An ordinary block can do harm in one way only.  The pass asks of a user block whether it pays,
and at a price that does not fit in a word this question ends the pass without any content, the
contract blocks included.  `privileged_content_iff` says that there is no other way, and
`dear_arrival_breaks` is a pool in which it happens.
-/

namespace MomentumChain.Selection

/-! ## Order of height, class by class -/

theorem strictWeak_height :
    Sort.StrictWeak (fun _ => True) fun b c : Block => decide (b.height < c.height) where
  irrefl _ := by simp
  trans _ _ _ hxy hyz := by
    rw [decide_eq_true_eq] at hxy hyz ⊢
    exact UInt64.lt_trans hxy hyz
  level_trans _ _ _ hxy hyz := by
    simp only [Sort.level_iff, decide_eq_false_iff_not, UInt64.not_lt] at hxy hyz ⊢
    exact ⟨UInt64.le_trans hyz.1 hxy.1, UInt64.le_trans hxy.2 hyz.2⟩

/-- Blocks of one height keep their order. -/
theorem filter_level_byHeight (b : Block) (blocks : List Block) :
    (byHeight blocks).filter (Sort.level (fun b c : Block => decide (b.height < c.height)) b) =
      blocks.filter (Sort.level (fun b c : Block => decide (b.height < c.height)) b) := by
  have hle : (fun b c : Block => decide (b.height ≤ c.height)) =
      fun b c => !decide (c.height < b.height) := by
    funext b c
    rw [← decide_not, decide_eq_decide, UInt64.not_lt]
  rw [byHeight, hle]
  exact strictWeak_height.filter_mergeSort blocks b

/-- A part of the blocks is put in order of height like the whole. -/
theorem byHeight_filter (p : Block → Bool) (blocks : List Block) :
    byHeight (blocks.filter p) = (byHeight blocks).filter p := by
  have hascends : ∀ blocks, Sort.Ascends (fun _ => True)
      (fun b c : Block => decide (c.height < b.height) = false) (byHeight blocks) := by
    intro blocks
    refine ⟨fun _ _ => trivial, (byHeight_ascends blocks).imp fun hle => ?_⟩
    simpa using hle
  apply strictWeak_height.eq_of_levels (hascends _)
  · exact ⟨fun _ _ => trivial, (hascends blocks).2.sublist List.filter_sublist⟩
  · intro b _
    rw [filter_level_byHeight, List.filter_comm, ← filter_level_byHeight, List.filter_comm]

/-- The blocks of some accounts are put in order of height without those of the others. -/
theorem restoreHeights_filter (q : Address → Bool) (blocks : List Block) :
    (restoreHeights blocks).filter (fun b => q b.address) =
      restoreHeights (blocks.filter fun b => q b.address) := by
  have hplaces : ((restoreHeights blocks).filter fun b => q b.address).map (·.address) =
      (restoreHeights (blocks.filter fun b => q b.address)).map (·.address) := by
    have hmap : ∀ xs : List Block,
        (xs.filter fun b => q b.address).map (·.address) = (xs.map (·.address)).filter q := by
      intro xs
      rw [List.filter_map]
      rfl
    rw [map_address_restoreHeights, hmap, hmap, map_address_restoreHeights]
  have haccounts : ∀ a,
      ofAccount a ((restoreHeights blocks).filter fun b => q b.address) =
        ofAccount a (restoreHeights (blocks.filter fun b => q b.address)) := by
    intro a
    rw [ofAccount_restoreHeights, byHeight_filter]
    simp only [ofAccount]
    rw [List.filter_comm, List.filter_comm (l := byHeight blocks)]
    exact congrArg (List.filter _) (ofAccount_restoreHeights a blocks)
  have hall := map_eq_of_ofAccount id hplaces fun a => congrArg (List.map id) (haccounts a)
  rwa [List.map_id, List.map_id] at hall

/-! ## The longest prefix within a class -/

/-- All prefixes of an affordable list are affordable. -/
theorem AffordableFrom.of_prefix {market : Plasma.Market} {used : UInt64}
    {shorter blocks : List Block} (h : AffordableFrom market used blocks)
    (hpre : shorter <+: blocks) : AffordableFrom market used shorter := by
  constructor
  · intro b hb
    exact h.1 b (hpre.subset hb)
  · intro start hstart
    exact h.2 start (hstart.trans hpre)

theorem LongestPrefix.unique {P : List Block → Prop} {blocks admitted admitted' : List Block}
    (h : LongestPrefix P blocks admitted) (h' : LongestPrefix P blocks admitted') :
    admitted = admitted' := by
  have hle : admitted <+: admitted' := h'.2.2 admitted h.1 h.2.1
  have hge : admitted' <+: admitted := h.2.2 admitted' h'.1 h'.2.1
  exact hle.eq_of_length (Nat.le_antisymm hle.length_le hge.length_le)

/-- If a class comes first then its part of the longest prefix is the longest prefix of it. -/
theorem LongestPrefix.filter_first {P : List Block → Prop} {p : Block → Bool}
    {front back admitted : List Block}
    (hP : ∀ {shorter blocks}, P blocks → shorter <+: blocks → P shorter)
    (hfront : ∀ b ∈ front, p b = true) (hback : ∀ b ∈ back, p b = false)
    (h : LongestPrefix P (front ++ back) admitted) :
    LongestPrefix P front (admitted.filter p) := by
  obtain ⟨hpre, hadmitted, hlongest⟩ := h
  rcases List.prefix_or_prefix_of_prefix hpre (List.prefix_append front back) with
    hwithin | ⟨rest, rfl⟩
  · have hself : admitted.filter p = admitted :=
      List.filter_eq_self.mpr fun b hb => hfront b (hwithin.subset hb)
    rw [hself]
    refine ⟨hwithin, hadmitted, ?_⟩
    intro longer hlonger hlong
    exact hlongest longer (hlonger.trans (List.prefix_append front back)) hlong
  · have hrest : ∀ b ∈ rest, p b = false := fun b hb =>
      hback b (((List.prefix_append_right_inj front).mp hpre).subset hb)
    have hself : (front ++ rest).filter p = front := by
      rw [List.filter_append, List.filter_eq_self.mpr hfront,
        List.filter_eq_nil_iff.mpr (by simpa using hrest), List.append_nil]
    rw [hself]
    exact ⟨List.prefix_refl _, hP hadmitted (List.prefix_append front rest), fun _ h _ => h⟩

namespace Rules

variable {rules : Rules} {pool pool' : List Block} {b : Block}

/-! ## Two classes of ties -/

theorem contracts_eq_filter_rank (rules : Rules) (blocks : List Block) :
    contracts blocks = blocks.filter fun b => rules.rank b.address = 0 := by
  apply List.filter_congr
  intro b _
  rw [Bool.eq_iff_iff, decide_eq_true_eq, rank_eq_zero_iff]

theorem preferred_eq_filter_rank (rules : Rules) (blocks : List Block) :
    rules.preferred blocks = blocks.filter fun b => rules.rank b.address = 1 := by
  rw [preferred, users, List.filter_filter]
  apply List.filter_congr
  intro b _
  rw [Bool.eq_iff_iff, decide_eq_true_eq, rank_eq_one_iff]

/-- Blocks of one privileged rank are ties. -/
theorem tied_rank (rules : Rules) {r : Nat} (hr : r < 2) :
    Sort.Tied (fun _ => True) rules.goesBefore
      (fun a b : Block => rules.rank a.address ≤ rules.rank b.address)
      fun b => decide (rules.rank b.address = r) where
  tied {a b} _ _ ha hb := by
    rw [decide_eq_true_eq] at ha hb
    exact goesBefore_of_rank_eq (ha.trans hb.symm) (hb ▸ hr)
  level {a b} _ _ ha hab hba := by
    rw [decide_eq_true_eq] at ha ⊢
    exact (Nat.le_antisymm hba hab).trans ha

/-- The sort leaves the blocks of a privileged rank as they stand in the pool. -/
theorem stableSort_filter_rank (rules : Rules) (pool : List Block) {r : Nat} (hr : r < 2) :
    (Sort.stableSort rules.goesBefore pool).filter (fun b => rules.rank b.address = r) =
      pool.filter fun b => rules.rank b.address = r := by
  obtain ⟨_, _, hkeeps⟩ := Sort.stableSort_sorts rules.between_rank fun b (_ : b ∈ pool) => trivial
  exact hkeeps _ (rules.tied_rank hr)

theorem order_filter_rank (rules : Rules) (pool : List Block) {r : Nat} (hr : r < 2) :
    (rules.order pool).filter (fun b => rules.rank b.address = r) =
      restoreHeights (pool.filter fun b => rules.rank b.address = r) := by
  rw [order, restoreHeights_filter fun a => decide (rules.rank a = r),
    stableSort_filter_rank _ _ hr]

/-- The contract blocks in order of priority follow from those of the pool. -/
theorem contracts_order (rules : Rules) (pool : List Block) :
    contracts (rules.order pool) = restoreHeights (contracts pool) := by
  rw [rules.contracts_eq_filter_rank, rules.contracts_eq_filter_rank,
    order_filter_rank _ _ (by decide)]

/-- The blocks of priority addresses in order of priority follow from those of the pool. -/
theorem preferred_order (rules : Rules) (pool : List Block) :
    rules.preferred (rules.order pool) = restoreHeights (rules.preferred pool) := by
  rw [preferred_eq_filter_rank, preferred_eq_filter_rank, order_filter_rank _ _ (by decide)]

/-- The blocks of priority addresses stand in front of the ordinary ones. -/
theorem users_order (rules : Rules) (pool : List Block) :
    users (rules.order pool) =
      rules.preferred (rules.order pool) ++ rules.ordinary (rules.order pool) := by
  apply eq_append_of_first
  have hranks := (rules.order_ranks pool).sublist
    (List.filter_sublist (p := fun b => !b.isContract))
  refine hranks.imp_of_mem ?_
  intro b c hb hc hle hpc
  have huser : b.isContract = false := (mem_users.mp hb).2
  have huser' : c.isContract = false := (mem_users.mp hc).2
  have hrank : rules.rank c.address = 1 := rank_eq_one_iff.mpr (by simp [hpc, huser'])
  cases hpb : rules.priority.contains b.address with
  | true => rfl
  | false =>
      have htwo : rules.rank b.address = 2 := rank_eq_two_iff.mpr ⟨huser, hpb⟩
      omega

/-! ## The privileged part of a content -/

/-- The block is one of a contract or of a priority address. -/
def isPrivileged (rules : Rules) (block : Block) : Bool :=
  block.isContract || rules.priority.contains block.address

/-- The privileged blocks, in order. -/
def privileged (rules : Rules) (blocks : List Block) : List Block :=
  blocks.filter rules.isPrivileged

section

variable {blocks : List Block} (h : rules.content pool = .ok blocks)
include h

/-- The contract blocks of a content follow from those of the pool. -/
theorem contracts_content : contracts blocks =
    (fitting rules.market.contractCap 0 (batches (restoreHeights (contracts pool)))).flatten := by
  rw [(content_parts h).2.1, admittedBatches, heldBatches, contracts_order]

/-- A content admits the longest affordable prefix of the blocks of priority addresses. -/
theorem preferred_content_longest :
    LongestPrefix (AffordableFrom rules.market 0) (restoreHeights (rules.preferred pool))
      (rules.preferred blocks) := by
  have husers := users_content_longest h
  rw [users_order] at husers
  rw [← preferred_order]
  apply husers.filter_first AffordableFrom.of_prefix
  · intro b hb
    exact (List.mem_filter.mp hb).2
  · intro b hb
    simpa using (List.mem_filter.mp hb).2

theorem privileged_content :
    rules.privileged blocks = contracts blocks ++ rules.preferred blocks := by
  have hfront : (contracts blocks).filter rules.isPrivileged = contracts blocks := by
    apply List.filter_eq_self.mpr
    intro b hb
    simp [isPrivileged, (mem_contracts.mp hb).2]
  have hback : (users blocks).filter rules.isPrivileged = rules.preferred blocks := by
    apply List.filter_congr
    intro b hb
    simp [isPrivileged, (mem_users.mp hb).2]
  rw [privileged, (content_parts h).1, List.filter_append, ← (content_parts h).1, hfront, hback]

end

/-! ## Pools that differ in ordinary blocks -/

/-- Both pools have the same contract blocks and the same blocks of priority addresses, each
in the same order.  Nothing is said about the ordinary blocks of either. -/
structure SamePrivileged (rules : Rules) (pool pool' : List Block) : Prop where
  contracts : contracts pool' = contracts pool
  preferred : rules.preferred pool' = rules.preferred pool

namespace SamePrivileged

variable (h : rules.SamePrivileged pool pool')
include h

/-- The contents of both pools agree in their privileged blocks. -/
theorem content_eq {blocks blocks' : List Block} (hcontent : rules.content pool = .ok blocks)
    (hcontent' : rules.content pool' = .ok blocks') :
    rules.privileged blocks' = rules.privileged blocks := by
  have hcontracts : Selection.contracts blocks' = Selection.contracts blocks := by
    rw [contracts_content hcontent, contracts_content hcontent', h.contracts]
  have hpreferred : rules.preferred blocks' = rules.preferred blocks := by
    have hlongest := preferred_content_longest hcontent'
    rw [h.preferred] at hlongest
    exact hlongest.unique (preferred_content_longest hcontent)
  rw [privileged_content hcontent, privileged_content hcontent', hcontracts, hpreferred]

/-- Where a priority address waits, both passes ask the same first question. -/
theorem head?_users (hne : rules.preferred pool ≠ []) :
    (users (rules.order pool')).head? = (users (rules.order pool)).head? := by
  have hne' : restoreHeights (rules.preferred pool) ≠ [] := by
    intro hnil
    exact hne ((restoreHeights_perm _).symm.trans (by rw [hnil])).eq_nil
  rw [users_order, users_order, preferred_order, preferred_order, h.preferred,
    List.head?_append_of_ne_nil _ hne', List.head?_append_of_ne_nil _ hne']

end SamePrivileged

/-- Two pools that differ in ordinary blocks only have contents with the same privileged
blocks, exactly if both have a content at all.  If the price fits in a word or a block of a
priority address waits, then both have one or neither has. -/
theorem privileged_content_iff (rules : Rules) (pool pool' : List Block)
    (h : rules.SamePrivileged pool pool') :
    ((∃ blocks blocks', rules.content pool = .ok blocks ∧ rules.content pool' = .ok blocks' ∧
        rules.privileged blocks' = rules.privileged blocks) ↔
      rules.Priceable pool ∧ rules.Priceable pool') ∧
      (rules.market.PriceFits ∨ rules.preferred pool ≠ [] →
        (rules.Priceable pool' ↔ rules.Priceable pool)) := by
  constructor
  · rw [← content_isOk_iff, ← content_isOk_iff]
    constructor
    · rintro ⟨blocks, blocks', hcontent, hcontent', _⟩
      exact ⟨⟨blocks, hcontent⟩, ⟨blocks', hcontent'⟩⟩
    · rintro ⟨⟨blocks, hcontent⟩, ⟨blocks', hcontent'⟩⟩
      exact ⟨blocks, blocks', hcontent, hcontent', h.content_eq hcontent hcontent'⟩
  · rintro (hfits | hne)
    · exact iff_of_true (.inl hfits) (.inl hfits)
    · rw [Priceable, Priceable, h.head?_users hne]

/-- A contract, a priority address with two blocks and one ordinary block. -/
def calm : List Block :=
  [userBlock 3 2 30000 21000, contractBlock .pillarContract .contractReceive 1,
    userBlock 3 1 21000 21000, userBlock 2 1 22000 21000]

/-- The same privileged blocks among ordinary ones that go before one another in a cycle. -/
def noisy : List Block :=
  [userBlock 1 2 60000 21000, userBlock 3 2 30000 21000, userBlock 2 1 22000 21000,
    userBlock 1 1 21500 21000, contractBlock .pillarContract .contractReceive 1,
    userBlock 3 1 21000 21000]

theorem privileged_content_iff_noisy :
    favouring.SamePrivileged calm noisy ∧
      favouring.goesBefore (userBlock 1 1 21500 21000) (userBlock 1 2 60000 21000) ∧
      favouring.goesBefore (userBlock 1 2 60000 21000) (userBlock 2 1 22000 21000) ∧
      favouring.goesBefore (userBlock 2 1 22000 21000) (userBlock 1 1 21500 21000) ∧
      ∃ blocks blocks', favouring.content calm = .ok blocks ∧
        favouring.content noisy = .ok blocks' ∧
        favouring.privileged blocks' = favouring.privileged blocks := by
  have hsame : favouring.SamePrivileged calm noisy := ⟨by decide, by decide⟩
  have hfits : favouring.market.PriceFits := by decide
  refine ⟨hsame, by decide, by decide, by decide, ?_⟩
  exact (privileged_content_iff favouring calm noisy hsame).1.mpr ⟨.inl hfits, .inl hfits⟩

/-- Rules with the lowest fusion price that is too high, and no priority addresses. -/
def dear : Rules where
  market := .withPrices 878416384462360 1000 .initial
  priority := .empty

/-- An ordinary block arrives, and a contract block that would be admitted is not. -/
theorem dear_arrival_breaks :
    dear.SamePrivileged [contractBlock .pillarContract .contractReceive 1]
        [contractBlock .pillarContract .contractReceive 1, userBlock 1 1 0 21000] ∧
      dear.content [contractBlock .pillarContract .contractReceive 1] =
        .ok [contractBlock .pillarContract .contractReceive 1] ∧
      dear.content [contractBlock .pillarContract .contractReceive 1, userBlock 1 1 0 21000] =
        .error .overflow := by
  refine ⟨⟨by decide, by decide⟩, ?_, ?_⟩
  · cbv
  · cbv

end Rules

end MomentumChain.Selection
