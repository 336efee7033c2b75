import Mathlib
import MomentumChain.Proofs.Selection.Limits

/-!
# Heights of admitted blocks

A content admits every account from below.  `content_no_gaps` says so for every
pool: with a user block it admits all lower blocks of that account, and the blocks
of each account ascend.

They need not ascend strictly.  Two blocks of one account with one height can both
be waiting, and nothing in the selection keeps the second one out.
`checkHeights_content_iff` says that this is the only way in which the heights of
a content are refused: a round fails if and only if it has admitted two blocks for
one place of a chain.
-/

namespace MomentumChain.Selection

/-! ## The check of the heights -/

theorem lookup_cons_self {a : Address} {h : UInt64} {last : List (Address × UInt64)} :
    ((a, h) :: last).lookup a = some h := by simp [List.lookup]

theorem lookup_cons_of_ne {a a' : Address} (hne : a' ≠ a) {h : UInt64}
    {last : List (Address × UInt64)} : ((a, h) :: last).lookup a' = last.lookup a' := by
  rw [List.lookup, beq_false_of_ne hne]

theorem exists_of_lookup {a : Address} {h : UInt64} : ∀ {seen : List Block},
    (seen.map fun b => (b.address, b.height)).lookup a = some h →
      ∃ b ∈ seen, b.address = a ∧ b.height = h
  | [], hlookup => nomatch hlookup
  | b :: seen, hlookup => by
      by_cases ha : a = b.address
      · rw [ha, List.map_cons, lookup_cons_self] at hlookup
        cases hlookup
        exact ⟨b, List.mem_cons_self .., ha.symm, rfl⟩
      · rw [List.map_cons, lookup_cons_of_ne ha] at hlookup
        obtain ⟨c, hc, hplace⟩ := exists_of_lookup hlookup
        exact ⟨c, List.mem_cons_of_mem _ hc, hplace⟩

/-- The blocks lie above the latest heights of their accounts. -/
def Above (last : List (Address × UInt64)) (blocks : List Block) : Prop :=
  ∀ b ∈ blocks, ∀ h, last.lookup b.address = some h → h < b.height

theorem above_nil (blocks : List Block) : Above [] blocks := fun _ _ _ h => nomatch h

/-- The check passes on one block and goes on above it. -/
theorem above_cons {last : List (Address × UInt64)} {b : Block} {rest : List Block}
    (hb : ∀ h, last.lookup b.address = some h → h < b.height) :
    Above ((b.address, b.height) :: last) rest ↔
      Above last rest ∧ ∀ c ∈ rest, b.address = c.address → b.height < c.height := by
  constructor
  · intro habove
    refine ⟨fun c hc h hlast => ?_, fun c hc heq => ?_⟩
    · by_cases heq : c.address = b.address
      · have hlt := habove c hc b.height (heq ▸ lookup_cons_self)
        exact UInt64.lt_trans (hb h (heq ▸ hlast)) hlt
      · exact habove c hc h ((lookup_cons_of_ne heq).trans hlast)
    · exact habove c hc b.height (heq ▸ lookup_cons_self)
  · rintro ⟨habove, hlater⟩ c hc h hlast
    by_cases heq : c.address = b.address
    · rw [heq, lookup_cons_self] at hlast
      cases hlast
      exact hlater c hc heq.symm
    · rw [lookup_cons_of_ne heq] at hlast
      exact habove c hc h hlast

/-- The blocks of each account ascend strictly. -/
def StrictlyAscends (blocks : List Block) : Prop :=
  blocks.Pairwise fun b c => b.address = c.address → b.height < c.height

/-- No two blocks claim one height of one account. -/
def DistinctPlaces (blocks : List Block) : Prop :=
  (blocks.map fun b => (b.address, b.height)).Nodup

instance (blocks : List Block) : Decidable (DistinctPlaces blocks) :=
  inferInstanceAs (Decidable (List.Nodup _))

/-- Blocks that ascend do so strictly if their places differ. -/
theorem strictlyAscends_iff {blocks : List Block}
    (h : blocks.Pairwise fun b c => b.address = c.address → b.height ≤ c.height) :
    StrictlyAscends blocks ↔ DistinctPlaces blocks := by
  rw [DistinctPlaces, List.Nodup, List.pairwise_map]
  constructor
  · intro hstrict
    refine hstrict.imp fun {b c} hlt heq => ?_
    simp only [Prod.mk.injEq] at heq
    exact UInt64.ne_of_lt (hlt heq.1) heq.2
  · intro hnodup
    refine (h.and hnodup).imp fun {b c} hbc haddress => ?_
    obtain ⟨hle, hne⟩ := hbc
    refine UInt64.lt_of_le_of_ne (hle haddress) fun hheight => hne ?_
    rw [haddress, hheight]

theorem checkHeightsFrom_eq_ok_iff {last : List (Address × UInt64)} {blocks : List Block} :
    checkHeightsFrom last blocks = .ok () ↔ Above last blocks ∧ StrictlyAscends blocks := by
  induction blocks generalizing last with
  | nil =>
      constructor
      · intro _
        exact ⟨fun b hb => absurd hb (by simp), .nil⟩
      · intro _
        rfl
  | cons b rest ih =>
      -- the block takes the place of the latest of its account
      have hstep : (∀ h, last.lookup b.address = some h → h < b.height) →
          checkHeightsFrom last (b :: rest) =
            checkHeightsFrom ((b.address, b.height) :: last) rest := by
        intro hb
        rw [checkHeightsFrom]
        cases hlast : last.lookup b.address with
        | none => rfl
        | some h => exact if_neg (UInt64.not_le.mpr (hb h hlast))
      constructor
      · intro hok
        have hb : ∀ h, last.lookup b.address = some h → h < b.height := by
          intro h hlast
          rw [checkHeightsFrom, hlast] at hok
          refine UInt64.not_le.mp fun hle => ?_
          simp only [if_pos hle] at hok
          cases hok
        rw [hstep hb, ih, above_cons hb] at hok
        obtain ⟨⟨habove, hlater⟩, hasc⟩ := hok
        refine ⟨fun c hc => ?_, List.pairwise_cons.mpr ⟨hlater, hasc⟩⟩
        rcases List.mem_cons.mp hc with rfl | hc
        · exact hb
        · exact habove c hc
      · rintro ⟨habove, hasc⟩
        have hb := habove b (List.mem_cons_self ..)
        obtain ⟨hlater, hasc⟩ := List.pairwise_cons.mp hasc
        rw [hstep hb, ih, above_cons hb]
        exact ⟨⟨fun c hc => habove c (List.mem_cons_of_mem _ hc), hlater⟩, hasc⟩

theorem checkHeights_eq_ok_iff {blocks : List Block} :
    checkHeights blocks = .ok () ↔ StrictlyAscends blocks :=
  checkHeightsFrom_eq_ok_iff.trans (and_iff_right (above_nil blocks))

/-- Where blocks ascend, the check fails at two blocks of one account and one height.
`seen` holds the blocks before, newest first. -/
theorem checkHeightsFrom_eq_error {v : Violation} : ∀ {seen blocks : List Block},
    ((seen.reverse ++ blocks).Pairwise fun b c => b.address = c.address → b.height ≤ c.height) →
    checkHeightsFrom (seen.map fun b => (b.address, b.height)) blocks = .error v →
    ∃ b c, [b, c].Sublist (seen.reverse ++ blocks) ∧ b.address = c.address ∧
      b.height = c.height ∧ v = .heightOrder c.address c.height c.height
  | seen, [], _, h => nomatch h
  | seen, c :: rest, hasc, h => by
      have hnext : (c :: seen).reverse ++ rest = seen.reverse ++ c :: rest := by simp
      rw [checkHeightsFrom] at h
      cases hlast : (seen.map fun b => (b.address, b.height)).lookup c.address with
      | none =>
          rw [hlast] at h
          rw [← hnext] at hasc ⊢
          exact checkHeightsFrom_eq_error hasc h
      | some previous =>
          simp only [hlast] at h
          split at h
          · rename_i hle
            obtain ⟨b, hb, haddress, hheight⟩ := exists_of_lookup hlast
            have hb : b ∈ seen.reverse := List.mem_reverse.mpr hb
            have hge := (List.pairwise_append.mp hasc).2.2 b hb c (List.mem_cons_self ..) haddress
            have heq : b.height = c.height := UInt64.le_antisymm hge (hheight ▸ hle)
            refine ⟨b, c, ?_, haddress, heq, ?_⟩
            · exact (List.singleton_sublist.mpr hb).append
                (List.singleton_sublist.mpr (List.mem_cons_self ..))
            · rw [← hheight, heq] at h
              cases h
              rfl
          · rw [← hnext] at hasc ⊢
            exact checkHeightsFrom_eq_error hasc h

/-! ## Heights of a content -/

namespace Rules

variable {rules : Rules} {pool blocks : List Block}

theorem content_ascends (h : rules.content pool = .ok blocks) :
    blocks.Pairwise fun b c => b.address = c.address → b.height ≤ c.height :=
  (rules.order_ascends pool).sublist (content_sublist h)

/-- With a user block a content has every copy of each lower block of its account. -/
theorem count_content_of_lower (h : rules.content pool = .ok blocks) {b c : Block}
    (hb : b ∈ blocks) (huser : b.isContract = false) (haddress : c.address = b.address)
    (hlower : c.height < b.height) : blocks.count c = pool.count c := by
  obtain ⟨⟨rest, hrest⟩, _⟩ := users_content_longest h
  have hcuser : c.isContract = false := (isContract_congr haddress).trans huser
  have hb : b ∈ users blocks := mem_users.mpr ⟨hb, huser⟩
  -- behind the admitted blocks there is none below them
  have hnone : c ∉ rest := by
    intro hc
    have hasc := (rules.order_ascends pool).sublist (List.filter_sublist (p := (!·.isContract)))
    rw [← users, ← hrest] at hasc
    have hle := (List.pairwise_append.mp hasc).2.2 b hb c hc haddress.symm
    exact absurd hlower (UInt64.not_lt.mpr hle)
  calc blocks.count c
      = (users blocks).count c := (List.count_filter (by simp [hcuser])).symm
    _ = (users (rules.order pool)).count c := by
        rw [← hrest, List.count_append, List.count_eq_zero.mpr hnone, Nat.add_zero]
    _ = (rules.order pool).count c := List.count_filter (by simp [hcuser])
    _ = pool.count c := (rules.order_perm pool).count_eq c

/-- There is a content for every pool unless the price cannot be told.  A content
admits every account from below, keeps the blocks of each account in order of
height, and admits the longest prefix of the user blocks that is affordable. -/
theorem content_no_gaps (rules : Rules) (pool : List Block) :
    ((∃ blocks, rules.content pool = .ok blocks) ↔ rules.Priceable pool) ∧
      ∀ blocks, rules.content pool = .ok blocks →
        (∀ b ∈ blocks, b.isContract = false → ∀ c, c.address = b.address →
            c.height < b.height → blocks.count c = pool.count c) ∧
          (blocks.Pairwise fun b c => b.address = c.address → b.height ≤ c.height) ∧
          LongestPrefix (AffordableFrom rules.market 0) (users (rules.order pool))
            (users blocks) := by
  refine ⟨content_isOk_iff, fun blocks h => ⟨?_, content_ascends h, users_content_longest h⟩⟩
  intro b hb huser c haddress hlower
  exact count_content_of_lower h hb huser haddress hlower

/-- A cheap block below a dear one of its account, and other accounts between them
in price. -/
def climbing : List Block :=
  [userBlock 1 2 60000 21000, userBlock 2 1 22000 21000, userBlock 3 1 30000 21000,
    userBlock 1 1 21500 21000]

/-- The cheap block takes the place of the dear one, which comes last. -/
def climbed : List Block :=
  [userBlock 1 1 21500 21000, userBlock 3 1 30000 21000, userBlock 2 1 22000 21000,
    userBlock 1 2 60000 21000]

theorem content_no_gaps_climbing :
    (plain 84000).content climbing = .ok climbed ∧
      (∀ c, c.address = userAccount 1 → c.height < 2 → climbed.count c = climbing.count c) ∧
      LongestPrefix (AffordableFrom (plain 84000).market 0) (users ((plain 84000).order climbing))
        climbed := by
  have h : (plain 84000).content climbing = .ok climbed := by cbv
  have husers : users climbed = climbed := by cbv
  have hmem : userBlock 1 2 60000 21000 ∈ climbed := by simp [climbed]
  obtain ⟨hcount, _, hlongest⟩ := (content_no_gaps (plain 84000) climbing).2 climbed h
  rw [husers] at hlongest
  exact ⟨h, hcount _ hmem (by cbv), hlongest⟩

/-- Where no two waiting blocks claim one place, the heights of a content pass. -/
theorem checkHeights_content_of_distinctPlaces (hplaces : DistinctPlaces pool)
    (h : rules.content pool = .ok blocks) : checkHeights blocks = .ok () := by
  refine checkHeights_eq_ok_iff.mpr ((strictlyAscends_iff (content_ascends h)).mpr ?_)
  have horder : DistinctPlaces (rules.order pool) :=
    (((rules.order_perm pool).map _).nodup_iff).mpr hplaces
  exact horder.sublist ((content_sublist h).map _)

/-- A content passes the check of the heights exactly if no two of its blocks claim
one height of one account.  Nothing else that is in the pool ends a round. -/
theorem checkHeights_content_iff (rules : Rules) (pool : List Block) :
    ((∃ blocks, rules.content pool = .ok blocks ∧ checkHeights blocks = .ok ()) ↔
      rules.Priceable pool ∧
        ∀ blocks, rules.content pool = .ok blocks → DistinctPlaces blocks) ∧
      ∀ blocks violation, rules.content pool = .ok blocks →
        checkLimits blocks rules.market.budget rules.market.contractCap = .error violation →
        ∃ b c, [b, c].Sublist blocks ∧ b.address = c.address ∧ b.height = c.height ∧
          violation = .heightOrder c.address c.height c.height := by
  refine ⟨⟨?_, ?_⟩, fun blocks violation h hlimits => ?_⟩
  · rintro ⟨blocks, h, hheights⟩
    refine ⟨content_isOk_iff.mp ⟨blocks, h⟩, fun blocks' h' => ?_⟩
    rw [h] at h'
    cases h'
    exact (strictlyAscends_iff (content_ascends h)).mp (checkHeights_eq_ok_iff.mp hheights)
  · rintro ⟨hprice, hnodup⟩
    obtain ⟨blocks, h⟩ := content_isOk_iff.mpr hprice
    refine ⟨blocks, h, checkHeights_eq_ok_iff.mpr ?_⟩
    exact (strictlyAscends_iff (content_ascends h)).mpr (hnodup blocks h)
  · rw [checkLimits_content h] at hlimits
    exact @checkHeightsFrom_eq_error violation [] blocks (content_ascends h) hlimits

theorem checkHeights_content_climbing :
    (plain 84000).Priceable climbing ∧ DistinctPlaces climbed ∧
      ∃ blocks, (plain 84000).content climbing = .ok blocks ∧ checkHeights blocks = .ok () := by
  have hprice : (plain 84000).Priceable climbing := .inl (by decide)
  have hplaces : DistinctPlaces climbed := by decide
  have h : (plain 84000).content climbing = .ok climbed := by cbv
  refine ⟨hprice, hplaces, (checkHeights_content_iff _ climbing).1.mpr ⟨hprice, ?_⟩⟩
  intro blocks h'
  rw [h] at h'
  cases h'
  exact hplaces

/-- Two blocks for one place. -/
def conflicting : List Block :=
  [userBlock 1 1 21000 21000, { userBlock 1 1 42000 21000 with hash := plainHash 1 2 }]

/-- Both are admitted, and the round fails. -/
theorem conflicting_refused :
    (plain 105000).content conflicting = .ok conflicting ∧
      checkHeights conflicting = .error (.heightOrder (userAccount 1) 1 1) := by
  constructor
  · cbv
  · cbv

end Rules

end MomentumChain.Selection
