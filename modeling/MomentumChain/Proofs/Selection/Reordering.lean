import Mathlib
import MomentumChain.Proofs.Plasma.Rate
import MomentumChain.Proofs.Sort.Weak
import MomentumChain.Proofs.Selection.Content

/-!
# The order of arrival

Two nodes hold the same blocks, but ordinary blocks reach them in different orders
(`Rules.Reordered`).  Both select the same content, if no two of these blocks share an account
or a hash and all of them declare base plasma (`Rules.Distinct`).

Then one ordinary block outbids the other or is outbid by it (`Outbids`), so the relation
of priority is a strict weak order on the pool (`Rules.Distinct.strictWeak`).  Its levels are
the contract blocks, the blocks of priority addresses, and each ordinary block on its own
(`Rules.Distinct.level_iff`).  The two pools have the same levels, and the sort looks at
nothing else.
-/

namespace MomentumChain.Selection

/-- The first block pays at the higher rate, or at the same rate and has the larger hash. -/
def Outbids (market : Plasma.Market) (a b : Block) : Prop :=
  market.rate b < market.rate a ∨ market.rate a = market.rate b ∧ b.hash < a.hash

section

variable {market : Plasma.Market} {a b c : Block}

theorem Outbids.irrefl (market : Plasma.Market) (a : Block) : ¬ Outbids market a a := by
  rintro (hrate | ⟨_, hhash⟩)
  · exact lt_irrefl _ hrate
  · exact Hash.lt_irrefl _ hhash

theorem Outbids.trans (hab : Outbids market a b) (hbc : Outbids market b c) :
    Outbids market a c := by
  rcases hab with hab | ⟨hab, hhash⟩
  · rcases hbc with hbc | ⟨hbc, _⟩
    · exact .inl (lt_trans hbc hab)
    · exact .inl (hbc ▸ hab)
  · rcases hbc with hbc | ⟨hbc, hhash'⟩
    · exact .inl (hab ▸ hbc)
    · exact .inr ⟨hab.trans hbc, Hash.lt_trans hhash' hhash⟩

/-- Only the same hash is a tie. -/
theorem hash_eq_of_not_outbids (hab : ¬ Outbids market a b) (hba : ¬ Outbids market b a) :
    a.hash = b.hash := by
  have hrate : market.rate a = market.rate b :=
    le_antisymm (not_lt.mp fun h => hab (.inl h)) (not_lt.mp fun h => hba (.inl h))
  exact Hash.eq_of_not_lt (fun h => hba (.inr ⟨hrate.symm, h⟩)) fun h => hab (.inr ⟨hrate, h⟩)

end

namespace Rules

variable {rules : Rules} {pool pool' : List Block} {a b x : Block}

/-! ## Three classes of blocks -/

/-- The user blocks of priority addresses, in order. -/
def preferred (rules : Rules) (pool : List Block) : List Block :=
  (users pool).filter fun block => rules.priority.contains block.address

/-- All other user blocks, in order. -/
def ordinary (rules : Rules) (pool : List Block) : List Block :=
  (users pool).filter fun block => !rules.priority.contains block.address

/-- A pool is its three classes. -/
theorem classes_perm (rules : Rules) (pool : List Block) :
    (contracts pool ++ (rules.preferred pool ++ rules.ordinary pool)).Perm pool :=
  ((List.filter_append_perm _ (users pool)).append_left _).trans
    (List.filter_append_perm Block.isContract pool)

theorem rank_eq_zero_iff : rules.rank b.address = 0 ↔ b.isContract = true := by
  unfold rank Block.isContract
  cases b.address.isContract <;> cases rules.priority.contains b.address <;> simp

theorem rank_eq_one_iff : rules.rank b.address = 1 ↔
    (rules.priority.contains b.address && !b.isContract) = true := by
  unfold rank Block.isContract
  cases b.address.isContract <;> cases rules.priority.contains b.address <;> simp

theorem rank_eq_two_iff : rules.rank b.address = 2 ↔
    b.isContract = false ∧ rules.priority.contains b.address = false := by
  unfold rank Block.isContract
  cases b.address.isContract <;> cases rules.priority.contains b.address <;> simp

theorem mem_ordinary : b ∈ rules.ordinary pool ↔ b ∈ pool ∧ rules.rank b.address = 2 := by
  rw [ordinary, List.mem_filter, mem_users, rank_eq_two_iff, and_assoc, Bool.not_eq_true']

theorem rank_cases (rules : Rules) (address : Address) :
    rules.rank address = 0 ∨ rules.rank address = 1 ∨ rules.rank address = 2 := by
  unfold rank
  cases address.isContract <;> cases rules.priority.contains address <;> simp

/-! ## Priority as a strict weak order -/

/-- Contract blocks do not go before one another, nor do those of priority addresses. -/
theorem goesBefore_of_rank_eq (h : rules.rank a.address = rules.rank b.address)
    (hrank : rules.rank b.address < 2) : rules.goesBefore a b = false := by
  unfold rank at h hrank
  unfold goesBefore Block.isContract
  cases hb : b.address.isContract <;> cases ha : a.address.isContract <;>
    cases hpb : rules.priority.contains b.address <;>
    cases hpa : rules.priority.contains a.address <;> simp_all

/-- Of two ordinary blocks of different accounts the one goes first that outbids the other. -/
theorem goesBefore_iff_outbids (ha : rules.rank a.address = 2) (hb : rules.rank b.address = 2)
    (haddress : a.address ≠ b.address) (hbase : 0 < a.basePlasma) (hbase' : 0 < b.basePlasma) :
    rules.goesBefore a b = true ↔ Outbids rules.market a b := by
  obtain ⟨huser, hnone⟩ := rank_eq_two_iff.mp ha
  obtain ⟨huser', hnone'⟩ := rank_eq_two_iff.mp hb
  have hhigher : rules.market.compare a b = .higher ↔ rules.market.rate b < rules.market.rate a :=
    Plasma.Market.compare_eq_higher_iff_rate hbase hbase'
  have hsame : rules.market.compare a b = .same ↔ rules.market.rate a = rules.market.rate b :=
    Plasma.Market.compare_eq_same_iff_rate hbase hbase'
  rw [Outbids, ← hhigher, ← hsame, goesBefore, huser, huser', hnone, hnone', if_neg haddress]
  cases rules.market.compare a b with
  | higher => simp
  | same => simp
  | worse => simp

/-- The ordinary blocks of a pool belong to different accounts and have different hashes, and
each of them declares base plasma. -/
structure Distinct (rules : Rules) (pool : List Block) : Prop where
  addresses : ((rules.ordinary pool).map (·.address)).Nodup
  hashes : ((rules.ordinary pool).map (·.hash)).Nodup
  basePlasma : ∀ b ∈ rules.ordinary pool, 0 < b.basePlasma

namespace Distinct

variable (h : rules.Distinct pool)
include h

/-- The rank decides, and between ordinary blocks the bids. -/
theorem goesBefore_iff (ha : a ∈ pool) (hb : b ∈ pool) :
    rules.goesBefore a b = true ↔ rules.rank a.address < rules.rank b.address ∨
      rules.rank a.address = 2 ∧ rules.rank b.address = 2 ∧ Outbids rules.market a b := by
  rcases Nat.lt_trichotomy (rules.rank a.address) (rules.rank b.address) with hlt | heq | hgt
  · simp [goesBefore_of_rank_lt hlt, hlt]
  · rcases Nat.lt_or_ge (rules.rank b.address) 2 with hrank | hrank
    · have hne : rules.rank a.address ≠ 2 := by omega
      simp [goesBefore_of_rank_eq heq hrank, heq, Nat.ne_of_lt hrank]
    · have hb2 : rules.rank b.address = 2 := by
        have := rules.rank_cases b.address
        omega
      have ha2 : rules.rank a.address = 2 := heq.trans hb2
      have hord := mem_ordinary.mpr ⟨ha, ha2⟩
      have hord' := mem_ordinary.mpr ⟨hb, hb2⟩
      by_cases haddress : a.address = b.address
      · -- a block is alone in its account
        cases List.inj_on_of_nodup_map h.addresses hord hord' haddress
        simp [goesBefore, Outbids.irrefl]
      · rw [goesBefore_iff_outbids ha2 hb2 haddress (h.basePlasma a hord) (h.basePlasma b hord')]
        simp [ha2, hb2]
  · have hfalse := goesBefore_of_rank_gt hgt
    constructor
    · intro htrue
      rw [hfalse] at htrue
      cases htrue
    · rintro (hlt | ⟨ha2, hb2, _⟩)
      · omega
      · omega

/-- Blocks of one rank do not go before one another, unless they are two ordinary blocks. -/
theorem goesBefore_eq_false (ha : a ∈ pool) (hb : b ∈ pool)
    (hrank : rules.rank a.address = rules.rank b.address)
    (hsame : rules.rank a.address = 2 → a = b) : rules.goesBefore a b = false := by
  rw [← Bool.not_eq_true, h.goesBefore_iff ha hb]
  rintro (hlt | ⟨ha2, _, hbid⟩)
  · omega
  · rw [hsame ha2] at hbid
    exact Outbids.irrefl _ _ hbid

/-- The levels are the two classes in front and each ordinary block on its own. -/
theorem level_iff (ha : a ∈ pool) (hb : b ∈ pool) :
    Sort.level rules.goesBefore a b = true ↔
      rules.rank a.address = rules.rank b.address ∧ (rules.rank a.address = 2 → a = b) := by
  rw [Sort.level_iff]
  constructor
  · rintro ⟨hab, hba⟩
    rw [← Bool.not_eq_true, h.goesBefore_iff ha hb] at hab
    rw [← Bool.not_eq_true, h.goesBefore_iff hb ha] at hba
    have hrank : rules.rank a.address = rules.rank b.address :=
      Nat.le_antisymm (Nat.le_of_not_lt fun hlt => hba (.inl hlt))
        (Nat.le_of_not_lt fun hlt => hab (.inl hlt))
    constructor
    · exact hrank
    · intro ha2
      have hb2 : rules.rank b.address = 2 := hrank ▸ ha2
      have hhash : a.hash = b.hash := hash_eq_of_not_outbids
        (fun hbid => hab (.inr ⟨ha2, hb2, hbid⟩)) fun hbid => hba (.inr ⟨hb2, ha2, hbid⟩)
      exact List.inj_on_of_nodup_map h.hashes (mem_ordinary.mpr ⟨ha, ha2⟩)
        (mem_ordinary.mpr ⟨hb, hb2⟩) hhash
  · rintro ⟨hrank, hsame⟩
    constructor
    · exact h.goesBefore_eq_false ha hb hrank hsame
    · exact h.goesBefore_eq_false hb ha hrank.symm fun hb2 => (hsame (hrank.trans hb2)).symm

theorem strictWeak : Sort.StrictWeak (· ∈ pool) rules.goesBefore where
  irrefl ha := h.goesBefore_eq_false ha ha rfl fun _ => rfl
  trans {a b c} ha hb hc hab hbc := by
    rw [h.goesBefore_iff ha hb] at hab
    rw [h.goesBefore_iff hb hc] at hbc
    rw [h.goesBefore_iff ha hc]
    rcases hab with hab | ⟨ha2, hb2, hab⟩
    · rcases hbc with hbc | ⟨hb2, hc2, _⟩
      · exact .inl (Nat.lt_trans hab hbc)
      · exact .inl (by omega)
    · rcases hbc with hbc | ⟨_, hc2, hbc⟩
      · exact .inl (by omega)
      · exact .inr ⟨ha2, hc2, hab.trans hbc⟩
  level_trans {a b c} ha hb hc hab hbc := by
    obtain ⟨hrank, hsame⟩ := (h.level_iff ha hb).mp hab
    obtain ⟨hrank', hsame'⟩ := (h.level_iff hb hc).mp hbc
    rw [h.level_iff ha hc]
    constructor
    · exact hrank.trans hrank'
    · intro ha2
      exact (hsame ha2).trans (hsame' (hrank ▸ ha2))

end Distinct

/-! ## Pools that differ in their order -/

/-- The second pool has the same contract blocks and the same blocks of priority addresses in
the same order, and the same ordinary blocks in any order. -/
structure Reordered (rules : Rules) (pool pool' : List Block) : Prop where
  contracts : contracts pool' = contracts pool
  preferred : rules.preferred pool' = rules.preferred pool
  ordinary : (rules.ordinary pool').Perm (rules.ordinary pool)

theorem Reordered.perm (h : rules.Reordered pool pool') : pool'.Perm pool := by
  refine (rules.classes_perm pool').symm.trans (.trans ?_ (rules.classes_perm pool))
  rw [h.contracts, h.preferred]
  exact (h.ordinary.append_left _).append_left _

/-- Both pools have the same levels. -/
theorem Reordered.filter_level (h : rules.Reordered pool pool') (hdistinct : rules.Distinct pool)
    (hx : x ∈ pool) : pool'.filter (Sort.level rules.goesBefore x) =
      pool.filter (Sort.level rules.goesBefore x) := by
  -- a level is cut out of both pools by the same test
  have hboth (p : Block → Bool)
      (hp : ∀ b ∈ pool, Sort.level rules.goesBefore x b = true ↔ p b = true)
      (hfilter : pool'.filter p = pool.filter p) :
      pool'.filter (Sort.level rules.goesBefore x) =
        pool.filter (Sort.level rules.goesBefore x) := by
    have hp' : ∀ b ∈ pool, Sort.level rules.goesBefore x b = p b := fun b hb =>
      Bool.eq_iff_iff.mpr (hp b hb)
    rw [List.filter_congr fun b hb => hp' b (h.perm.mem_iff.mp hb), hfilter,
      List.filter_congr hp']
  rcases rules.rank_cases x.address with hx0 | hx1 | hx2
  · apply hboth Block.isContract
    · intro b hb
      have hrank : rules.rank b.address = 0 ↔ b.isContract = true := rank_eq_zero_iff
      rw [hdistinct.level_iff hx hb, hx0, ← hrank]
      simp [eq_comm]
    · exact h.contracts
  · apply hboth fun b => rules.priority.contains b.address && !b.isContract
    · intro b hb
      rw [hdistinct.level_iff hx hb, hx1, ← rank_eq_one_iff]
      simp [eq_comm]
    · rw [← List.filter_filter, ← List.filter_filter]
      exact h.preferred
  · apply hboth (· == x)
    · intro b hb
      rw [hdistinct.level_iff hx hb, beq_iff_eq]
      constructor
      · rintro ⟨_, hsame⟩
        exact (hsame hx2).symm
      · rintro rfl
        exact ⟨rfl, fun _ => rfl⟩
    · rw [List.filter_beq, List.filter_beq, h.perm.count_eq]

/-- The order in which ordinary blocks arrive has no influence on the order of priority, and
none on the content. -/
theorem ordinary_arrival_irrelevant (rules : Rules) (pool pool' : List Block)
    (h : rules.Reordered pool pool') (hdistinct : rules.Distinct pool) :
    rules.order pool' = rules.order pool ∧ rules.content pool' = rules.content pool := by
  have hmem : ∀ b ∈ pool', b ∈ pool := fun b hb => h.perm.mem_iff.mp hb
  have hsort : Sort.stableSort rules.goesBefore pool' = Sort.stableSort rules.goesBefore pool :=
    hdistinct.strictWeak.stableSort_congr (fun _ hb => hb) hmem fun x hx =>
      h.filter_level hdistinct hx
  have horder : rules.order pool' = rules.order pool := congrArg restoreHeights hsort
  exact ⟨horder, congrArg (accept rules.market) horder⟩

/-- Rules that favour the third account. -/
def favouring : Rules := { plain 105000 with priority := .ofList [userAccount 3] }

/-- Ordinary blocks of three accounts, two of which pay at the same rate. -/
def early : List Block :=
  [userBlock 1 1 30000 21000, contractBlock .pillarContract .contractReceive 1,
    userBlock 3 1 21000 21000, userBlock 2 1 40000 21000, userBlock 4 1 60000 42000]

/-- The same blocks.  The ordinary ones arrive the other way round. -/
def late : List Block :=
  [userBlock 4 1 60000 42000, userBlock 2 1 40000 21000,
    contractBlock .pillarContract .contractReceive 1, userBlock 1 1 30000 21000,
    userBlock 3 1 21000 21000]

theorem ordinary_arrival_irrelevant_late :
    favouring.Reordered early late ∧ favouring.Distinct early ∧
      favouring.content late = .ok [contractBlock .pillarContract .contractReceive 1,
        userBlock 3 1 21000 21000, userBlock 2 1 40000 21000, userBlock 4 1 60000 42000,
        userBlock 1 1 30000 21000] := by
  have hreordered : favouring.Reordered early late := ⟨by decide, by decide, by decide⟩
  have hdistinct : favouring.Distinct early := ⟨by decide, by decide, by decide⟩
  refine ⟨hreordered, hdistinct, ?_⟩
  rw [(ordinary_arrival_irrelevant favouring early late hreordered hdistinct).2]
  cbv

end Rules

end MomentumChain.Selection
