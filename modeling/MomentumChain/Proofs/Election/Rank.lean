import MomentumChain.Election.Producers
import Mathlib.Data.List.Perm.Basic

/-!
# Candidates by rank

Rank is a total preorder on candidates.  Two candidates that are each ranked no lower than the
other have the same weight and the same name.  If no two different candidates of a list share
both, there is a single list by rank for all orders in which the candidates are given
(`Delegation.byRank_congr`).

The shuffle starts from the list by rank, and everything else in an election depends on the number
of candidates only.  So an election does not depend on the order of its candidates
(`electWithin_perm`).
-/

namespace MomentumChain.Election

namespace Delegation

/-! ## Rank -/

theorem ranksBefore_iff {a b : Delegation} : ranksBefore a b = true ↔
    b.weight.toNat < a.weight.toNat ∨ a.weight = b.weight ∧ ¬ b.name < a.name := by
  simp only [ranksBefore, Bool.or_eq_true, decide_eq_true_eq, Bool.and_eq_true,
    Bool.not_eq_true', decide_eq_false_iff_not]

theorem ranksBefore_total (a b : Delegation) : (ranksBefore a b || ranksBefore b a) = true := by
  rw [Bool.or_eq_true, ranksBefore_iff, ranksBefore_iff]
  rcases Nat.lt_trichotomy a.weight.toNat b.weight.toNat with hlt | heq | hgt
  · exact .inr (.inl hlt)
  · have hweight := Amount.toNat_inj.mp heq
    by_cases hname : b.name < a.name
    · exact .inr (.inr ⟨hweight.symm, String.lt_asymm hname⟩)
    · exact .inl (.inr ⟨hweight, hname⟩)
  · exact .inl (.inl hgt)

theorem ranksBefore_trans (a b c : Delegation) (hab : ranksBefore a b = true)
    (hbc : ranksBefore b c = true) : ranksBefore a c = true := by
  rw [ranksBefore_iff] at hab hbc ⊢
  rcases hab with hab | ⟨hab, hnames⟩
  · rcases hbc with hbc | ⟨hbc, _⟩
    · exact .inl (Nat.lt_trans hbc hab)
    · exact .inl (hbc ▸ hab)
  · rcases hbc with hbc | ⟨hbc, hlater⟩
    · exact .inl (hab ▸ hbc)
    · have hle := String.le_trans (String.not_lt.mp hnames) (String.not_lt.mp hlater)
      exact .inr ⟨hab.trans hbc, String.not_lt.mpr hle⟩

/-- Candidates of one rank have one weight and one name. -/
theorem eq_of_ranksBefore {a b : Delegation} (hab : ranksBefore a b = true)
    (hba : ranksBefore b a = true) : a.weight = b.weight ∧ a.name = b.name := by
  rw [ranksBefore_iff] at hab hba
  rcases hab with hab | ⟨hab, hnames⟩
  · rcases hba with hba | ⟨hba, _⟩
    · exact absurd hab (Nat.lt_asymm hba)
    · exact absurd (hba ▸ hab) (Nat.lt_irrefl _)
  · rcases hba with hba | ⟨_, hback⟩
    · exact absurd (hab ▸ hba) (Nat.lt_irrefl _)
    · exact ⟨hab, String.le_antisymm (String.not_lt.mp hnames) (String.not_lt.mp hback)⟩

/-! ## Lists by rank -/

theorem byRank_perm (candidates : List Delegation) : (byRank candidates).Perm candidates :=
  List.mergeSort_perm candidates _

theorem byRank_ranked (candidates : List Delegation) :
    (byRank candidates).Pairwise fun a b => ranksBefore a b = true :=
  List.pairwise_mergeSort ranksBefore_trans ranksBefore_total candidates

/-- The candidates by rank are the candidates at some order of their places. -/
theorem exists_byRank_eq_map (candidates : List Delegation) :
    ∃ ranks : List (Fin candidates.length), ranks.Perm (List.finRange candidates.length) ∧
      byRank candidates = ranks.map candidates.get := by
  refine ⟨(List.finRange candidates.length).mergeSort fun i j =>
    ranksBefore (candidates.get i) (candidates.get j), List.mergeSort_perm .., ?_⟩
  rw [List.map_mergeSort (s := ranksBefore) fun _ _ _ _ => rfl, List.map_get_finRange]
  rfl

/-- No two different candidates share weight and name. -/
def DistinctRanks (candidates : List Delegation) : Prop :=
  ∀ a ∈ candidates, ∀ b ∈ candidates, a.weight = b.weight → a.name = b.name → a = b

/-- A list by rank does not depend on the order of the candidates. -/
theorem byRank_congr {candidates others : List Delegation} (hperm : candidates.Perm others)
    (hdistinct : DistinctRanks candidates) : byRank candidates = byRank others := by
  have hboth : (byRank candidates).Perm (byRank others) :=
    (byRank_perm candidates).trans (hperm.trans (byRank_perm others).symm)
  refine List.Perm.eq_of_pairwise (fun a b ha hb hab hba => ?_) (byRank_ranked candidates)
    (byRank_ranked others) hboth
  obtain ⟨hweight, hname⟩ := eq_of_ranksBefore hab hba
  have ha := (byRank_perm candidates).mem_iff.mp ha
  have hb := hperm.mem_iff.mpr ((byRank_perm others).mem_iff.mp hb)
  exact hdistinct a ha b hb hweight hname

end Delegation

/-! ## Elections -/

/-- Candidates in another order have the same outcome, in every tick and with every seed, however
many numbers a draw may try. -/
theorem electWithin_perm {candidates others : List Delegation} (hperm : candidates.Perm others)
    (hdistinct : Delegation.DistinctRanks candidates) (limit slots : Nat) (seed : UInt64) :
    electWithin limit candidates slots seed = electWithin limit others slots seed := by
  have hempty : candidates.isEmpty = others.isEmpty := by
    rw [Bool.eq_iff_iff, List.isEmpty_iff, List.isEmpty_iff]
    exact ⟨fun h => (h ▸ hperm).symm.eq_nil, fun h => (h ▸ hperm).eq_nil⟩
  rw [electWithin, electWithin, hempty, hperm.length_eq, Delegation.byRank_congr hperm hdistinct]

/-! ## Rivals -/

/-- A candidate with a number in its address. -/
def Delegation.numbered (name : String) (weight : Nat) (number : UInt8) : Delegation :=
  ⟨name, .contract number, .ofNat weight⟩

/-- Two candidates of one weight, two of one name, and one that is listed twice. -/
def rivals : List Delegation :=
  [.numbered "b" 5 1, .numbered "a" 5 2, .numbered "b" 7 3, .numbered "a" 5 2]

theorem electWithin_perm_rivals :
    rivals.Perm rivals.reverse ∧
      Delegation.DistinctRanks rivals ∧
      elect rivals 30 7 = elect rivals.reverse 30 7 := by
  have hperm : rivals.Perm rivals.reverse := (List.reverse_perm _).symm
  have hdistinct : Delegation.DistinctRanks rivals := by
    unfold Delegation.DistinctRanks
    decide
  exact ⟨hperm, hdistinct, electWithin_perm hperm hdistinct drawLimit 30 7⟩

end MomentumChain.Election
