import Mathlib
import MomentumChain.Proofs.Selection.Content

/-!
# Limits of a round

The pass keeps both limits of a round, the cap on contract blocks and the budget
of user blocks, and it does so for candidates in any order.  A batch may then stay
open while user blocks are admitted, and sends of several contracts may wait in
it.

The invariant is `Tally.Within`.  A step of the pass keeps it and counts exactly
what it admits: the contract blocks when a batch is flushed, and the base plasma
of a user block with that block.  The sum that breaks the budget is counted too,
but the pass ends with it.  The running sum saturates.  Below the largest word a
budget is never reached that way, so the sum is exact as long as the pass goes on.

`accept_within_limits` draws the conclusion for a whole pass, and for contents.
-/

namespace MomentumChain.Selection

/-- Base plasma that the user blocks ask for. -/
def demand (blocks : List Block) : Nat := ((users blocks).map (·.basePlasma.toNat)).sum

theorem users_append (front back : List Block) :
    users (front ++ back) = users front ++ users back := List.filter_append ..

theorem users_of_contracts {blocks : List Block} (h : ∀ b ∈ blocks, b.isContract = true) :
    users blocks = [] := List.filter_eq_nil_iff.mpr (by simpa using h)

theorem contractCount_append (front back : List Block) :
    contractCount (front ++ back) = contractCount front + contractCount back := by
  simp [contractCount]

theorem contractCount_of_contracts {blocks : List Block} (h : ∀ b ∈ blocks, b.isContract = true) :
    contractCount blocks = blocks.length := List.countP_eq_length.mpr h

/-! ## One step of the pass -/

section

variable {market : Plasma.Market} {tally next : Tally} {b : Block} {now : List Block}

/-- The step of the pass at a candidate at which it does not end: what it admits, and
the state in which it goes on. -/
inductive Tally.Step (market : Plasma.Market) (tally : Tally) (b : Block) :
    List Block → Tally → Prop where
  | hold (contract : b.isContract = true) (send : b.kind = .contractSend) :
      Step market tally b [] { tally with batch := tally.batch ++ [b] }
  | drop (contract : b.isContract = true) (closes : b.kind ≠ .contractSend)
      (full : market.contractCap < (tally.batch ++ [b]).length + tally.contracts) :
      Step market tally b [] { tally with batch := [] }
  | flush (contract : b.isContract = true) (closes : b.kind ≠ .contractSend)
      (fits : (tally.batch ++ [b]).length + tally.contracts ≤ market.contractCap) :
      Step market tally b (tally.batch ++ [b])
        { tally with batch := [], contracts := tally.contracts + (tally.batch ++ [b]).length }
  | spend (user : b.isContract = false)
      (fits : Word.satAdd tally.used b.basePlasma ≤ market.budget)
      (pays : market.paysEnough b = .ok true) :
      Step market tally b [b] { tally with used := Word.satAdd tally.used b.basePlasma }

/-- A pass ends at a user block, or goes on after a step. -/
theorem acceptFrom_cons_eq_ok {rest admitted : List Block}
    (h : acceptFrom market tally (b :: rest) = .ok admitted) :
    (b.isContract = false ∧ admitted = []) ∨
      ∃ now next later, tally.Step market b now next ∧ acceptFrom market next rest = .ok later ∧
        admitted = now ++ later := by
  rw [acceptFrom] at h
  cases hcontract : b.isContract with
  | true =>
      right
      rw [hcontract, if_pos rfl] at h
      by_cases hsend : b.kind = .contractSend
      · rw [if_pos hsend] at h
        exact ⟨_, _, _, .hold hcontract hsend, h, rfl⟩
      · rw [if_neg hsend] at h
        by_cases hfull : market.contractCap < (tally.batch ++ [b]).length + tally.contracts
        · rw [if_pos hfull] at h
          exact ⟨_, _, _, .drop hcontract hsend hfull, h, rfl⟩
        · rw [if_neg hfull] at h
          cases hlater : acceptFrom market
              { tally with batch := [], contracts := tally.contracts + (tally.batch ++ [b]).length }
              rest with
          | error fault =>
              rw [hlater] at h
              cases h
          | ok later =>
              rw [hlater] at h
              cases h
              exact ⟨_, _, _, .flush hcontract hsend (Nat.le_of_not_lt hfull), hlater, rfl⟩
  | false =>
      rw [hcontract, if_neg Bool.false_ne_true] at h
      by_cases hlt : market.budget < Word.satAdd tally.used b.basePlasma
      · simp only [if_pos hlt] at h
        cases h
        exact .inl ⟨rfl, rfl⟩
      · simp only [if_neg hlt] at h
        cases hpays : market.paysEnough b with
        | error fault =>
            rw [hpays] at h
            cases h
        | ok answer =>
            cases answer with
            | false =>
                rw [hpays] at h
                cases h
                exact .inl ⟨rfl, rfl⟩
            | true =>
                cases hlater : acceptFrom market
                    { tally with used := Word.satAdd tally.used b.basePlasma } rest with
                | error fault =>
                    simp only [hpays, hlater] at h
                    cases h
                | ok later =>
                    simp only [hpays, hlater] at h
                    cases h
                    exact .inr ⟨_, _, _, .spend hcontract (UInt64.not_lt.mp hlt) hpays, hlater, rfl⟩

/-- The counters are within the limits, and only contract blocks are held back. -/
structure Tally.Within (market : Plasma.Market) (tally : Tally) : Prop where
  batch : ∀ b ∈ tally.batch, b.isContract = true
  contracts : tally.contracts ≤ market.contractCap
  used : tally.used ≤ market.budget

theorem Tally.Within.start (market : Plasma.Market) : Tally.Within market {} where
  batch := by simp
  contracts := Nat.zero_le _
  used := UInt64.zero_le

theorem Tally.Within.held (h : tally.Within market) (hb : b.isContract = true) :
    ∀ c ∈ tally.batch ++ [b], c.isContract = true := by
  intro c hc
  rcases List.mem_append.mp hc with hc | hc
  · exact h.batch c hc
  · rw [List.mem_singleton.mp hc]
    exact hb

/-- A step keeps the counters within the limits. -/
theorem Tally.Within.step (h : tally.Within market) (hstep : tally.Step market b now next) :
    next.Within market := by
  cases hstep with
  | hold contract _ => exact ⟨h.held contract, h.contracts, h.used⟩
  | drop _ _ _ => exact ⟨by simp, h.contracts, h.used⟩
  | flush _ _ fits => exact ⟨by simp, by simpa [Nat.add_comm] using fits, h.used⟩
  | spend _ fits _ => exact ⟨h.batch, h.contracts, fits⟩

/-- A step counts the contract blocks that it admits. -/
theorem Tally.Step.contracts_eq (h : tally.Within market) (hstep : tally.Step market b now next) :
    next.contracts = tally.contracts + contractCount now := by
  cases hstep with
  | hold _ _ => rfl
  | drop _ _ _ => rfl
  | flush contract _ _ => rw [contractCount_of_contracts (h.held contract)]
  | spend user _ _ => simp [contractCount, user]

/-- A step counts the base plasma of the user blocks that it admits. -/
theorem Tally.Step.used_eq (h : tally.Within market) (hstep : tally.Step market b now next) :
    next.used = (users now).foldl (fun used c => Word.satAdd used c.basePlasma) tally.used := by
  cases hstep with
  | hold _ _ => rfl
  | drop _ _ _ => rfl
  | flush contract _ _ => rw [users_of_contracts (h.held contract), List.foldl_nil]
  | spend user _ _ => simp [users, user]

/-! ## A whole pass -/

/-- From within the limits a pass stays within them, whatever the candidates are. -/
theorem acceptFrom_within {candidates admitted : List Block} (hw : tally.Within market)
    (h : acceptFrom market tally candidates = .ok admitted) :
    tally.contracts + contractCount admitted ≤ market.contractCap ∧
      (users admitted).foldl (fun used c => Word.satAdd used c.basePlasma) tally.used
        ≤ market.budget := by
  induction candidates generalizing tally admitted with
  | nil =>
      cases h
      exact ⟨hw.contracts, hw.used⟩
  | cons b rest ih =>
      rcases acceptFrom_cons_eq_ok h with ⟨_, rfl⟩ | ⟨now, next, later, hstep, hlater, rfl⟩
      · exact ⟨hw.contracts, hw.used⟩
      · obtain ⟨hcontracts, hused⟩ := ih (hw.step hstep) hlater
        constructor
        · rw [hstep.contracts_eq hw] at hcontracts
          rw [contractCount_append]
          omega
        · rw [hstep.used_eq hw, ← List.foldl_append] at hused
          rwa [users_append]

/-- A pass has a result if the pass over its user blocks alone has one. -/
theorem acceptFrom_isOk_iff {candidates : List Block} :
    (∃ admitted, acceptFrom market tally candidates = .ok admitted) ↔
      ∃ admitted, acceptUsers market tally.used (users candidates) = .ok admitted := by
  -- what is admitted by a step has no part in whether there is a result
  have hmap (now : List Block) (later : Checked (List Block)) :
      (∃ admitted, (now ++ ·) <$> later = .ok admitted) ↔ ∃ admitted, later = .ok admitted := by
    cases later with
    | error fault => simp
    | ok later => simp
  induction candidates generalizing tally with
  | nil => exact ⟨fun _ => ⟨[], rfl⟩, fun _ => ⟨[], rfl⟩⟩
  | cons b rest ih =>
      rw [acceptFrom]
      cases hcontract : b.isContract with
      | true =>
          have husers : users (b :: rest) = users rest := by simp [users, hcontract]
          rw [if_pos rfl, husers]
          by_cases hsend : b.kind = .contractSend
          · rw [if_pos hsend]
            exact ih
          · rw [if_neg hsend]
            by_cases hfull : market.contractCap < (tally.batch ++ [b]).length + tally.contracts
            · rw [if_pos hfull]
              exact ih
            · rw [if_neg hfull]
              exact (hmap (tally.batch ++ [b]) _).trans ih
      | false =>
          have husers : users (b :: rest) = b :: users rest := by simp [users, hcontract]
          rw [if_neg Bool.false_ne_true, husers, acceptUsers]
          by_cases hlt : market.budget < Word.satAdd tally.used b.basePlasma
          · simp only [if_pos hlt]
          · simp only [if_neg hlt]
            cases hpays : market.paysEnough b with
            | error fault => exact Iff.rfl
            | ok answer =>
                cases answer with
                | false => exact Iff.rfl
                | true => exact (hmap [b] _).trans (ih.trans (hmap [b] _).symm)

/-- A pass keeps the cap and, in its own count, the budget. -/
theorem accept_within {candidates admitted : List Block}
    (h : accept market candidates = .ok admitted) :
    contractCount admitted ≤ market.contractCap ∧ userPlasma admitted ≤ market.budget := by
  obtain ⟨hcontracts, hused⟩ := acceptFrom_within (.start market) h
  exact ⟨by simpa using hcontracts, hused⟩

end

/-- Only the heights of a content can be refused. -/
theorem Rules.checkLimits_content {rules : Rules} {pool blocks : List Block}
    (h : rules.content pool = .ok blocks) :
    checkLimits blocks rules.market.budget rules.market.contractCap = checkHeights blocks := by
  obtain ⟨hcap, hbudget⟩ := accept_within h
  rw [checkLimits, checkBudget, if_neg (UInt64.not_lt.mpr hbudget), checkContractCap,
    if_neg (Nat.not_lt.mpr hcap)]
  rfl

theorem toNat_foldl_satAdd (blocks : List Block) (used : UInt64) :
    (blocks.foldl (fun used b => Word.satAdd used b.basePlasma) used).toNat =
      min (used.toNat + (blocks.map (·.basePlasma.toNat)).sum) (UInt64.size - 1) := by
  induction blocks generalizing used with
  | nil =>
      have := used.toNat_lt
      have : UInt64.size = 2 ^ 64 := rfl
      simp only [List.foldl_nil, List.map_nil, List.sum_nil]
      omega
  | cons b rest ih =>
      rw [List.foldl_cons, ih, Word.toNat_satAdd, List.map_cons, List.sum_cons]
      omega

/-- The count of base plasma is the sum, up to the largest word. -/
theorem toNat_userPlasma (blocks : List Block) :
    (userPlasma blocks).toNat = min (demand blocks) (UInt64.size - 1) := by
  have hfold := toNat_foldl_satAdd (users blocks) 0
  rwa [UInt64.toNat_zero, Nat.zero_add] at hfold

/-- Within a limit below the largest word the count of base plasma is exact. -/
theorem demand_le_of_userPlasma_le {blocks : List Block} {limit : UInt64}
    (hle : userPlasma blocks ≤ limit) (hlt : limit < Word.max64) :
    demand blocks ≤ limit.toNat := by
  have hcount := toNat_userPlasma blocks
  have hmax : Word.max64.toNat = UInt64.size - 1 := rfl
  rw [UInt64.le_iff_toNat_le] at hle
  rw [UInt64.lt_iff_toNat_lt] at hlt
  omega

/-- A pass has a result for candidates in any order, unless it asks for a price that does
not fit.  The result keeps the cap, and below the largest word its base plasma keeps the
budget.  So a content passes the checks of both limits. -/
theorem accept_within_limits (market : Plasma.Market) (candidates : List Block) :
    ((∃ admitted, accept market candidates = .ok admitted) ↔
        market.PriceFits ∨ ∀ b ∈ (users candidates).head?, market.budget < b.basePlasma) ∧
      (∀ admitted, accept market candidates = .ok admitted →
        contractCount admitted ≤ market.contractCap ∧
          (market.budget < Word.max64 → demand admitted ≤ market.budget.toNat)) ∧
      ∀ priority blocks, Rules.content ⟨market, priority⟩ candidates = .ok blocks →
        checkBudget blocks market.budget = .ok () ∧
          checkContractCap blocks market.contractCap = .ok () := by
  refine ⟨?_, ?_, ?_⟩
  · have husers : ∀ b ∈ users candidates, b.isContract = false := fun b hb => (mem_users.mp hb).2
    rw [accept, acceptFrom_isOk_iff, acceptUsers_isOk_iff husers]
    simp
  · intro admitted h
    obtain ⟨hcontracts, hused⟩ := accept_within h
    exact ⟨hcontracts, demand_le_of_userPlasma_le hused⟩
  · intro priority blocks h
    obtain ⟨hcontracts, hused⟩ := accept_within h
    exact ⟨if_neg (UInt64.not_lt.mpr hused), if_neg (Nat.not_lt.mpr hcontracts)⟩

namespace Rules

/-- A contract send that waits while a user block is admitted, a batch that finds no room,
and a user block that breaks the budget. -/
def interleaved : List Block :=
  [contractBlock .pillarContract .contractSend 1, userBlock 1 1 30000 21000,
    contractBlock .pillarContract .contractReceive 2,
    contractBlock .plasmaContract .contractReceive 1, userBlock 2 1 84001 84001]

theorem accept_within_limits_interleaved :
    (∃ admitted, accept (plain 105000).market interleaved = .ok admitted ∧
        contractCount admitted ≤ 2 ∧ demand admitted ≤ 105000) ∧
      ∃ blocks, (plain 105000).content interleaved = .ok blocks ∧
        checkBudget blocks 105000 = .ok () ∧ checkContractCap blocks 2 = .ok () := by
  obtain ⟨_, hpass, hcontent⟩ := accept_within_limits (plain 105000).market interleaved
  constructor
  · have h : accept (plain 105000).market interleaved = .ok
        [userBlock 1 1 30000 21000, contractBlock .pillarContract .contractSend 1,
          contractBlock .pillarContract .contractReceive 2] := by cbv
    obtain ⟨hcap, hbudget⟩ := hpass _ h
    exact ⟨_, h, hcap, hbudget (by decide)⟩
  · have h : (plain 105000).content interleaved = .ok
        [contractBlock .pillarContract .contractSend 1,
          contractBlock .pillarContract .contractReceive 2, userBlock 1 1 30000 21000] := by cbv
    exact ⟨_, h, hcontent .empty _ h⟩

end Rules

end MomentumChain.Selection
