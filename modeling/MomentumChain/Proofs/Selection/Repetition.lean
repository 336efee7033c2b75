import Mathlib
import MomentumChain.Proofs.Selection.Limits

/-!
# A second pass

What a pass admits is admitted by a second pass, all of it and in the same order
(`accept_settles`).  So a node that is given the blocks of a momentum can run the pass on them.

The first pass may change the order of its candidates.  A user block that it meets while sends
wait goes in front of them.  So the second pass meets other states than the first: each batch
comes in one piece, and nothing waits between two admitted parts (`Tally.cleared`).  Its
counters are those of the first, since a batch that is dropped and the user block that ends the
pass are not counted among what is admitted.

The invariant is `Tally.Waits`.  A step of the first pass is repeated by the second on what the
step admits (`Tally.Step.again`), and the induction over the candidates adds up the steps
(`acceptFrom_again`).
-/

namespace MomentumChain.Selection

section

variable {market : Plasma.Market} {tally next : Tally} {b : Block} {now sends : List Block}

/-- All that waits in the batch is sends of contracts. -/
def Tally.Waits (tally : Tally) : Prop :=
  ∀ s ∈ tally.batch, s.isContract = true ∧ s.kind = .contractSend

/-- The same counters with nothing held back. -/
def Tally.cleared (tally : Tally) : Tally := { tally with batch := [] }

theorem Tally.Waits.step (h : tally.Waits) (hstep : tally.Step market b now next) :
    next.Waits := by
  cases hstep with
  | hold contract send =>
      intro s hs
      rcases List.mem_append.mp hs with hs | hs
      · exact h s hs
      · rw [List.mem_singleton.mp hs]
        exact ⟨contract, send⟩
  | drop _ _ _ => exact fun s hs => absurd hs List.not_mem_nil
  | flush _ _ _ => exact fun s hs => absurd hs List.not_mem_nil
  | spend _ _ _ => exact h

/-! ## The pass over what it admits -/

/-- Sends of contracts are held back. -/
theorem acceptFrom_sends (hsends : ∀ s ∈ sends, s.isContract = true ∧ s.kind = .contractSend)
    (rest : List Block) :
    acceptFrom market tally (sends ++ rest) =
      acceptFrom market { tally with batch := tally.batch ++ sends } rest := by
  induction sends generalizing tally with
  | nil => rw [List.nil_append, List.append_nil]
  | cons s sends ih =>
      obtain ⟨hcontract, hsend⟩ := hsends s (List.mem_cons_self ..)
      have hsends : ∀ t ∈ sends, t.isContract = true ∧ t.kind = .contractSend := fun t ht =>
        hsends t (List.mem_cons_of_mem _ ht)
      rw [List.cons_append, acceptFrom, if_pos hcontract, if_pos hsend, ih hsends]
      simp only [List.append_assoc, List.singleton_append]

/-- A batch that fits is admitted. -/
theorem acceptFrom_batch (tally : Tally) (hempty : tally.batch = [])
    (hsends : ∀ s ∈ sends, s.isContract = true ∧ s.kind = .contractSend)
    (hcontract : b.isContract = true) (hcloses : b.kind ≠ .contractSend)
    (hfits : (sends ++ [b]).length + tally.contracts ≤ market.contractCap) (rest : List Block) :
    acceptFrom market tally (sends ++ [b] ++ rest) = (sends ++ [b] ++ ·) <$>
      acceptFrom market
        { tally with contracts := tally.contracts + (sends ++ [b]).length } rest := by
  obtain ⟨batch, contracts, used⟩ := tally
  subst hempty
  rw [List.append_assoc, acceptFrom_sends hsends, List.singleton_append, acceptFrom,
    if_pos hcontract, if_neg hcloses]
  exact if_neg (Nat.not_lt.mpr hfits)

/-- A user block that is affordable is admitted. -/
theorem acceptFrom_spend (tally : Tally) (huser : b.isContract = false)
    (hfits : Word.satAdd tally.used b.basePlasma ≤ market.budget)
    (hpays : market.paysEnough b = .ok true) (rest : List Block) :
    acceptFrom market tally (b :: rest) = (b :: ·) <$>
      acceptFrom market { tally with used := Word.satAdd tally.used b.basePlasma } rest := by
  rw [acceptFrom, huser, if_neg Bool.false_ne_true]
  simp only [if_neg (UInt64.not_lt.mpr hfits), hpays]
  rfl

/-- What a step admits is admitted by a second pass as well, and leaves its counters as the
step left those of the first. -/
theorem Tally.Step.again (h : tally.Waits) (hstep : tally.Step market b now next)
    (rest : List Block) :
    acceptFrom market tally.cleared (now ++ rest) =
      (now ++ ·) <$> acceptFrom market next.cleared rest := by
  cases hstep with
  | hold _ _ => exact (id_map _).symm
  | drop _ _ _ => exact (id_map _).symm
  | flush contract closes fits =>
      exact acceptFrom_batch tally.cleared rfl h contract closes fits rest
  | spend user fits pays =>
      exact acceptFrom_spend tally.cleared user fits pays rest

/-! ## A whole pass -/

/-- What a pass admits from any of its states is admitted again with the same counters. -/
theorem acceptFrom_again {candidates admitted : List Block} (hwaits : tally.Waits)
    (h : acceptFrom market tally candidates = .ok admitted) :
    acceptFrom market tally.cleared admitted = .ok admitted := by
  induction candidates generalizing tally admitted with
  | nil =>
      cases h
      rfl
  | cons b rest ih =>
      rcases acceptFrom_cons_eq_ok h with ⟨_, rfl⟩ | ⟨now, next, later, hstep, hlater, rfl⟩
      · rfl
      · rw [hstep.again hwaits, ih (hwaits.step hstep) hlater]
        rfl

/-- A pass over what a pass admits changes nothing, for candidates in any order.  Where the
price cannot be told, neither has a result. -/
theorem accept_settles (market : Plasma.Market) (candidates : List Block) :
    (accept market candidates >>= accept market) = accept market candidates := by
  cases h : accept market candidates with
  | error fault => rfl
  | ok admitted =>
      have hwaits : Tally.Waits {} := fun s hs => absurd hs List.not_mem_nil
      exact acceptFrom_again hwaits h

end

/-- The first pass moves a user block in front of a send that waits. -/
example : accept (Rules.plain 105000).market
      [contractBlock .pillarContract .contractSend 1, userBlock 1 1 30000 21000,
        contractBlock .pillarContract .contractReceive 2] =
    .ok [userBlock 1 1 30000 21000, contractBlock .pillarContract .contractSend 1,
      contractBlock .pillarContract .contractReceive 2] := by
  cbv

end MomentumChain.Selection
