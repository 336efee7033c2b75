import MomentumChain.Proofs.Plasma.PriceMove
import MomentumChain.Proofs.Production.HashChain

/-!
# Prices over a run

Each momentum of a dynamic round records the prices of the next round.  `Reprices` says
how they follow from the momentum before it: each of the two prices makes a move
(`Plasma.PriceMove`) from the price that the momentum before has recorded, and it is the
share of its own resource in the blocks of the momentum that is held against the target of
that resource.  A momentum without prices counts as one that records the minimum.

`prices_trail` says so for all momentums of a run.  The law of one round
(`reprices_of_planned`) does not ask how the chain came about.  So the run adds one thing
only, that the momentum before is the frontier from which the round starts.
-/

namespace MomentumChain.Production

open Plasma

/-- The prices that a momentum records follow from the momentum before it. -/
structure Reprices (previous : Momentum) (commitment : Commitment) : Prop where
  frontier : commitment.chain.store.frontier = previous
  fusion : commitment.chain.isDynamic = true →
    PriceMove (priceAfter previous previous.nextFusionPrice)
      commitment.chain.store.vars.changePercent.toNat (fusionUse commitment.blocks)
      commitment.chain.store.vars.fusionTarget.toNat commitment.momentum.nextFusionPrice.toNat
  work : commitment.chain.isDynamic = true →
    PriceMove (priceAfter previous previous.nextWorkPrice)
      commitment.chain.store.vars.changePercent.toNat (workUse commitment.blocks)
      commitment.chain.store.vars.workTarget.toNat commitment.momentum.nextWorkPrice.toNat

/-- The usage of the blocks that are planned moves both prices of the frontier. -/
theorem Planned.price_moves {priority : Address.Set} {chain : Chain} {plan : Plan}
    (planned : Planned priority chain plan) (hdynamic : chain.isDynamic = true) :
    PriceMove (priceAfter chain.store.frontier chain.store.frontier.nextFusionPrice)
        chain.store.vars.changePercent.toNat (fusionUse plan.blocks)
        chain.store.vars.fusionTarget.toNat plan.nextFusionPrice.toNat ∧
      PriceMove (priceAfter chain.store.frontier chain.store.frontier.nextWorkPrice)
        chain.store.vars.changePercent.toNat (workUse plan.blocks)
        chain.store.vars.workTarget.toNat plan.nextWorkPrice.toNat := by
  cases planned with
  | legacy legacy =>
      rw [hdynamic] at legacy
      cases legacy
  | @dynamic blocks usage _ _ _ _ _ used fusion work =>
      obtain ⟨usage', hused, hfusion, hwork⟩ :=
        Market.totalUsage_eq (Market.hasPrices_after _ chain.store.vars) blocks
      rw [Chain.market] at used
      rw [hused] at used
      cases used
      have hfusionMove := Market.nextFusionPrice_move fusion
      have hworkMove := Market.nextWorkPrice_move work
      rw [hfusion] at hfusionMove
      rw [hwork] at hworkMove
      exact ⟨hfusionMove.of_stopped, hworkMove.of_stopped⟩

/-- What a round commits is priced by the frontier that the round has read. -/
theorem reprices_of_planned {producer : Producer} {chain : Chain} {slot : Election.Slot}
    {plan : Plan} (planned : Planned producer.config.priority chain plan) :
    Reprices chain.store.frontier ⟨chain, slot, producer.extend chain slot plan⟩ where
  frontier := rfl
  fusion hdynamic := (planned.price_moves hdynamic).1
  work hdynamic := (planned.price_moves hdynamic).2

/-- The momentums that a run finalizes are those of its rounds that succeed, and in each
dynamic round both prices make a move from those that the momentum before has recorded. -/
theorem prices_trail (producer : Producer) (genesis : Momentum) (events : List Event) :
    (producer.run (.start genesis) events).chain.finalizer.finalized =
        (producer.commitments (.start genesis) events).map Commitment.signed ∧
      Linked Reprices genesis (producer.commitments (.start genesis) events) := by
  obtain ⟨hfinalized, _⟩ := run_hashChain producer events (s := .start genesis) rfl
  constructor
  · rw [hfinalized]
    show [] ++ _ = _
    exact List.nil_append _
  · exact commitments_linked (fun _ planned => reprices_of_planned planned) events
      (s := .start genesis) rfl

end MomentumChain.Production
