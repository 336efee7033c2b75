import MomentumChain.Election.Schedule
import MomentumChain.Json.Record
import MomentumChain.Plasma.Variables
import MomentumChain.Protocol
import MomentumChain.Spork

/-!
# Forms of network parameters

These are the records of a network as a whole: its genesis, the parameters that
follow from it, what governance sets, and who produces.  A set of sporks is held
by the list of their labels in order.
-/

namespace MomentumChain.Json.Form

/-! ## Parameters -/

/-- Election algorithms. -/
def algorithm : Form ElectionAlgorithm := choice ElectionAlgorithm.name ElectionAlgorithm.ofName?

/-- Timing and election of producers. -/
def consensus : Form Consensus :=
  record
    (.cons "block_time" word <| .cons "node_count" word <| .cons "rand_count" word <|
      .cons "counting_token" token <| .cons "algorithm" algorithm .nil)
    (fun c => (c.blockTime, c.nodeCount, c.randCount, c.countingToken, c.algorithm, ()))
    (fun (blockTime, nodeCount, randCount, countingToken, algorithm, ()) =>
      ⟨blockTime, nodeCount, randCount, countingToken, algorithm⟩)

/-- Parameters of a network. -/
def protocol : Form Protocol :=
  record
    (.cons "consensus" consensus <| .cons "momentums_per_hour" word <|
      .cons "momentums_per_epoch" word <| .cons "update_min_num_momentums" word <|
      .cons "fuse_expiration" word <| .cons "znn_token" token <| .cons "qsr_token" token <|
      .cons "governance_address" address <| .cons "spork_address" address .nil)
    (fun p =>
      (p.consensus, p.momentumsPerHour, p.momentumsPerEpoch, p.updateInterval, p.fusionLock,
        p.znn, p.qsr, p.governance, p.sporkOwner, ()))
    (fun (consensus, momentumsPerHour, momentumsPerEpoch, updateInterval, fusionLock, znn, qsr,
        governance, sporkOwner, ()) =>
      ⟨consensus, momentumsPerHour, momentumsPerEpoch, updateInterval, fusionLock, znn, qsr,
        governance, sporkOwner⟩)

/-- What a genesis says about its network. -/
def genesis : Form Genesis :=
  record
    (.cons "chain_identifier" word <| .cons "extra_data" string <|
      .cons "tokens" (list token) .nil)
    (fun g => (g.chainId, g.extraData, g.tokens, ()))
    (fun (chainId, extraData, tokens, ()) => ⟨chainId, extraData, tokens⟩)

/-! ## Governance -/

/-- Variables of the plasma market. -/
def plasmaVariables : Form Plasma.Variables :=
  record
    (.cons "max_base_plasma_in_momentum" word <| .cons "fused_plasma_target" word <|
      .cons "pow_plasma_target" word <| .cons "max_price_change_percent" byte <|
      .cons "price_change_denominator" byte .nil)
    (fun v => (v.budget, v.fusionTarget, v.workTarget, v.changePercent, v.denominator, ()))
    (fun (budget, fusionTarget, workTarget, changePercent, denominator, ()) =>
      ⟨budget, fusionTarget, workTarget, changePercent, denominator⟩)

/-- Sporks. -/
def spork : Form Spork := choice Spork.label Spork.ofLabel?

/-- Sets of sporks. -/
def sporks : Form Spork.Active where
  write active := (list spork).write active.toList
  read? v := do return .ofList (← (list spork).read? v)

/-! ## Producers -/

/-- Candidates of an election. -/
def delegation : Form Election.Delegation :=
  record (.cons "name" string <| .cons "producer" address <| .cons "weight" amount .nil)
    (fun d => (d.name, d.producer, d.weight, ()))
    (fun (name, producer, weight, ()) => ⟨name, producer, weight⟩)

/-- Slots of producers. -/
def slot : Form Election.Slot :=
  record
    (.cons "name" string <| .cons "producer" address <| .cons "start_time" word <|
      .cons "end_time" word .nil)
    (fun s => (s.name, s.producer, s.start, s.stop, ()))
    (fun (name, producer, start, stop, ()) => ⟨name, producer, start, stop⟩)

end MomentumChain.Json.Form
