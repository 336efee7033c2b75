import MomentumChain.Network
import MomentumChain.Proofs.Contract.History
import MomentumChain.Proofs.Production.HashChain

/-!
# Runs of a network

In a run of a network the contracts receive calls, and producers produce.  Storage and chain are
brought together from time to time, and the chain is changed from outside in any way.

Of all this the contracts see the calls and the frontiers only.  What a run does to the storage
is what a run of the contracts alone does (`storage_run`), so all that holds of the histories of
contracts holds of a network.  A produced momentum extends the frontier of the chain that it was
produced on (`extends_of_produced?`).
-/

namespace MomentumChain.Network

open Contract

/-! ## Events -/

/-- What happens next in a run. -/
inductive Event where
  /-- The contracts receive a call or see another frontier. -/
  | contract (step : Step)
  /-- The chain is changed from outside. -/
  | chain (next : Production.Chain)
  /-- Storage and chain are brought together. -/
  | sync
  /-- The producer at a place produces in a slot. -/
  | produce (place : Nat) (slot : Election.Slot)

/-- The network after a step of the contracts. -/
def act (network : Network) : Step → Network
  | .frontier momentum => { network with storage.frontier := momentum }
  | .call method send => ((receive method send).run network).2
  | .dispatch send =>
      match network.method send with
      | .ok method => ((receive method send).run network).2
      | .error _ => network

/-- The network after an event. -/
def next (network : Network) : Event → Network
  | .contract step => network.act step
  | .chain next => { network with chain := next }
  | .sync => network.sync
  | .produce place slot => ((produce place slot).run network).2

/-- The network after a run. -/
def run (network : Network) (events : List Event) : Network := events.foldl next network

/-! ## What the contracts see -/

/-- The step of the contracts at an event. -/
def step? (network : Network) : Event → Option Step
  | .contract step => some step
  | .sync => some (.frontier network.chain.store.frontier)
  | .chain _ | .produce _ _ => none

/-- The steps of the contracts in a run. -/
def steps : Network → List Event → List Step
  | _, [] => []
  | network, event :: events =>
      (network.step? event).toList ++ steps (network.next event) events

/-- The history of the contracts after a run. -/
def history (network : Network) (events : List Event) : History :=
  History.run network.protocol ⟨[], network.storage⟩ (network.steps events)

/-- No event of a run lowers the frontier that the contracts see. -/
def Rising : Network → List Event → Prop
  | _, [] => True
  | network, event :: events =>
      network.storage.frontier.height ≤ (network.next event).storage.frontier.height ∧
        Rising (network.next event) events

section

variable {network : Network} {s : History}

theorem run_receive (method : Method) (send : Block) :
    (receive method send).run network =
      ((network.storage.receive network.protocol method send).1,
        { network with
          storage := (network.storage.receive network.protocol method send).2 }) := rfl

theorem storage_receive (hs : s.storage = network.storage) (method : Method) (send : Block) :
    (s.receive network.protocol method send).storage =
      ((receive method send).run network).2.storage := by
  rw [run_receive, History.receive, hs]
  generalize network.storage.receive network.protocol method send = ending
  obtain ⟨outcome, storage⟩ := ending
  cases outcome <;> rfl

/-- The contracts do the same within a network and alone. -/
theorem storage_act (hs : s.storage = network.storage) (step : Step) :
    (s.next network.protocol step).storage = (network.act step).storage := by
  cases step with
  | frontier momentum =>
      rw [act, ← hs]
      rfl
  | call method send => exact storage_receive hs method send
  | dispatch send =>
      rw [History.next, act, Network.method, hs]
      generalize (DispatchTable.resolve network.storage.activeSporks).lookup send.recipient
        send.data = found
      cases found with
      | ok method => exact storage_receive hs method send
      | error _ => exact hs

/-- A step of the contracts acts on the storage only. -/
theorem act_frame (step : Step) : (network.act step).protocol = network.protocol ∧
    (network.act step).chain = network.chain ∧ (network.act step).members = network.members := by
  cases step with
  | frontier | call => exact ⟨rfl, rfl, rfl⟩
  | dispatch send =>
      rw [act]
      split <;> exact ⟨rfl, rfl, rfl⟩

/-- A call leaves the frontier as it is. -/
theorem frontier_receive (method : Method) (send : Block) :
    ((receive method send).run network).2.storage.frontier = network.storage.frontier := by
  have hreceives := receive_receives network.protocol network.storage method send
  rw [run_receive]
  show (network.storage.receive network.protocol method send).2.frontier = _
  generalize network.storage.receive network.protocol method send = ending at hreceives
  cases hreceives <;> rfl

theorem frontier_next_dispatch (send : Block) :
    (network.next (.contract (.dispatch send))).storage.frontier = network.storage.frontier := by
  rw [next, act]
  split
  · exact frontier_receive _ send
  · rfl

theorem run_produce_of_none {place : Nat} (h : network.members[place]? = none)
    (slot : Election.Slot) : (produce place slot).run network = (none, network) := by
  simp [produce, h]
  rfl

theorem run_produce_of_some {place : Nat} {member : Member}
    (h : network.members[place]? = some member) (slot : Election.Slot) :
    (produce place slot).run network =
      (some ((member.producer.produce slot 0).run ⟨network.chain, member.metrics⟩).1,
        { network with
          chain := ((member.producer.produce slot 0).run ⟨network.chain, member.metrics⟩).2.chain
          members := network.members.set place
            { member with
              metrics :=
                ((member.producer.produce slot 0).run ⟨network.chain, member.metrics⟩).2.metrics }
          }) := by
  simp [produce, h]
  rfl

/-- A round acts on the chain and the counters only. -/
theorem produce_frame (place : Nat) (slot : Election.Slot) :
    ((produce place slot).run network).2.storage = network.storage ∧
      ((produce place slot).run network).2.protocol = network.protocol := by
  cases hmember : network.members[place]? with
  | none => simp [run_produce_of_none hmember]
  | some member => simp [run_produce_of_some hmember]

theorem protocol_next (event : Event) : (network.next event).protocol = network.protocol := by
  cases event with
  | contract step => exact (act_frame step).1
  | chain | sync => rfl
  | produce place slot => exact (produce_frame place slot).2

/-- An event does to the storage what its step does, and nothing if it has none. -/
theorem storage_next (hs : s.storage = network.storage) (event : Event) :
    (s.run network.protocol (network.step? event).toList).storage =
      (network.next event).storage := by
  cases event with
  | contract step => exact storage_act hs step
  | chain => exact hs
  | sync =>
      show { s.storage with frontier := network.chain.store.frontier } = _
      rw [hs]
      rfl
  | produce place slot => exact hs.trans (produce_frame place slot).1.symm

/-- A run of a network does to the storage what the run of its steps does. -/
theorem storage_run (hs : s.storage = network.storage) (events : List Event) :
    (s.run network.protocol (network.steps events)).storage = (network.run events).storage := by
  induction events generalizing network s with
  | nil => exact hs
  | cons event events ih =>
      rw [steps, History.run_append, ← protocol_next event]
      exact ih ((protocol_next event).symm ▸ storage_next hs event)

theorem history_storage (events : List Event) :
    (network.history events).storage = (network.run events).storage :=
  storage_run rfl events

theorem run_append (first later : List Event) :
    network.run (first ++ later) = (network.run first).run later :=
  List.foldl_append

theorem steps_append (first later : List Event) :
    network.steps (first ++ later) = network.steps first ++ (network.run first).steps later := by
  induction first generalizing network with
  | nil => rfl
  | cons event first ih =>
      rw [List.cons_append, steps, ih, ← List.append_assoc]
      rfl

theorem history_append (first later : List Event) :
    network.history (first ++ later) =
      (network.history first).run network.protocol ((network.run first).steps later) := by
  rw [history, steps_append, History.run_append]
  rfl

end

/-! ## What is produced -/

/-- A momentum, and the network that it was produced in. -/
structure Produced where
  /-- The network before the round. -/
  network : Network
  slot : Election.Slot
  signed : Momentum.Signed

namespace Produced

def commitment (produced : Produced) : Production.Commitment :=
  ⟨produced.network.chain, produced.slot, produced.signed⟩

def momentum (produced : Produced) : Momentum := produced.signed.detailed.momentum

/-- The frontier that the momentum extends. -/
def parent (produced : Produced) : Momentum := produced.network.chain.store.frontier

end Produced

/-- What an event produces.  A round produces the momentum that it returns. -/
def produced? (network : Network) : Event → Option Produced
  | .produce place slot =>
      match ((produce place slot).run network).1 with
      | some (.ok signed) => some ⟨network, slot, signed⟩
      | some (.error _) | none => none
  | .contract _ | .chain _ | .sync => none

/-- What a run produces, in order. -/
def produced : Network → List Event → List Produced
  | _, [] => []
  | network, event :: events =>
      (network.produced? event).toList ++ produced (network.next event) events

section

variable {network : Network} {p : Produced} {event : Event}

/-- A round produces a momentum that extends the frontier of the chain. -/
theorem extends_of_produced? (h : network.produced? event = some p) :
    p.network = network ∧ ∃ producer, Production.Extends producer p.parent p.commitment := by
  cases event with
  | contract | chain | sync => cases h
  | produce place slot =>
      rw [produced?] at h
      cases hmember : network.members[place]? with
      | none =>
          rw [run_produce_of_none hmember] at h
          cases h
      | some member =>
          have hends := Production.produce_ends member.producer slot 0
            ⟨network.chain, member.metrics⟩
          rw [run_produce_of_some hmember] at h
          generalize (member.producer.produce slot 0).run ⟨network.chain, member.metrics⟩ = ending
            at h hends
          cases hends with
          | noStore | noHeight | noPool | fault | violation | noSigner => cases h
          | signed ready planned =>
              cases h
              exact ⟨rfl, member.producer, Production.extends_of_planned ready planned⟩

/-- A produced momentum comes from an event of the run. -/
theorem exists_of_mem_produced {events : List Event} (h : p ∈ network.produced events) :
    ∃ first, first <+: events ∧ p.network = network.run first ∧
      ∃ producer, Production.Extends producer p.parent p.commitment := by
  induction events generalizing network with
  | nil => cases h
  | cons event events ih =>
      rcases List.mem_append.mp h with hnow | hlater
      · obtain ⟨hnetwork, hextends⟩ := extends_of_produced? (Option.mem_toList.mp hnow)
        exact ⟨[], List.nil_prefix, hnetwork, hextends⟩
      · obtain ⟨first, hfirst, hrun, hextends⟩ := ih hlater
        exact ⟨event :: first, List.cons_prefix_cons.mpr ⟨rfl, hfirst⟩, hrun, hextends⟩

theorem height_of_mem_produced {events : List Event} (h : p ∈ network.produced events) :
    p.momentum.height.toNat = p.parent.height.toNat + 1 := by
  obtain ⟨_, _, _, _, hextends⟩ := exists_of_mem_produced h
  exact hextends.height

theorem produced_append (first later : List Event) :
    network.produced (first ++ later) =
      network.produced first ++ (network.run first).produced later := by
  induction first generalizing network with
  | nil => rfl
  | cons event first ih =>
      rw [List.cons_append, produced, ih, produced, List.append_assoc]
      rfl

/-- The contracts alone produce nothing and leave the producers as they are. -/
theorem contract_frame (steps : List Step) : network.produced (steps.map .contract) = [] ∧
    (network.run (steps.map .contract)).members = network.members := by
  induction steps generalizing network with
  | nil => exact ⟨rfl, rfl⟩
  | cons step steps ih =>
      obtain ⟨hproduced, hmembers⟩ := @ih (network.act step)
      exact ⟨hproduced, hmembers.trans (act_frame step).2.2⟩

/-! ## Rising runs -/

/-- The steps of a rising run are a rising run of the contracts. -/
theorem Rising.steps {s : History} {events : List Event} (h : network.Rising events)
    (hs : s.storage = network.storage) : s.Rising network.protocol (network.steps events) := by
  induction events generalizing network s with
  | nil => exact trivial
  | cons event events ih =>
      have hnext := storage_next hs event
      rw [Network.steps, History.rising_append, ← protocol_next event]
      refine ⟨?_, ih h.2 ((protocol_next event).symm ▸ hnext)⟩
      rw [protocol_next event]
      cases hstep : network.step? event with
      | none => exact trivial
      | some step =>
          rw [hstep] at hnext
          refine ⟨?_, trivial⟩
          have hle := h.1
          rw [← hs, ← hnext] at hle
          exact hle

/-- In a rising run the momentums are produced in order of what the contracts see. -/
theorem Rising.produced {events : List Event} (h : network.Rising events) :
    (∀ p ∈ network.produced events,
      network.storage.frontier.height ≤ p.network.storage.frontier.height) ∧
      (network.produced events).Pairwise fun p q =>
        p.network.storage.frontier.height ≤ q.network.storage.frontier.height := by
  induction events generalizing network with
  | nil => exact ⟨fun _ hp => (List.not_mem_nil hp).elim, .nil⟩
  | cons event events ih =>
      obtain ⟨hlater, hsorted⟩ := ih h.2
      have hnow : ∀ p ∈ (network.produced? event).toList, p.network = network := by
        intro p hp
        exact (extends_of_produced? (Option.mem_toList.mp hp)).1
      rw [Network.produced]
      constructor
      · intro p hp
        rcases List.mem_append.mp hp with hp | hp
        · rw [hnow p hp]
          exact UInt64.le_refl _
        · exact UInt64.le_trans h.1 (hlater p hp)
      · rw [List.pairwise_append]
        refine ⟨?_, hsorted, ?_⟩
        · cases network.produced? event with
          | none => exact .nil
          | some p => exact List.pairwise_singleton _ _
        · intro p hp q hq
          rw [hnow p hp]
          exact UInt64.le_trans h.1 (hlater q hq)

end

end MomentumChain.Network
