import MomentumChain.Contract.Dispatch
import MomentumChain.Contract.Receive
import MomentumChain.Election.Producers
import MomentumChain.Production.Round

/-!
# Networks

A network joins the storage of the contracts, the chain, and the producers that
extend it in turn.  Storage and chain are apart, and `Network.sync` brings them
together: the storage takes the frontier of the chain, and the chain takes the
sporks and variables of the storage.

In a tick the producers stand for election and each elected one produces in its
slot.  The election is seeded by the height of the frontier.
-/

namespace MomentumChain

/-- A producer and its counters. -/
structure Member where
  producer : Production.Producer
  metrics : Production.Metrics := {}

/-- A chain with its contracts and producers. -/
structure Network where
  protocol : Protocol
  storage : Contract.Storage
  chain : Production.Chain
  members : List Member := []

namespace Network

/-- What a round leads to. -/
abbrev Outcome : Type := Except (Failure Production.Error) Momentum.Signed

/-- A network that starts at a momentum. -/
def start (protocol : Protocol) (frontier : Momentum) (committing : Bool)
    (producers : List Production.Producer) : Network where
  protocol := protocol
  storage := { frontier }
  chain := { store := { frontier }, finalizer := { committing } }
  members := producers.map fun producer => { producer }

/-! ## Contracts -/

/-- The method that a send calls. -/
def method (network : Network) (send : Block) : Except Contract.Error Contract.Method :=
  (Contract.DispatchTable.resolve network.storage.activeSporks).lookup send.recipient send.data

/-- Receives a send that calls a method. -/
def receive (method : Contract.Method) (send : Block) :
    StateM Network (Except (Failure Contract.Error) (List Block)) := do
  let network ← get
  let (outcome, storage) := (method.receive network.protocol send).run.run network.storage
  set { network with storage }
  return outcome

/-- Brings the storage to the frontier and the chain under its sporks and
variables. -/
def sync (network : Network) : Network :=
  let storage := { network.storage with frontier := network.chain.store.frontier }
  { network with
    storage
    chain :=
      { network.chain with
        store :=
          { network.chain.store with
            sporks := storage.activeSporks, vars := storage.vars } } }

/-! ## Producers -/

/-- A producer produces in a slot, if there is a producer at the place.  The time
of its selection is not measured. -/
def produce (place : Nat) (slot : Election.Slot) : StateM Network (Option Outcome) := do
  let network ← get
  match network.members[place]? with
  | none => return none
  | some member =>
      let (outcome, state) := (member.producer.produce slot 0).run ⟨network.chain, member.metrics⟩
      set { network with
        chain := state.chain
        members := network.members.set place { member with metrics := state.metrics } }
      return some outcome

/-- The name of the candidate at a place. -/
def candidateName (place : Nat) : String := s!"p{place}"

/-- The first producers as candidates with the given weights. -/
def candidates (network : Network) (weights : List Amount) : List Election.Delegation :=
  (network.members.zip weights).mapIdx fun place (member, weight) =>
    ⟨candidateName place, member.producer.signer.address, weight⟩

/-- The slots of the tick after the frontier. -/
def schedule (network : Network) (weights : List Amount) (slots : Nat) :
    Except (Failure Election.Error) (List Election.Slot) := do
  let frontier := network.chain.store.frontier
  let blockTime := network.protocol.consensus.blockTime
  let elected ← Election.elect (network.candidates weights) slots frontier.height
  return Election.schedule elected (Word.satAdd frontier.timestamp blockTime) blockTime

/-- The elected producers produce, each in its slot. -/
def produceAll (candidates : List Election.Delegation) :
    List Election.Slot → StateM Network (List (Election.Slot × Outcome))
  | [] => return []
  | slot :: slots => do
      let place := candidates.findIdx fun candidate => candidate.name = slot.name
      let outcome ← produce place slot
      let later ← produceAll candidates slots
      return (outcome.map fun outcome => (slot, outcome)).toList ++ later

/-- The tick after the frontier. -/
def tick (weights : List Amount) (slots : Nat) :
    StateM Network (Except (Failure Election.Error) (List (Election.Slot × Outcome))) := do
  let network ← get
  match network.schedule weights slots with
  | .error error => return .error error
  | .ok schedule => return .ok (← produceAll (network.candidates weights) schedule)

end Network

end MomentumChain
