import MomentumChain.Proofs.Production.Round

/-!
# Runs

In a run one producer extends a chain round by round.  Between the rounds blocks
arrive, sporks and variables change, and the store, the pool and the finalizer go
out of service and come back.  Nothing but a round changes the frontier.

An event moves the chain in one of two ways (`Moves`).  It commits nothing, and then
the frontier and what is finalized stay, and the pool takes in what arrives.  Or it is
a round that signs the momentum of a plan.  A round that fails moves the chain in the
first way, at whatever step it fails.  `step_moves` says that these are all ways, and
an invariant of runs needs one case for each of them.
-/

namespace MomentumChain.Production

/-! ## Events -/

/-- What can happen next in a run. -/
inductive Event where
  /-- Blocks arrive in the pool. -/
  | insert (blocks : List Block)
  /-- Other sporks are in force. -/
  | setSporks (active : Spork.Active)
  /-- Other variables are in force. -/
  | setVariables (vars : Plasma.Variables)
  /-- The store goes out of service or comes back. -/
  | storeOutage (unavailable : Bool)
  /-- The pool goes out of service or comes back. -/
  | poolOutage (unavailable : Bool)
  /-- The finalizer goes out of service or comes back. -/
  | signerOutage (failing : Bool)
  /-- The producer runs the round of a slot, whose selection takes a time. -/
  | round (slot : Election.Slot) (elapsed : UInt64)

/-- The blocks that arrive. -/
def Event.inserted : Event → List Block
  | .insert blocks => blocks
  | .setSporks _ | .setVariables _ | .storeOutage _ | .poolOutage _ | .signerOutage _
  | .round _ _ => []

/-- The blocks that arrive in a run, in order. -/
def inserted (events : List Event) : List Block := events.flatMap Event.inserted

/-- A chain with a committing finalizer, before anything happens. -/
def State.start (genesis : Momentum) : State := ⟨{ store := { frontier := genesis } }, {}⟩

/-- A producer of which nothing is configured but its own address. -/
def lone (signer : Signer) : Producer where
  config := { coinbase := signer.address }
  signer := signer
  flawless := by
    rw [Config.flaw?, if_neg (not_not_intro rfl)]
    rfl

/-- A momentum that a round has committed. -/
structure Commitment where
  chain : Chain
  slot : Election.Slot
  signed : Momentum.Signed

namespace Commitment

def momentum (commitment : Commitment) : Momentum := commitment.signed.detailed.momentum

def blocks (commitment : Commitment) : List Block := commitment.signed.detailed.blocks

end Commitment

namespace Producer

/-- The state after an event. -/
def step (producer : Producer) (s : State) : Event → State
  | .insert blocks => { s with chain.pool := s.chain.pool.insert blocks }
  | .setSporks active => { s with chain.store.sporks := active }
  | .setVariables vars => { s with chain.store.vars := vars }
  | .storeOutage unavailable => { s with chain.store.unavailable := unavailable }
  | .poolOutage unavailable => { s with chain.pool.unavailable := unavailable }
  | .signerOutage failing => { s with chain.finalizer.failing := failing }
  | .round slot elapsed => ((producer.produce slot elapsed).run s).2

/-- The state after a run. -/
def run (producer : Producer) (s : State) (events : List Event) : State :=
  events.foldl producer.step s

/-- What an event commits.  A round commits what it returns. -/
def committed? (producer : Producer) (s : State) : Event → Option Commitment
  | .round slot elapsed =>
      match ((producer.produce slot elapsed).run s).1 with
      | .ok signed => some ⟨s.chain, slot, signed⟩
      | .error _ => none
  | .insert _ | .setSporks _ | .setVariables _ | .storeOutage _ | .poolOutage _
  | .signerOutage _ => none

/-- What a run commits, in order. -/
def commitments (producer : Producer) : State → List Event → List Commitment
  | _, [] => []
  | s, event :: events =>
      (producer.committed? s event).toList ++ producer.commitments (producer.step s event) events

end Producer

/-! ## The chain after a momentum -/

namespace Chain

variable {chain : Chain} {signed : Momentum.Signed}

@[simp] theorem finalized_append :
    (chain.append signed).finalizer.finalized = chain.finalizer.finalized ++ [signed] := by
  unfold append
  split <;> rfl

@[simp] theorem committing_append :
    (chain.append signed).finalizer.committing = chain.finalizer.committing := by
  unfold append
  split <;> rfl

theorem frontier_append (h : chain.finalizer.committing = true) :
    (chain.append signed).store.frontier = signed.detailed.momentum := by
  rw [append, if_pos h]
  rfl

theorem pool_append (h : chain.finalizer.committing = true) :
    (chain.append signed).pool = chain.pool.removeCommitted signed.detailed.momentum.content := by
  rw [append, if_pos h]
  rfl

end Chain

/-! ## The two ways of an event -/

/-- How an event moves a chain, with what arrives and what is committed. -/
inductive Moves (producer : Producer) (chain : Chain) :
    List Block → Option Commitment → Chain → Prop where
  | keeps {arrived : List Block} {next : Chain}
      (frontier : next.store.frontier = chain.store.frontier)
      (pool : next.pool.blocks = chain.pool.blocks ++ arrived)
      (finalized : next.finalizer.finalized = chain.finalizer.finalized)
      (committing : next.finalizer.committing = chain.finalizer.committing) :
      Moves producer chain arrived none next
  | commits {slot : Election.Slot} {plan : Plan} (ready : chain.Ready)
      (planned : Planned producer.config.priority chain plan) :
      Moves producer chain [] (some ⟨chain, slot, producer.extend chain slot plan⟩)
        (chain.append (producer.extend chain slot plan))

/-- A failed round leaves the chain as it is. -/
theorem chain_of_failed {producer : Producer} {slot : Election.Slot} {elapsed : UInt64}
    {s t : State} {failure : Failure Error}
    (h : Ends producer slot elapsed s (.error failure, t)) : t.chain = s.chain := by
  cases h with
  | noStore | noHeight | noPool | fault | violation | noSigner => rfl

/-- Every event moves the chain in one of the two ways. -/
theorem step_moves (producer : Producer) (s : State) (event : Event) :
    Moves producer s.chain event.inserted (producer.committed? s event)
      (producer.step s event).chain := by
  cases event with
  | insert blocks => exact .keeps rfl rfl rfl rfl
  | setSporks | setVariables | storeOutage | poolOutage | signerOutage =>
      exact .keeps rfl (List.append_nil _).symm rfl rfl
  | round slot elapsed =>
      have hends := produce_ends producer slot elapsed s
      simp only [Producer.committed?, Producer.step, Event.inserted]
      generalize (producer.produce slot elapsed).run s = ending at hends
      obtain ⟨outcome, t⟩ := ending
      cases outcome with
      | error failure =>
          show Moves producer s.chain [] none t.chain
          rw [chain_of_failed hends]
          exact .keeps rfl (List.append_nil _).symm rfl rfl
      | ok signed =>
          cases hends with
          | signed ready planned _ => exact .commits ready planned

/-- A round commits exactly if it can read the chain, has a plan and can sign it. -/
theorem exists_committed_iff {producer : Producer} {s : State} {slot : Election.Slot}
    {elapsed : UInt64} :
    (∃ commitment, producer.committed? s (.round slot elapsed) = some commitment) ↔
      s.chain.Ready ∧ s.chain.finalizer.failing = false ∧
        ∃ plan, Planned producer.config.priority s.chain plan := by
  have hends := produce_ends producer slot elapsed s
  simp only [Producer.committed?]
  generalize (producer.produce slot elapsed).run s = ending at hends
  constructor
  · rintro ⟨commitment, h⟩
    cases hends with
    | noStore | noHeight | noPool | fault | violation | noSigner => cases h
    | signed ready planned signer => exact ⟨ready, signer, _, planned⟩
  · rintro ⟨ready, hsigner, plan, planned⟩
    cases hends with
    | noStore store => simp [ready.store] at store
    | noHeight _ height => exact absurd height ready.height
    | noPool _ _ pool => simp [ready.pool] at pool
    | fault _ dynamic content =>
        obtain ⟨blocks, hcontent, _⟩ := planned.exists_content dynamic
        simp [hcontent] at content
    | violation _ dynamic content heights =>
        obtain ⟨blocks, hcontent, hheights⟩ := planned.exists_content dynamic
        rw [hcontent] at content
        cases content
        simp [hheights] at heights
    | noSigner _ _ signer => simp [hsigner] at signer
    | signed => exact ⟨_, rfl⟩

/-! ## What links the momentums of a run -/

/-- Each commitment is related to the momentum before it, and the first to `previous`. -/
def Linked (R : Momentum → Commitment → Prop) : (previous : Momentum) → List Commitment → Prop
  | _, [] => True
  | previous, commitment :: later => R previous commitment ∧ Linked R commitment.momentum later

/-- What relates each momentum to the frontier of its own round links the run. -/
theorem commitments_linked {producer : Producer} {R : Momentum → Commitment → Prop}
    (hround : ∀ {chain : Chain} {slot : Election.Slot} {plan : Plan}, chain.Ready →
      Planned producer.config.priority chain plan →
      R chain.store.frontier ⟨chain, slot, producer.extend chain slot plan⟩)
    (events : List Event) {s : State} (hcommitting : s.chain.finalizer.committing = true) :
    Linked R s.chain.store.frontier (producer.commitments s events) := by
  induction events generalizing s with
  | nil => exact trivial
  | cons event events ih =>
      have hmoves := step_moves producer s event
      rw [Producer.commitments]
      generalize event.inserted = arrived at hmoves
      generalize producer.committed? s event = commitment at hmoves
      generalize producer.step s event = t at hmoves ih
      generalize hnext : t.chain = next at hmoves
      -- the frontier is kept, or it is the momentum that is committed
      cases hmoves with
      | keeps frontier _ _ committing =>
          have hlater := ih (s := t) (by rw [hnext, committing, hcommitting])
          rw [hnext, frontier] at hlater
          exact hlater
      | commits ready planned =>
          have hlater := ih (s := t) (by rw [hnext, Chain.committing_append, hcommitting])
          rw [hnext, Chain.frontier_append hcommitting] at hlater
          exact ⟨hround ready planned, hlater⟩

end MomentumChain.Production
