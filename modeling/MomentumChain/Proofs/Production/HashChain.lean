import MomentumChain.Proofs.Production.Run

/-!
# The chain of hashes

What a run finalizes is a chain that starts at the genesis (`finalized_hashChain`).
`Extends` says what links a momentum to the one before it, and what ties it to its own
round: the chain that the round began with, the slot, and the producer.

The link to the momentum before holds because a round reads the frontier once, and the
frontier is what the round before has committed.  The hash is right because a momentum
is hashed when all other fields are filled, and is not touched after that.
-/

namespace MomentumChain

/-- The hash of a momentum does not depend on the hash it had before. -/
theorem Momentum.digest_hashed (momentum : Momentum) :
    momentum.hashed.digest = momentum.digest := by
  simp [digest, hashInput, hashed]

namespace Production

/-- A committed momentum extends another by the rules of its round. -/
structure Extends (producer : Producer) (previous : Momentum) (commitment : Commitment) :
    Prop where
  previousHash : commitment.momentum.previousHash = previous.hash
  height : commitment.momentum.height.toNat = previous.height.toNat + 1
  hash : commitment.momentum.hash = commitment.momentum.digest
  content : commitment.momentum.content = commitment.blocks.map Block.header
  chainId : commitment.momentum.chainId = producer.config.chainId
  timestamp : commitment.momentum.timestamp = commitment.slot.start
  version : commitment.momentum.version =
    if commitment.chain.store.sporks.contains .dynamicPlasma then 2 else 1
  prices : commitment.momentum.version = 1 →
    commitment.momentum.nextFusionPrice = 0 ∧ commitment.momentum.nextWorkPrice = 0
  signature : commitment.signed.signature =
    producer.signer.signature commitment.momentum.hash
  address : commitment.signed.producer = producer.signer.address
  publicKey : commitment.signed.publicKey = producer.signer.publicKey

/-- Each commitment extends the one before it, and the first extends `previous`. -/
def HashChain (producer : Producer) : (previous : Momentum) → List Commitment → Prop
  | _, [] => True
  | previous, commitment :: later =>
      Extends producer previous commitment ∧ HashChain producer commitment.momentum later

/-- A frontier that has a successor is not the last there is. -/
theorem toNat_succ {height : UInt64} (h : height ≠ Word.max64) :
    (height + 1).toNat = height.toNat + 1 := by
  have hlast : height.toNat ≠ Word.max64.toNat := fun he => h (UInt64.toNat_inj.mp he)
  have hmax : Word.max64.toNat = UInt64.size - 1 := rfl
  have hlt : height.toNat < UInt64.size := height.toNat_lt
  have hsize : UInt64.size = 2 ^ 64 := rfl
  rw [UInt64.toNat_add, UInt64.toNat_one, Nat.mod_eq_of_lt (by omega)]

theorem Planned.version_eq {priority : Address.Set} {chain : Chain} {plan : Plan}
    (planned : Planned priority chain plan) :
    plan.version = if chain.store.sporks.contains .dynamicPlasma then 2 else 1 := by
  cases planned with
  | legacy legacy =>
      rw [Chain.isDynamic] at legacy
      rw [legacy]
      rfl
  | dynamic dynamic =>
      rw [Chain.isDynamic] at dynamic
      rw [dynamic]
      rfl

theorem Planned.prices_eq_zero {priority : Address.Set} {chain : Chain} {plan : Plan}
    (planned : Planned priority chain plan) (h : plan.version = 1) :
    plan.nextFusionPrice = 0 ∧ plan.nextWorkPrice = 0 := by
  cases planned with
  | legacy => exact ⟨rfl, rfl⟩
  | dynamic =>
      have hne : Momentum.dynamicVersion ≠ 1 := by decide
      exact absurd h hne

/-- What a round commits extends the frontier that the round has read. -/
theorem extends_of_planned {producer : Producer} {chain : Chain} {slot : Election.Slot}
    {plan : Plan} (ready : chain.Ready)
    (planned : Planned producer.config.priority chain plan) :
    Extends producer chain.store.frontier ⟨chain, slot, producer.extend chain slot plan⟩ where
  previousHash := rfl
  height := toNat_succ ready.height
  hash := (Momentum.digest_hashed _).symm
  content := rfl
  chainId := rfl
  timestamp := rfl
  version := planned.version_eq
  prices := planned.prices_eq_zero
  signature := by rw [Commitment.momentum, Producer.extend, Signer.sign]
  address := by rw [Producer.extend, Signer.sign]
  publicKey := by rw [Producer.extend, Signer.sign]

/-- From any state a run finalizes what it commits, and this extends the frontier. -/
theorem run_hashChain (producer : Producer) (events : List Event) {s : State}
    (hcommitting : s.chain.finalizer.committing = true) :
    (producer.run s events).chain.finalizer.finalized =
        s.chain.finalizer.finalized ++ (producer.commitments s events).map Commitment.signed ∧
      HashChain producer s.chain.store.frontier (producer.commitments s events) ∧
      (producer.run s events).chain.store.frontier =
        ((producer.commitments s events).map Commitment.momentum).getLastD
          s.chain.store.frontier := by
  induction events generalizing s with
  | nil => exact ⟨(List.append_nil _).symm, trivial, rfl⟩
  | cons event events ih =>
      have hmoves := step_moves producer s event
      have hrun : producer.run s (event :: events) =
        producer.run (producer.step s event) events := rfl
      rw [hrun, Producer.commitments]
      generalize event.inserted = arrived at hmoves
      generalize producer.committed? s event = commitment at hmoves
      generalize producer.step s event = t at hmoves ih
      generalize hnext : t.chain = next at hmoves
      -- the frontier is kept, or it is the momentum that is committed
      cases hmoves with
      | keeps frontier _ finalized committing =>
          obtain ⟨hfinalized, hchain, hlast⟩ := ih (s := t) (by rw [hnext, committing, hcommitting])
          rw [hnext, finalized] at hfinalized
          rw [hnext, frontier] at hchain hlast
          exact ⟨hfinalized, hchain, hlast⟩
      | commits ready planned =>
          obtain ⟨hfinalized, hchain, hlast⟩ := ih (s := t) (by
            rw [hnext, Chain.committing_append, hcommitting])
          rw [hnext, Chain.finalized_append, List.append_assoc] at hfinalized
          rw [hnext, Chain.frontier_append hcommitting] at hchain hlast
          refine ⟨hfinalized, ⟨extends_of_planned ready planned, hchain⟩, ?_⟩
          rw [hlast]
          exact (List.getLastD_cons ..).symm

/-- The momentums that a run finalizes are those of its rounds that succeed, in order.
They are a chain that starts at the genesis and ends at the frontier.  After any run the
next round succeeds exactly if it can read the chain, has a plan and can sign it. -/
theorem finalized_hashChain (producer : Producer) (genesis : Momentum) (events : List Event) :
    (producer.run (.start genesis) events).chain.finalizer.finalized =
        (producer.commitments (.start genesis) events).map Commitment.signed ∧
      HashChain producer genesis (producer.commitments (.start genesis) events) ∧
      (producer.run (.start genesis) events).chain.store.frontier =
        ((producer.commitments (.start genesis) events).map Commitment.momentum).getLastD
          genesis ∧
      ∀ slot elapsed,
        let s := producer.run (.start genesis) events
        (∃ commitment, producer.committed? s (.round slot elapsed) = some commitment) ↔
          s.chain.Ready ∧ s.chain.finalizer.failing = false ∧
            ∃ plan, Planned producer.config.priority s.chain plan := by
  obtain ⟨hfinalized, hchain, hlast⟩ := run_hashChain producer events (s := .start genesis) rfl
  refine ⟨?_, hchain, hlast, ?_⟩
  · rw [hfinalized]
    show [] ++ _ = _
    exact List.nil_append _
  · intro slot elapsed
    exact exists_committed_iff

end Production

end MomentumChain
