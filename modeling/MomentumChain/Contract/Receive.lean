import MomentumChain.Contract.Method
import MomentumChain.Contract.Storage

/-!
# Receiving a call

A contract receives a send by running the method that the send calls.  The run
checks the send once more, reads and writes the storage, and returns the blocks
that the contract sends in turn.

A run acts on the storage as it goes.  What it has written stays written if it
fails later on.  That no method writes before its last possible failure is a
fact about the methods and not about `Run`.
-/

namespace MomentumChain.Contract

/-- A run over the storage that may fail. -/
abbrev Run (α : Type) : Type := ExceptT (Failure Error) (StateM Storage) α

namespace Run

/-- A computation with errors as a part of a run. -/
def ofExcept {α : Type} (computation : Except Error α) : Run α :=
  ExceptT.mk (pure (Failure.ofExcept computation))

/-- A checked computation as a part of a run. -/
def ofChecked {α : Type} (computation : Checked α) : Run α :=
  ExceptT.mk (pure (Failure.ofChecked computation))

end Run

/-- Momentums between the activation of a spork and its enforcement. -/
def sporkDelay : UInt64 := 6

namespace Method

/-- Locks the coins of the send and adds them to the total of the
beneficiary. -/
def receiveFuse (protocol : Protocol) (send : Block) : Run (List Block) := do
  Run.ofExcept (validate protocol .fuse send)
  let beneficiary ← Run.ofExcept (parameters .address .fuse send)
  let storage ← get
  let expirationHeight ← Run.ofChecked (Word.add64 storage.frontier.height protocol.fusionLock)
  let total := (storage.fusedFor beneficiary).satAdd send.amount
  modify (·.setFused beneficiary total)
  modify (·.saveFusion ⟨send.address, send.hash, send.amount, beneficiary, expirationHeight⟩)
  return []

/-- The block that refunds a fusion. -/
def refund (protocol : Protocol) (fusion : Fusion) (owner : Address) : Block :=
  { kind := .contractSend
    address := .plasmaContract
    recipient := owner
    amount := fusion.amount
    token := protocol.qsr }

/-- Forgets a fusion that is no longer locked and refunds its coins. -/
def receiveCancelFuse (protocol : Protocol) (send : Block) : Run (List Block) := do
  Run.ofExcept (validate protocol .cancelFuse send)
  let id ← Run.ofExcept (parameters .hash .cancelFuse send)
  let storage ← get
  match storage.fusion? send.address id with
  | none => throw (.error .noEntry)
  | some fusion =>
      if storage.frontier.height < fusion.expirationHeight then
        throw (.error .fusionLocked)
      let rest := (storage.fusedFor fusion.beneficiary).satSub fusion.amount
      modify (·.setFused fusion.beneficiary rest)
      modify (·.deleteFusion send.address id)
      return [refund protocol fusion send.address]

/-- Replaces the variables of the plasma market. -/
def receiveSetVariables (protocol : Protocol) (send : Block) : Run (List Block) := do
  Run.ofExcept (validate protocol .setVariables send)
  let vars ← Run.ofExcept (parameters .plasmaVariables .setVariables send)
  modify fun storage => { storage with vars }
  return []

/-- Records a spork that is not active. -/
def receiveCreateSpork (protocol : Protocol) (send : Block) : Run (List Block) := do
  Run.ofExcept (validate protocol .createSpork send)
  let (name, description) ← Run.ofExcept (parameters (.pair .text .text) .createSpork send)
  modify (·.saveSpork ⟨send.hash, name, description, false, 0⟩)
  return []

/-- Activates a recorded spork with a delay. -/
def receiveActivateSpork (protocol : Protocol) (send : Block) : Run (List Block) := do
  Run.ofExcept (validate protocol .activateSpork send)
  let id ← Run.ofExcept (parameters .hash .activateSpork send)
  let storage ← get
  match storage.spork? id with
  | none => throw (.error .noEntry)
  | some record =>
      if record.activated then
        throw (.error .alreadyActive)
      let enforcementHeight ← Run.ofChecked (Word.add64 storage.frontier.height sporkDelay)
      modify (·.saveSpork { record with activated := true, enforcementHeight })
      return []

/-- Adds the coins of the send to the balance of the contract. -/
def receiveDonate (protocol : Protocol) (send : Block) : Run (List Block) := do
  Run.ofExcept (validate protocol .donate send)
  modify (·.addBalance send.recipient send.token send.amount)
  return []

/-- Receives a send that calls the method. -/
def receive (protocol : Protocol) : Method → Block → Run (List Block)
  | .fuse => receiveFuse protocol
  | .cancelFuse => receiveCancelFuse protocol
  | .setVariables => receiveSetVariables protocol
  | .createSpork => receiveCreateSpork protocol
  | .activateSpork => receiveActivateSpork protocol
  | .donate => receiveDonate protocol

end Method

end MomentumChain.Contract
