import MomentumChain.Contract.CallData
import MomentumChain.Contract.Error
import MomentumChain.Protocol

/-!
# Methods of contracts

A method is called by a send to its contract.  `Method.validate` is the check
that a send has to pass before it enters a chain.  It looks at the send and at
the protocol parameters only.
-/

namespace MomentumChain.Contract

/-- A method of an embedded contract. -/
inductive Method where
  /-- Locks coins for the plasma of a beneficiary. -/
  | fuse
  /-- Refunds a fusion that is no longer locked. -/
  | cancelFuse
  /-- Sets the variables of the plasma market. -/
  | setVariables
  /-- Records a spork. -/
  | createSpork
  /-- Activates a recorded spork. -/
  | activateSpork
  /-- Gives coins to a contract. -/
  | donate
deriving DecidableEq, Repr

namespace Method

def all : List Method := [.fuse, .cancelFuse, .setVariables, .createSpork, .activateSpork, .donate]

def signature : Method → String
  | .fuse => "Fuse(address)"
  | .cancelFuse => "CancelFuse(hash)"
  | .setVariables => "SetVariables(uint64,uint64,uint64,uint8,uint8)"
  | .createSpork => "CreateSpork(string,string)"
  | .activateSpork => "ActivateSpork(hash)"
  | .donate => "Donate()"

def selector (method : Method) : Bytes := Contract.selector method.signature

/-- Plasma that a call consumes. -/
def requiredPlasma : Method → UInt64
  | .cancelFuse => Plasma.withdrawalBase
  | .fuse | .setVariables | .createSpork | .activateSpork | .donate => Plasma.callBase

/-! ## Parameters -/

/-- The parameters of a call, or the error of a call that cannot be read. -/
def parameters {α : Type} (format : Format α) (method : Method) (send : Block) : Except Error α :=
  match unpack? format method.signature send.data with
  | some value => .ok value
  | none => .error .unreadableCall

/-- Fails with an error unless a condition holds. -/
def require (condition : Bool) (error : Error) : Except Error Unit :=
  if condition then .ok () else .error error

/-- Shortest name of a spork in bytes. -/
def minSporkName : Nat := 5

/-- Longest name of a spork in bytes. -/
def maxSporkName : Nat := 40

/-- Longest description of a spork in bytes. -/
def maxSporkDescription : Nat := 400

/-- The sporks are in the hands of one address, and calls transfer nothing. -/
def checkSporkCaller (protocol : Protocol) (send : Block) : Except Error Unit := do
  require (send.address = protocol.sporkOwner) .permissionDenied
  require (send.amount = .zero) .invalidTokenOrAmount

/-- The check that a send has to pass. -/
def validate (protocol : Protocol) : Method → Block → Except Error Unit
  | .fuse, send => do
      let _ ← parameters .address .fuse send
      require (send.token = protocol.qsr && Plasma.minFusionAmount.toNat ≤ send.amount.toNat)
        .invalidTokenOrAmount
      require (send.amount.toNat % Plasma.fusionUnitCost.toNat = 0) .invalidTokenOrAmount
  | .cancelFuse, send => do
      let _ ← parameters .hash .cancelFuse send
      require (send.amount = .zero) .invalidTokenOrAmount
  | .setVariables, send => do
      require (send.address = protocol.governance) .permissionDenied
      let vars ← parameters .plasmaVariables .setVariables send
      require (send.amount = .zero) .invalidTokenOrAmount
      vars.check.mapError .forbiddenVariables
  | .createSpork, send => do
      checkSporkCaller protocol send
      let (name, description) ← parameters (.pair .text .text) .createSpork send
      require (minSporkName ≤ Utf8.size name && Utf8.size name ≤ maxSporkName)
        (.sporkNameLength (Utf8.size name))
      require (Utf8.size description ≤ maxSporkDescription)
        (.sporkDescriptionLength (Utf8.size description))
  | .activateSpork, send => do
      checkSporkCaller protocol send
      let _ ← parameters .hash .activateSpork send
      pure ()
  | .donate, send => do
      let _ ← parameters .unit .donate send
      require ((send.token = protocol.znn || send.token = protocol.qsr) && send.amount ≠ .zero)
        .invalidTokenOrAmount

end Method

end MomentumChain.Contract
