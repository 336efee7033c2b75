import MomentumChain.Momentum
import MomentumChain.Plasma.Variables
import MomentumChain.Spork
import MomentumChain.Table

/-!
# Contract storage

The contracts keep fusions, the total fused for each beneficiary, sporks, the
variables of the plasma market and balances.  They also see the latest committed
momentum, the frontier.

A recorded spork is active at the frontier if it has been activated, its
enforcement height is reached and its name is the name of a spork.
-/

namespace MomentumChain.Contract

/-- Coins locked for plasma. -/
structure Fusion where
  /-- The account that locked the coins. -/
  owner : Address
  /-- Hash of the send that locked them. -/
  id : Hash
  amount : Amount
  /-- The account that receives the plasma. -/
  beneficiary : Address
  /-- First height at which the fusion may be cancelled. -/
  expirationHeight : UInt64
deriving DecidableEq

/-- A spork as it is recorded. -/
structure SporkRecord where
  /-- Hash of the send that created the spork. -/
  id : Hash
  name : String
  description : String
  activated : Bool
  /-- First height at which an activated spork is in force. -/
  enforcementHeight : UInt64
deriving DecidableEq

/-- The storage of the contracts and the chain they see. -/
structure Storage where
  frontier : Momentum
  vars : Plasma.Variables := .initial
  /-- Fusions by owner and number. -/
  fusions : Table (Address × Hash) Fusion := .empty
  /-- Totals fused for beneficiaries.  No total is zero. -/
  fused : Table Address Amount := .empty
  /-- Sporks by number. -/
  sporks : Table Hash SporkRecord := .empty
  /-- Balances by account and token. -/
  balances : Table (Address × Token) Amount := .empty

namespace Storage

/-- A fusion of an owner. -/
def fusion? (storage : Storage) (owner : Address) (id : Hash) : Option Fusion :=
  storage.fusions.get? (owner, id)

/-- Records a fusion under its owner and number. -/
def saveFusion (storage : Storage) (fusion : Fusion) : Storage :=
  { storage with fusions := storage.fusions.insert (fusion.owner, fusion.id) fusion }

def deleteFusion (storage : Storage) (owner : Address) (id : Hash) : Storage :=
  { storage with fusions := storage.fusions.erase (owner, id) }

/-- The total fused for a beneficiary. -/
def fusedFor (storage : Storage) (beneficiary : Address) : Amount :=
  (storage.fused.get? beneficiary).getD .zero

/-- Sets the total fused for a beneficiary.  A total of zero is not kept. -/
def setFused (storage : Storage) (beneficiary : Address) (total : Amount) : Storage :=
  { storage with
    fused :=
      if total = .zero then storage.fused.erase beneficiary
      else storage.fused.insert beneficiary total }

/-- A spork by its number. -/
def spork? (storage : Storage) (id : Hash) : Option SporkRecord := storage.sporks.get? id

/-- Records a spork under its number. -/
def saveSpork (storage : Storage) (record : SporkRecord) : Storage :=
  { storage with sporks := storage.sporks.insert record.id record }

/-- The recorded sporks in order of their numbers. -/
def sporkRecords (storage : Storage) : List SporkRecord :=
  storage.sporks.values.mergeSort fun a b => !(decide (b.id < a.id))

def balance (storage : Storage) (account : Address) (token : Token) : Amount :=
  (storage.balances.get? (account, token)).getD .zero

def addBalance (storage : Storage) (account : Address) (token : Token) (amount : Amount) :
    Storage :=
  { storage with
    balances :=
      storage.balances.insert (account, token) ((storage.balance account token).satAdd amount) }

/-- The spork of a record, if it is in force at a height. -/
def sporkInForce? (height : UInt64) (record : SporkRecord) : Option Spork :=
  if record.activated && record.enforcementHeight ≤ height then Spork.ofName? record.name
  else none

/-- The sporks in force at the frontier. -/
def activeSporks (storage : Storage) : Spork.Active :=
  .ofList (storage.sporks.values.filterMap (sporkInForce? storage.frontier.height))

end Storage

end MomentumChain.Contract
