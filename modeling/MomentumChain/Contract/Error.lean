import MomentumChain.Plasma.Units

/-!
# Errors of contract calls

A call fails because no method is found for it or because the method refuses
it.
-/

namespace MomentumChain.Contract

/-- Why a call to a contract fails. -/
inductive Error where
  | notContractAddress
  | noContract
  | noMethod
  | unreadableCall
  | invalidTokenOrAmount
  | permissionDenied
  | forbiddenVariables (cause : Plasma.Error)
  | sporkNameLength (length : Nat)
  | sporkDescriptionLength (length : Nat)
  | noEntry
  | fusionLocked
  | alreadyActive
deriving DecidableEq, Repr

def Error.message : Error → String
  | .notContractAddress => "Address is not a contract address"
  | .noContract => "Contract does not exist"
  | .noMethod => "Contract method not found"
  | .unreadableCall => "Failed to unpack call data"
  | .invalidTokenOrAmount => "Invalid token or amount"
  | .permissionDenied => "Permission denied"
  | .forbiddenVariables cause => cause.message
  | .sporkNameLength length => s!"Forbidden parameter: spork name length {length}"
  | .sporkDescriptionLength length => s!"Forbidden parameter: spork description length {length}"
  | .noEntry => "Data non existent"
  | .fusionLocked => "Revoke not due"
  | .alreadyActive => "Spork already active"

end MomentumChain.Contract
