import MomentumChain.Selection.Limits

/-!
# Errors of production

A round reads the store and the pool, selects blocks and hands a momentum to the
finalizer.  Each of these can end the round.  The store, the pool and the
finalizer give their own reasons.

An error of one of those three is recoverable: the next slot may succeed.  A
violation of a limit is critical: the selection chose what it must not choose.
-/

namespace MomentumChain.Production

/-- Why no momentum is produced. -/
inductive Error where
  | store (reason : String)
  | pool (reason : String)
  | finalizer (reason : String)
  | configuration (reason : String)
  | heightOverflow (height : UInt64)
  | violation (cause : Selection.Violation)
deriving DecidableEq

namespace Error

def message : Error → String
  | .store reason => s!"Momentum store error: {reason}"
  | .pool reason => s!"Block pool error: {reason}"
  | .finalizer reason => s!"Finalizer error: {reason}"
  | .configuration reason => s!"Invalid configuration: {reason}"
  | .heightOverflow height => s!"Momentum height overflow after {height.toNat}"
  | .violation cause => cause.message

/-- A later round may succeed. -/
def isRecoverable : Error → Bool
  | .store _ | .pool _ | .finalizer _ => true
  | .configuration _ | .heightOverflow _ | .violation _ => false

/-- The selection itself is at fault. -/
def isCritical : Error → Bool
  | .violation _ => true
  | .store _ | .pool _ | .finalizer _ | .configuration _ | .heightOverflow _ => false

end Error

end MomentumChain.Production
