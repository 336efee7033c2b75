import MomentumChain.Plasma.Units

/-!
# Variables of the plasma market

Governance steers the market by five variables.  `Variables.check` says whether
new values are within bounds.  It reports the first violated bound in the order
of `Variables.checks`.
-/

namespace MomentumChain.Plasma

/-- The variables set by governance. -/
structure Variables where
  /-- Base plasma that user blocks may consume in one momentum. -/
  budget : UInt64
  /-- Fusion plasma a momentum is meant to use. -/
  fusionTarget : UInt64
  /-- Work plasma a momentum is meant to use. -/
  workTarget : UInt64
  /-- Largest change of a price in one round, in percent. -/
  changePercent : UInt8
  /-- Damping of the change. -/
  denominator : UInt8
deriving DecidableEq, Repr

namespace Variables

/-- The variables before governance sets any. -/
def initial : Variables := ⟨4200000, 1050000, 1050000, 10, 20⟩

instance : Inhabited Variables := ⟨initial⟩

/-! ## Bounds -/

def minBudget : UInt64 := 10 * blockBase

def maxBudget : UInt64 := 2000 * blockBase

/-- Smallest target of a resource. -/
def minTarget : UInt64 := blockBase

/-- Smallest and largest change of a price, in percent. -/
def percentBounds : UInt8 × UInt8 := (1, 50)

/-- Smallest and largest damping. -/
def denominatorBounds : UInt8 × UInt8 := (1, 100)

/-- The bounds in the order in which they are looked at, each with the error of
its violation. -/
def checks (vars : Variables) : List (Bool × Error) :=
  [(minBudget ≤ vars.budget && vars.budget ≤ maxBudget,
      .budgetOutOfBounds vars.budget),
   (minTarget ≤ vars.fusionTarget, .fusionTargetTooLow vars.fusionTarget),
   (minTarget ≤ vars.workTarget, .workTargetTooLow vars.workTarget),
   (Word.satAdd vars.fusionTarget vars.workTarget ≤ vars.budget,
      .targetsExceedBudget),
   (percentBounds.1 ≤ vars.changePercent && vars.changePercent ≤ percentBounds.2,
      .changeOutOfBounds vars.changePercent),
   (denominatorBounds.1 ≤ vars.denominator && vars.denominator ≤ denominatorBounds.2,
      .denominatorOutOfBounds vars.denominator)]

/-- Success, or the error of the first violated bound. -/
def check (vars : Variables) : Except Error Unit :=
  match vars.checks.find? fun (holds, _) => !holds with
  | some (_, error) => .error error
  | none => .ok ()

end Variables

end MomentumChain.Plasma
