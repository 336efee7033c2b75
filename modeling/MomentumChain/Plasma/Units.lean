import MomentumChain.Word
import MomentumChain.Amount

/-!
# Plasma and what buys it

A block declares the plasma it consumes.  An account buys plasma by fusing
coins for a beneficiary or by attaching proof of work to the block.  This
module holds the rates of both and the fixed charges of blocks.

Proof of work buys one unit per `difficultyPerUnit`, up to `maxWorkPlasma`.
Fused coins buy `plasmaPerFusionUnit` for every whole fusion unit, up to
`maxFusionPlasma`.
-/

namespace MomentumChain.Plasma

/-! ## Rates and charges -/

/-- Base units in one coin. -/
def coin : UInt64 := 100000000

/-- Plasma declared by a plain user block. -/
def blockBase : UInt64 := 21000

/-- Plasma of a contract call that withdraws nothing. -/
def callBase : UInt64 := 5 * blockBase / 2

/-- Plasma of a contract call that refunds its caller. -/
def withdrawalBase : UInt64 := 7 * blockBase / 2

/-- Plasma of a contract call that withdraws twice. -/
def doubleWithdrawalBase : UInt64 := 9 * blockBase / 2

/-- Difficulty that buys one unit of plasma. -/
def difficultyPerUnit : UInt64 := 1500

/-- Coins locked per fusion unit, in base units. -/
def fusionUnitCost : UInt64 := coin

/-- Plasma granted by one fusion unit. -/
def plasmaPerFusionUnit : UInt64 := 2100

/-- Smallest amount a fusion may lock. -/
def minFusionAmount : UInt64 := 10 * coin

/-- Fusion units one account can hold. -/
def maxFusionUnits : UInt64 := 100000000

/-- Fusion plasma one account can hold. -/
def maxFusionPlasma : UInt64 := maxFusionUnits * fusionUnitCost

/-- Fused amount from which fusion plasma no longer grows. -/
def maxFusedAmount : UInt64 := fusionUnitCost * maxFusionUnits

/-- Plasma one block can buy by proof of work. -/
def maxWorkPlasma : UInt64 := maxFusionPlasma

/-- Difficulty that buys `maxWorkPlasma`. -/
def maxDifficulty : UInt64 := maxWorkPlasma * difficultyPerUnit

/-- Lower bound of both resource prices. -/
def minPrice : UInt64 := 1000

/-- The price at which plasma is sold at face value. -/
def parPrice : UInt64 := 1000

/-! ## Errors of the plasma market -/

/-- What makes a request to the plasma market inadmissible. -/
inductive Error where
  /-- More work plasma is asked for than one block can buy. -/
  | workPlasmaTooHigh (plasma : UInt64)
  | budgetOutOfBounds (budget : UInt64)
  | fusionTargetTooLow (target : UInt64)
  | workTargetTooLow (target : UInt64)
  | targetsExceedBudget
  | changeOutOfBounds (percent : UInt8)
  | denominatorOutOfBounds (denominator : UInt8)
deriving DecidableEq, Repr

/-- The parameter and what is wrong with it. -/
def Error.reason : Error → String
  | .workPlasmaTooHigh plasma => s!"plasma {plasma.toNat} exceeds PoW maximum {maxWorkPlasma.toNat}"
  | .budgetOutOfBounds budget => s!"max base plasma {budget.toNat} out of bounds"
  | .fusionTargetTooLow target => s!"fused plasma target {target.toNat} too low"
  | .workTargetTooLow target => s!"pow plasma target {target.toNat} too low"
  | .targetsExceedBudget => "plasma targets exceed momentum budget"
  | .changeOutOfBounds percent => s!"max price change percent {percent.toNat} out of bounds"
  | .denominatorOutOfBounds denominator =>
      s!"price change denominator {denominator.toNat} out of bounds"

def Error.message (error : Error) : String := s!"Forbidden parameter: {error.reason}"

/-! ## Conversions -/

/-- Plasma bought by a proof of work of the given difficulty. -/
def ofDifficulty (difficulty : UInt64) : UInt64 :=
  if difficulty = 0 then 0
  else if maxDifficulty < difficulty then maxWorkPlasma
  else difficulty / difficultyPerUnit

/-- The least difficulty that buys `plasma`. -/
def difficultyFor (plasma : UInt64) : Checked (Except Error UInt64) :=
  if maxWorkPlasma < plasma then .ok (.error (.workPlasmaTooHigh plasma))
  else .ok <$> Word.mul64 plasma difficultyPerUnit

/-- Plasma granted to an account for which `amount` is fused. -/
def ofFused (amount : Amount) : Checked UInt64 :=
  if amount.toNat = 0 then .ok 0
  else if maxFusedAmount.toNat ≤ amount.toNat then .ok maxFusionPlasma
  else Word.mul64 (UInt64.ofNat (amount.toNat / fusionUnitCost.toNat)) plasmaPerFusionUnit

end MomentumChain.Plasma
