import MomentumChain.Block
import MomentumChain.Word

/-!
# Limits of a selection

Three limits hold for the blocks of a momentum.  The base plasma of its user
blocks stays within the budget, the number of its contract blocks within the
cap, and the blocks of each account ascend strictly in height.  A round checks
them in this order.
-/

namespace MomentumChain.Selection

/-- A limit that a selection does not keep. -/
inductive Violation where
  /-- The user blocks consume more than the budget. -/
  | budget (used limit : UInt64)
  /-- There are more contract blocks than the cap. -/
  | contractCap (count cap : Nat)
  /-- A block follows one of its account that is not lower. -/
  | heightOrder (address : Address) (previous next : UInt64)
deriving DecidableEq

def Violation.message : Violation → String
  | .budget used limit => s!"Plasma budget exceeded: used {used.toNat}, limit {limit.toNat}"
  | .contractCap count cap => s!"Contract block cap exceeded: {count} > {cap}"
  | .heightOrder address previous next =>
      s!"Height order violation for {address.text}: {previous.toNat} then {next.toNat}"

/-- The base plasma of the user blocks, saturated. -/
def userPlasma (blocks : List Block) : UInt64 :=
  (blocks.filter fun block => !block.isContract).foldl
    (fun used block => Word.satAdd used block.basePlasma) 0

def contractCount (blocks : List Block) : Nat := blocks.countP Block.isContract

/-- The user blocks stay within the budget. -/
def checkBudget (blocks : List Block) (limit : UInt64) : Except Violation Unit :=
  if limit < userPlasma blocks then .error (.budget (userPlasma blocks) limit) else .ok ()

/-- The contract blocks stay within the cap. -/
def checkContractCap (blocks : List Block) (cap : Nat) : Except Violation Unit :=
  if cap < contractCount blocks then .error (.contractCap (contractCount blocks) cap) else .ok ()

/-- The blocks of each account ascend.  `last` holds the latest heights, newest
first. -/
def checkHeightsFrom (last : List (Address × UInt64)) : List Block → Except Violation Unit
  | [] => .ok ()
  | block :: rest =>
      match last.lookup block.address with
      | some previous =>
          if block.height ≤ previous then
            .error (.heightOrder block.address previous block.height)
          else checkHeightsFrom ((block.address, block.height) :: last) rest
      | none => checkHeightsFrom ((block.address, block.height) :: last) rest

/-- The blocks of each account ascend strictly in height. -/
def checkHeights (blocks : List Block) : Except Violation Unit := checkHeightsFrom [] blocks

/-- All limits in the order in which a round checks them. -/
def checkLimits (blocks : List Block) (budget : UInt64) (cap : Nat) : Except Violation Unit := do
  checkBudget blocks budget
  checkContractCap blocks cap
  checkHeights blocks

end MomentumChain.Selection
