/-!
# Sporks

A spork is a switch for an upgrade of the protocol.  It has a canonical name,
under which the spork contract records it.  `Spork.Active` is a set of sporks.
It is listed in the order of `Spork.all`.
-/

namespace MomentumChain

/-- A switch for an upgrade. -/
inductive Spork where
  | accelerator
  | htlc
  | bridgeAndLiquidity
  /-- The end of pillar registration. -/
  | noPillarReg
  | dynamicPlasma
deriving DecidableEq, Repr

namespace Spork

def all : List Spork := [.accelerator, .htlc, .bridgeAndLiquidity, .noPillarReg, .dynamicPlasma]

/-- The name under which the spork contract records a spork. -/
def name : Spork → String
  | .accelerator => "spork-accelerator"
  | .htlc => "spork-htlc"
  | .bridgeAndLiquidity => "spork-bridge-and-liquidity"
  | .noPillarReg => "spork-no-pillar-reg"
  | .dynamicPlasma => "spork-dynamic-plasma"

def ofName? (name : String) : Option Spork := all.find? fun spork => spork.name = name

/-- The name of a spork in records. -/
def label : Spork → String
  | .accelerator => "Accelerator"
  | .htlc => "Htlc"
  | .bridgeAndLiquidity => "BridgeAndLiquidity"
  | .noPillarReg => "NoPillarReg"
  | .dynamicPlasma => "DynamicPlasma"

def ofLabel? (label : String) : Option Spork := all.find? fun spork => spork.label = label

theorem mem_all (spork : Spork) : spork ∈ all := by cases spork <;> decide

/-- A set of sporks. -/
structure Active where
  contains : Spork → Bool

namespace Active

def none : Active := ⟨fun _ => false⟩

instance : Inhabited Active := ⟨none⟩

def insert (spork : Spork) (active : Active) : Active :=
  ⟨fun s => s = spork || active.contains s⟩

def toList (active : Active) : List Spork := all.filter active.contains

def ofList (sporks : List Spork) : Active := ⟨fun s => sporks.contains s⟩

@[ext] theorem ext {a b : Active} (h : ∀ s, a.contains s = b.contains s) : a = b := by
  cases a; cases b; simp_all [funext_iff]

/-- A set is the set of its listed members. -/
theorem ofList_toList (active : Active) : ofList active.toList = active := by
  ext s
  have h := mem_all s
  simp [ofList, toList, h]

end Active

end Spork

end MomentumChain
