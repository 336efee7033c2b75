import MomentumChain.Address
import MomentumChain.Production.Error

/-!
# Configuration of a producer

A producer stamps its momentums with the number of its chain and prefers the
blocks of some accounts.  Its coinbase must be the address that it signs for, and
contracts must not be among the preferred accounts, since their blocks go first
anyway.
-/

namespace MomentumChain.Production

/-- What a producer is configured with. -/
structure Config where
  chainId : UInt64 := 0
  /-- The address that the producer signs for. -/
  coinbase : Address := .zero
  /-- Accounts whose blocks go before those of other users. -/
  priority : Address.Set := .empty

namespace Config

instance : Inhabited Config := ⟨{}⟩

/-- What is wrong with a configuration. -/
inductive Flaw where
  /-- The coinbase is not the address of the signer. -/
  | foreignCoinbase (coinbase signer : Address)
  /-- A contract is among the preferred accounts. -/
  | contractPriority (contract : Address)
deriving DecidableEq

def Flaw.message : Flaw → String
  | .foreignCoinbase coinbase signer =>
      s!"coinbase {coinbase.text} does not match signer {signer.text}"
  | .contractPriority contract => s!"priority address {contract.text} is an embedded contract"

/-- The first flaw of the configuration of a signer. -/
def flaw? (config : Config) (signer : Address) : Option Flaw :=
  if config.coinbase ≠ signer then some (.foreignCoinbase config.coinbase signer)
  else (config.priority.toList.find? Address.isContract).map .contractPriority

/-- Success, or the error of the first flaw. -/
def check (config : Config) (signer : Address) : Except Error Unit :=
  match config.flaw? signer with
  | some flaw => .error (.configuration flaw.message)
  | none => .ok ()

end Config

end MomentumChain.Production
