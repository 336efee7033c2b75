import MomentumChain.Json.Record
import MomentumChain.Production.Config

/-!
# The form of a configuration

Every member of a configuration may be missing.  The preferred accounts are held
by the list of their addresses in order.
-/

namespace MomentumChain.Json.Form

/-- Sets of addresses. -/
def addresses : Form Address.Set where
  write set := (list address).write set.toList
  read? v := do return .ofList (← (list address).read? v)

/-- Configurations of producers. -/
def config : Form Production.Config :=
  recordWithDefaults
    (.cons "chain_identifier" word <| .cons "coinbase" address <|
      .cons "priority_addresses" addresses .nil)
    (fun c => (c.chainId, c.coinbase, c.priority, ()))
    (fun (chainId, coinbase, priority, ()) => ⟨chainId, coinbase, priority⟩)
    default

end MomentumChain.Json.Form
