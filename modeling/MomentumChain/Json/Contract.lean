import MomentumChain.Contract.Storage
import MomentumChain.Json.Record

/-!
# Forms of contract records

These are the records that the contracts keep.
-/

namespace MomentumChain.Json.Form

/-- Fusions. -/
def fusion : Form Contract.Fusion :=
  record
    (.cons "owner" address <| .cons "id" hash <| .cons "amount" amount <|
      .cons "beneficiary" address <| .cons "expiration_height" word .nil)
    (fun f => (f.owner, f.id, f.amount, f.beneficiary, f.expirationHeight, ()))
    (fun (owner, id, amount, beneficiary, expirationHeight, ()) =>
      ⟨owner, id, amount, beneficiary, expirationHeight⟩)

/-- Recorded sporks. -/
def sporkRecord : Form Contract.SporkRecord :=
  record
    (.cons "id" hash <| .cons "name" string <| .cons "description" string <|
      .cons "activated" bool <| .cons "enforcement_height" word .nil)
    (fun r => (r.id, r.name, r.description, r.activated, r.enforcementHeight, ()))
    (fun (id, name, description, activated, enforcementHeight, ()) =>
      ⟨id, name, description, activated, enforcementHeight⟩)

end MomentumChain.Json.Form
