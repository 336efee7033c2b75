import MomentumChain.Contract.Method
import MomentumChain.Proofs.Contract.CallData

/-!
# What a send has to meet

The check of a method is a chain of conditions.  A send passes it exactly if it meets all of
them, and then its parameters can be read.  There is one lemma for each method that reads
parameters.  A call with packed parameters (`Method.call`) meets the condition on them.
-/

namespace MomentumChain.Contract

theorem bind_eq_ok_iff {ε α β : Type} {x : Except ε α} {f : α → Except ε β} {b : β} :
    (x >>= f) = .ok b ↔ ∃ a, x = .ok a ∧ f a = .ok b := by
  cases x with
  | error e =>
      constructor
      · intro h
        cases h
      · rintro ⟨a, h, _⟩
        cases h
  | ok a =>
      constructor
      · intro h
        exact ⟨a, rfl, h⟩
      · rintro ⟨_, h, hf⟩
        cases h
        exact hf

namespace Method

variable {protocol : Protocol} {send : Block}

@[simp] theorem require_eq_ok_iff {condition : Bool} {error : Error} {done : Unit} :
    require condition error = .ok done ↔ condition = true := by
  cases condition <;> simp [require]

@[simp] theorem checkSporkCaller_eq_ok_iff {done : Unit} :
    checkSporkCaller protocol send = .ok done ↔
      send.address = protocol.sporkOwner ∧ send.amount = .zero := by
  simp [checkSporkCaller, bind_eq_ok_iff]

@[simp] theorem mapError_eq_ok_iff {ε ε' α : Type} {f : ε → ε'} {x : Except ε α} {a : α} :
    x.mapError f = .ok a ↔ x = .ok a := by
  cases x <;> simp [Except.mapError]

@[simp] theorem parameters_eq_ok_iff {α : Type} {format : Format α} {method : Method} {value : α} :
    parameters format method send = .ok value ↔
      unpack? format method.signature send.data = some value := by
  rw [parameters]
  cases unpack? format method.signature send.data <;> simp

theorem validate_fuse_iff : validate protocol .fuse send = .ok () ↔
    (∃ beneficiary, parameters .address .fuse send = .ok beneficiary) ∧
      (send.token = protocol.qsr ∧ Plasma.minFusionAmount.toNat ≤ send.amount.toNat) ∧
        send.amount.toNat % Plasma.fusionUnitCost.toNat = 0 := by
  simp [validate, bind_eq_ok_iff]

theorem validate_cancelFuse_iff : validate protocol .cancelFuse send = .ok () ↔
    (∃ id, parameters .hash .cancelFuse send = .ok id) ∧ send.amount = .zero := by
  simp [validate, bind_eq_ok_iff]

theorem validate_setVariables_iff : validate protocol .setVariables send = .ok () ↔
    send.address = protocol.governance ∧
      ∃ vars, parameters .plasmaVariables .setVariables send = .ok vars ∧
        send.amount = .zero ∧ vars.check = .ok () := by
  simp [validate, bind_eq_ok_iff]

theorem validate_createSpork_iff : validate protocol .createSpork send = .ok () ↔
    (send.address = protocol.sporkOwner ∧ send.amount = .zero) ∧
      ∃ name description,
        parameters (.pair .text .text) .createSpork send = .ok (name, description) ∧
          (minSporkName ≤ Utf8.size name ∧ Utf8.size name ≤ maxSporkName) ∧
            Utf8.size description ≤ maxSporkDescription := by
  simp [validate, bind_eq_ok_iff]

theorem validate_activateSpork_iff : validate protocol .activateSpork send = .ok () ↔
    (send.address = protocol.sporkOwner ∧ send.amount = .zero) ∧
      ∃ id, parameters .hash .activateSpork send = .ok id := by
  simp only [validate, bind_eq_ok_iff, checkSporkCaller_eq_ok_iff]
  constructor
  · rintro ⟨_, hcaller, id, hreads, _⟩
    exact ⟨hcaller, id, hreads⟩
  · rintro ⟨hcaller, id, hreads⟩
    exact ⟨(), hcaller, id, hreads, rfl⟩

/-! ## Packed calls -/

/-- A send with packed parameters. -/
def call {α : Type} (method : Method) (format : Format α) (value : α) (send : Block) : Block :=
  { send with data := pack format method.signature value }

@[simp] theorem recipient_call {α : Type} (method : Method) (format : Format α) (value : α)
    (send : Block) : (method.call format value send).recipient = send.recipient := by
  -- not by computation, which compares the data as well and so computes a selector
  simp only [call]

@[simp] theorem data_call {α : Type} (method : Method) (format : Format α) (value : α)
    (send : Block) : (method.call format value send).data = pack format method.signature value :=
  rfl

theorem parameters_call {α : Type} {format : Format α} {value : α} (h : format.ReadsBack value)
    (method : Method) (send : Block) :
    parameters format method (method.call format value send) = .ok value :=
  parameters_eq_ok_iff.mpr (unpack?_pack h method.signature)

end Method

end MomentumChain.Contract
