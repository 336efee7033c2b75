import MomentumChain.Json.Contract
import MomentumChain.Json.Ledger
import MomentumChain.Json.Network
import MomentumChain.Json.Production
import MomentumChain.Proofs.Json.Form

/-!
# Records and their texts

Every record of the protocol is read back from its text (`records_faithful`).  There is no
condition on what the record holds, neither on its texts nor on its lists and sets.
-/

namespace MomentumChain.Json.Form

/-! ## Blocks and momentums -/

theorem blockKind_readsBack : blockKind.ReadsBack :=
  choice_readsBack fun kind => by cases kind <;> rfl

theorem block_readsBack : block.ReadsBack :=
  record_readsBack
    (.cons blockKind_readsBack <| .cons hash_readsBack <| .cons hash_readsBack <|
      .cons word_readsBack <| .cons address_readsBack <| .cons address_readsBack <|
      .cons amount_readsBack <| .cons token_readsBack <| .cons hash_readsBack <|
      .cons bytes_readsBack <| .cons word_readsBack <| .cons word_readsBack <|
      .cons (vector_readsBack 8) <| .cons word_readsBack .nil)
    (by decide) (fun _ => rfl)

theorem header_readsBack : header.ReadsBack :=
  record_readsBack (.cons address_readsBack <| .cons word_readsBack <| .cons hash_readsBack .nil)
    (by decide) (fun _ => rfl)

theorem usage_readsBack : usage.ReadsBack :=
  record_readsBack (.cons word_readsBack <| .cons word_readsBack .nil) (by decide) (fun _ => rfl)

theorem momentum_readsBack : momentum.ReadsBack :=
  record_readsBack
    (.cons word_readsBack <| .cons word_readsBack <| .cons hash_readsBack <|
      .cons hash_readsBack <| .cons word_readsBack <| .cons word_readsBack <|
      .cons (list_readsBack header_readsBack) <| .cons word_readsBack <|
      .cons word_readsBack .nil)
    (by decide) (fun _ => rfl)

theorem detailed_readsBack : detailed.ReadsBack :=
  record_readsBack (.cons momentum_readsBack <| .cons (list_readsBack block_readsBack) .nil)
    (by decide) (fun _ => rfl)

theorem signed_readsBack : signed.ReadsBack :=
  record_readsBack
    (.cons detailed_readsBack <| .cons address_readsBack <| .cons bytes_readsBack <|
      .cons bytes_readsBack .nil)
    (by decide) (fun _ => rfl)

/-! ## Networks -/

theorem algorithm_readsBack : algorithm.ReadsBack :=
  choice_readsBack fun algorithm => by cases algorithm; rfl

theorem consensus_readsBack : consensus.ReadsBack :=
  record_readsBack
    (.cons word_readsBack <| .cons word_readsBack <| .cons word_readsBack <|
      .cons token_readsBack <| .cons algorithm_readsBack .nil)
    (by decide) (fun _ => rfl)

theorem protocol_readsBack : protocol.ReadsBack :=
  record_readsBack
    (.cons consensus_readsBack <| .cons word_readsBack <| .cons word_readsBack <|
      .cons word_readsBack <| .cons word_readsBack <| .cons token_readsBack <|
      .cons token_readsBack <| .cons address_readsBack <| .cons address_readsBack .nil)
    (by decide) (fun _ => rfl)

theorem genesis_readsBack : genesis.ReadsBack :=
  record_readsBack
    (.cons word_readsBack <| .cons string_readsBack <| .cons (list_readsBack token_readsBack) .nil)
    (by decide) (fun _ => rfl)

theorem plasmaVariables_readsBack : plasmaVariables.ReadsBack :=
  record_readsBack
    (.cons word_readsBack <| .cons word_readsBack <| .cons word_readsBack <|
      .cons byte_readsBack <| .cons byte_readsBack .nil)
    (by decide) (fun _ => rfl)

theorem spork_readsBack : spork.ReadsBack :=
  choice_readsBack fun spork => by cases spork <;> rfl

theorem sporks_readsBack : sporks.ReadsBack := by
  intro active
  show ((list spork).read? ((list spork).write active.toList)).bind _ = _
  rw [list_readsBack spork_readsBack]
  exact congrArg some active.ofList_toList

theorem delegation_readsBack : delegation.ReadsBack :=
  record_readsBack
    (.cons string_readsBack <| .cons address_readsBack <| .cons amount_readsBack .nil)
    (by decide) (fun _ => rfl)

theorem slot_readsBack : slot.ReadsBack :=
  record_readsBack
    (.cons string_readsBack <| .cons address_readsBack <| .cons word_readsBack <|
      .cons word_readsBack .nil)
    (by decide) (fun _ => rfl)

/-! ## Contracts and producers -/

theorem fusion_readsBack : fusion.ReadsBack :=
  record_readsBack
    (.cons address_readsBack <| .cons hash_readsBack <| .cons amount_readsBack <|
      .cons address_readsBack <| .cons word_readsBack .nil)
    (by decide) (fun _ => rfl)

theorem sporkRecord_readsBack : sporkRecord.ReadsBack :=
  record_readsBack
    (.cons hash_readsBack <| .cons string_readsBack <| .cons string_readsBack <|
      .cons bool_readsBack <| .cons word_readsBack .nil)
    (by decide) (fun _ => rfl)

theorem addresses_readsBack : addresses.ReadsBack := by
  intro set
  show ((list address).read? ((list address).write set.toList)).bind _ = _
  rw [list_readsBack address_readsBack]
  exact congrArg some set.ofList_toList

theorem config_readsBack : config.ReadsBack :=
  recordWithDefaults_readsBack
    (.cons word_readsBack <| .cons address_readsBack <| .cons addresses_readsBack .nil)
    (by decide) (fun _ => rfl)

/-! ## Texts -/

/-- Every value is read back from its text, so two values never share one. -/
structure Faithful {α : Type} (form : Form α) : Prop where
  ofText?_text : ∀ value, form.ofText? (form.text value) = some value
  text_injective : Function.Injective form.text

theorem ReadsBack.faithful {α : Type} {form : Form α} (h : form.ReadsBack) : form.Faithful := by
  have hread : ∀ value, form.ofText? (form.text value) = some value := by
    intro value
    rw [ofText?, text, parse?_render]
    exact h value
  refine ⟨hread, fun first second heq => ?_⟩
  have hfirst := hread first
  rw [heq, hread second] at hfirst
  exact (Option.some.inj hfirst).symm

/-- Every record of the protocol is read back from its text, whatever it holds. -/
theorem records_faithful :
    block.Faithful ∧ momentum.Faithful ∧ signed.Faithful ∧ plasmaVariables.Faithful ∧
      usage.Faithful ∧ sporks.Faithful ∧ delegation.Faithful ∧ slot.Faithful ∧
      protocol.Faithful ∧ genesis.Faithful ∧ config.Faithful ∧ fusion.Faithful ∧
      sporkRecord.Faithful :=
  ⟨block_readsBack.faithful, momentum_readsBack.faithful, signed_readsBack.faithful,
    plasmaVariables_readsBack.faithful, usage_readsBack.faithful, sporks_readsBack.faithful,
    delegation_readsBack.faithful, slot_readsBack.faithful, protocol_readsBack.faithful,
    genesis_readsBack.faithful, config_readsBack.faithful, fusion_readsBack.faithful,
    sporkRecord_readsBack.faithful⟩

end MomentumChain.Json.Form
