import MomentumChain.Proofs.Contract.History
import MomentumChain.Proofs.Contract.CallData
import MomentumChain.Proofs.Contract.Dispatch
import MomentumChain.Proofs.Table

/-!
# Who sets the variables

The variables of the plasma market are set by one method, which only the governance address can
call, and which the dispatch table lists only while the spork of the dynamic market is in force.
A spork is in force some momentums after its owner has activated it, and it can be activated
only after its owner has created it.

Over a run, each recorded spork goes back to its creation, and each activated one to an
activation after its creation (`Governed`).  A call of the method that is found by dispatch
therefore has both in its past, and the variables that it sets are the packed ones
(`variables_governed`).
-/

namespace MomentumChain.Contract

/-! ## Dispatch -/

namespace DispatchTable

/-- The variables can be set only under the spork of the dynamic market. -/
theorem contains_of_lookup {active : Spork.Active} {address : Address} {data : Bytes}
    (h : (resolve active).lookup address data = .ok .setVariables) :
    active.contains .dynamicPlasma = true := by
  cases lookup_eq_iff.mp h with
  | found henabled =>
      cases henabled with
      | setVariables hactive => exact hactive

/-- A send with packed parameters names its method. -/
theorem lookup_call {α : Type} {active : Spork.Active} {method : Method} {send : Block}
    (h : Enabled active send.recipient method) (format : Format α) (value : α) :
    (resolve active).lookup (method.call format value send).recipient
      (method.call format value send).data = .ok method := by
  rw [Method.recipient_call, Method.data_call, lookup_eq_iff, pack]
  exact .found h (List.take_left' method.length_selector)

end DispatchTable

namespace Storage

variable {storage : Storage}

/-- A spork that is found is the one that was written, or was there before. -/
theorem eq_or_of_spork?_saveSpork {record found : SporkRecord} {id : Hash}
    (h : (storage.saveSpork record).spork? id = some found) :
    (id = record.id ∧ found = record) ∨ storage.spork? id = some found := by
  rw [spork?, saveSpork, Table.get?_insert] at h
  split at h
  · case isTrue hid =>
      cases h
      exact .inl ⟨hid, rfl⟩
  · exact .inr h

/-- A spork in force has an activated record under its name, whose height is reached. -/
theorem exists_of_contains_activeSporks {spork : Spork}
    (h : storage.activeSporks.contains spork = true) :
    ∃ id record, storage.spork? id = some record ∧ record.activated = true ∧
      record.enforcementHeight ≤ storage.frontier.height ∧ record.name = spork.name := by
  simp only [activeSporks, Spork.Active.ofList, List.contains_iff_mem, List.mem_filterMap] at h
  obtain ⟨record, hrecord, hinForce⟩ := h
  obtain ⟨id, hfinds⟩ := (Table.mem_values_iff storage.sporks record).mp hrecord
  rw [sporkInForce?] at hinForce
  split at hinForce
  · case isTrue hactive =>
      rw [Bool.and_eq_true, decide_eq_true_iff] at hactive
      have hname : spork.name = record.name := by simpa using List.find?_some hinForce
      exact ⟨id, record, hfinds, hactive.1, hactive.2, hname.symm⟩
  · cases hinForce

end Storage

/-! ## Calls on sporks and variables -/

/-- The owner of the sporks creates a spork of a name. -/
structure Success.Creates (protocol : Protocol) (success : Success) (id : Hash) (name : String) :
    Prop where
  method : success.method = .createSpork
  caller : success.send.address = protocol.sporkOwner
  id : success.send.hash = id
  names : ∃ description,
    Method.parameters (.pair .text .text) .createSpork success.send = .ok (name, description)

/-- The owner of the sporks activates a spork. -/
structure Success.Activates (protocol : Protocol) (success : Success) (id : Hash) : Prop where
  method : success.method = .activateSpork
  caller : success.send.address = protocol.sporkOwner
  names : Method.parameters .hash .activateSpork success.send = .ok id

/-- Governance sets the variables to the packed ones. -/
structure Success.Sets (protocol : Protocol) (success : Success) (vars : Plasma.Variables) :
    Prop where
  method : success.method = .setVariables
  caller : success.send.address = protocol.governance
  amount : success.send.amount = .zero
  packed : success.send.data = pack .plasmaVariables Method.setVariables.signature vars

/-! ## The invariant -/

/-- The variables are within bounds, and each recorded spork has a past. -/
structure Governed (protocol : Protocol) (s : History) : Prop where
  valid : s.storage.vars.check = .ok ()
  keyed : ∀ {id record}, s.storage.spork? id = some record → record.id = id
  created : ∀ {id record}, s.storage.spork? id = some record →
    ∃ create, [create].Sublist s.past ∧ create.Creates protocol id record.name
  activated : ∀ {id record}, s.storage.spork? id = some record → record.activated = true →
    ∃ create activate, [create, activate].Sublist s.past ∧
      create.Creates protocol id record.name ∧ activate.Activates protocol id ∧
      record.enforcementHeight.toNat = activate.height.toNat + sporkDelay.toNat

section

variable {protocol : Protocol} {s : History}

theorem governed_start (genesis : Momentum) : Governed protocol (.start genesis) where
  valid := by
    show Plasma.Variables.initial.check = .ok ()
    rfl
  keyed h := nomatch h
  created h := nomatch h
  activated h := nomatch h

/-- Other calls and other variables leave the past of a spork as it is. -/
theorem Governed.keep (h : Governed protocol s) {past : List Success} {storage : Storage}
    (hpast : s.past.Sublist past) (hsporks : storage.sporks = s.storage.sporks)
    (hvalid : storage.vars.check = .ok ()) : Governed protocol ⟨past, storage⟩ := by
  have hfinds : ∀ id, storage.spork? id = s.storage.spork? id := by
    intro id
    rw [Storage.spork?, hsporks, Storage.spork?]
  constructor
  · exact hvalid
  · intro id record hrecord
    exact h.keyed ((hfinds id).symm.trans hrecord)
  · intro id record hrecord
    obtain ⟨create, hcreate, hcreates⟩ := h.created ((hfinds id).symm.trans hrecord)
    exact ⟨create, hcreate.trans hpast, hcreates⟩
  · intro id record hrecord hactive
    obtain ⟨create, activate, hsublist, hcalls⟩ :=
      h.activated ((hfinds id).symm.trans hrecord) hactive
    exact ⟨create, activate, hsublist.trans hpast, hcalls⟩

/-- A record that is written needs a past within the longer past. -/
theorem Governed.save (h : Governed protocol s) {success : Success} {record : SporkRecord}
    (hcreated : ∃ create, [create].Sublist (s.past ++ [success]) ∧
      create.Creates protocol record.id record.name)
    (hactivated : record.activated = true →
      ∃ create activate, [create, activate].Sublist (s.past ++ [success]) ∧
        create.Creates protocol record.id record.name ∧ activate.Activates protocol record.id ∧
        record.enforcementHeight.toNat = activate.height.toNat + sporkDelay.toNat) :
    Governed protocol ⟨s.past ++ [success], s.storage.saveSpork record⟩ := by
  have hkeep : Governed protocol ⟨s.past ++ [success], s.storage⟩ :=
    h.keep (List.sublist_append_left _ _) rfl h.valid
  constructor
  · exact h.valid
  · intro id found hfound
    rcases Storage.eq_or_of_spork?_saveSpork hfound with ⟨rfl, rfl⟩ | hfound
    · rfl
    · exact hkeep.keyed hfound
  · intro id found hfound
    rcases Storage.eq_or_of_spork?_saveSpork hfound with ⟨rfl, rfl⟩ | hfound
    · exact hcreated
    · exact hkeep.created hfound
  · intro id found hfound
    rcases Storage.eq_or_of_spork?_saveSpork hfound with ⟨rfl, rfl⟩ | hfound
    · exact hactivated
    · exact hkeep.activated hfound

theorem moves_governed {t : History} (hmoves : Moves protocol s t) (h : Governed protocol s) :
    Governed protocol t := by
  cases hmoves with
  | quiet => exact ⟨h.valid, h.keyed, h.created, h.activated⟩
  | succeeds received =>
      have hpast := List.sublist_append_left s.past
      cases received with
      | fused | cancelled | donated => exact h.keep (hpast _) rfl h.valid
      | configured valid reads =>
          obtain ⟨_, vars, hreads, _, hcheck⟩ := Method.validate_setVariables_iff.mp valid
          rw [reads] at hreads
          cases hreads
          exact h.keep (hpast _) rfl hcheck
      | created valid reads =>
          obtain ⟨⟨hcaller, _⟩, _⟩ := Method.validate_createSpork_iff.mp valid
          refine h.save ⟨_, List.sublist_append_right _ _, rfl, hcaller, rfl, _, reads⟩ ?_
          intro hactive
          cases hactive
      | activated valid reads finds inactive enforced =>
          obtain ⟨⟨hcaller, _⟩, _⟩ := Method.validate_activateSpork_iff.mp valid
          have hid := h.keyed finds
          obtain ⟨create, hcreate, hcreates⟩ := h.created finds
          rw [← hid] at hcreates reads
          refine h.save ⟨create, hcreate.trans (hpast _), hcreates⟩ ?_
          intro _
          refine ⟨create, _, hcreate.append (List.Sublist.refl _), hcreates,
            ⟨rfl, hcaller, reads⟩, ?_⟩
          exact Word.toNat_of_add64 enforced

/-! ## The next step -/

/-- The method that receives a dispatched send is the one that the send names. -/
theorem lookup_of_next {send : Block} {success : Success}
    (h : (s.next protocol (.dispatch send)).past = s.past ++ [success]) :
    (DispatchTable.resolve s.storage.activeSporks).lookup send.recipient send.data =
      .ok success.method := by
  have hnothing : s.past ≠ s.past ++ [success] := by simp
  rw [History.next] at h
  split at h
  · case h_1 method hmethod =>
      rw [History.receive] at h
      split at h
      · cases List.append_cancel_left h
        exact hmethod
      · exact absurd h hnothing
  · exact absurd h hnothing

/-- Only a call that sets the variables changes them. -/
theorem Moves.exists_sets_of_vars_ne {t : History} (hmoves : Moves protocol s t)
    (hvars : t.storage.vars ≠ s.storage.vars) :
    ∃ success, t.past = s.past ++ [success] ∧ success.method = .setVariables := by
  cases hmoves with
  | quiet => exact absurd rfl hvars
  | succeeds received =>
      cases received with
      | configured => exact ⟨_, rfl, rfl⟩
      | fused | cancelled | created | activated | donated => exact absurd rfl hvars

/-- The variables after a call that sets them are the packed ones. -/
theorem Moves.sets {t : History} (hmoves : Moves protocol s t) {success : Success}
    (hpast : t.past = s.past ++ [success]) (hmethod : success.method = .setVariables) :
    success.Sets protocol t.storage.vars := by
  cases hmoves with
  | quiet => simp at hpast
  | succeeds received =>
      cases List.append_cancel_left hpast
      cases received with
      | configured valid reads =>
          obtain ⟨hcaller, _, _, hamount, _⟩ := Method.validate_setVariables_iff.mp valid
          have hpacked := eq_pack_of_unpack? Format.plasmaVariables_exact
            (Method.parameters_eq_ok_iff.mp reads)
          exact ⟨rfl, hcaller, hamount, hpacked⟩
      | fused | cancelled | created | activated | donated => cases hmethod

/-- A spork in force was created and then activated by the owner of the sporks, early enough. -/
theorem Governed.exists_of_contains {spork : Spork} (h : Governed protocol s)
    (hactive : s.storage.activeSporks.contains spork = true) :
    ∃ create activate id, [create, activate].Sublist s.past ∧
      create.Creates protocol id spork.name ∧ activate.Activates protocol id ∧
      activate.height.toNat + sporkDelay.toNat ≤ s.storage.frontier.height.toNat := by
  obtain ⟨id, record, hfinds, hactivated, hreached, hname⟩ :=
    Storage.exists_of_contains_activeSporks hactive
  obtain ⟨create, activate, hsublist, hcreates, hactivates, hheight⟩ :=
    h.activated hfinds hactivated
  rw [hname] at hcreates
  rw [UInt64.le_iff_toNat_le, hheight] at hreached
  exact ⟨create, activate, id, hsublist, hcreates, hactivates, hreached⟩

end

/-! ## The variables of a run -/

/-- In every run the variables are within bounds.  A step changes them only by a call of
governance that sets them and transfers nothing, and then to the packed ones.  If the call was
dispatched, then the owner of the sporks has created the spork of the dynamic market and has
later activated it, at least six momentums ago. -/
theorem variables_governed (protocol : Protocol) (genesis : Momentum) (steps : List Step)
    (step : Step) :
    let s := (History.start genesis).run protocol steps
    let t := s.next protocol step
    s.storage.vars.check = .ok () ∧
      (t.storage.vars ≠ s.storage.vars →
        ∃ success, t.past = s.past ++ [success] ∧ success.method = .setVariables) ∧
      ∀ success, t.past = s.past ++ [success] → success.method = .setVariables →
        success.Sets protocol t.storage.vars ∧
          ∀ send, step = .dispatch send →
            ∃ create activate id, [create, activate].Sublist s.past ∧
              create.Creates protocol id "spork-dynamic-plasma" ∧
              activate.Activates protocol id ∧
              activate.height.toNat + 6 ≤ s.storage.frontier.height.toNat := by
  intro s t
  have hgoverned : Governed protocol s :=
    History.run_invariant moves_governed (governed_start genesis) steps
  have hmoves : Moves protocol s t := History.next_moves step
  refine ⟨hgoverned.valid, hmoves.exists_sets_of_vars_ne, ?_⟩
  intro success hpast hmethod
  refine ⟨hmoves.sets hpast hmethod, ?_⟩
  rintro send rfl
  have hlookup := lookup_of_next hpast
  rw [hmethod] at hlookup
  exact hgoverned.exists_of_contains (DispatchTable.contains_of_lookup hlookup)

/-! ## An upgrade and its first use -/

namespace Upgrade

def protocol : Protocol :=
  { Protocol.mainnet with
    governance := ⟨Vector.replicate 20 1⟩
    sporkOwner := ⟨Vector.replicate 20 2⟩ }

def create : Block :=
  Method.createSpork.call (.pair .text .text) ("spork-dynamic-plasma", "")
    { address := protocol.sporkOwner, recipient := .sporkContract }

def activate : Block :=
  Method.activateSpork.call .hash .zero
    { address := protocol.sporkOwner, recipient := .sporkContract }

def vars : Plasma.Variables := { Plasma.Variables.initial with changePercent := 20 }

def set : Block :=
  Method.setVariables.call .plasmaVariables vars
    { address := protocol.governance, recipient := .plasmaContract }

/-- The spork is created, and activated six momentums before the frontier. -/
def steps : List Step :=
  [.dispatch create, .frontier { height := 4 }, .dispatch activate, .frontier { height := 10 }]

theorem create_reads : Method.parameters (.pair .text .text) .createSpork create =
    .ok ("spork-dynamic-plasma", "") :=
  Method.parameters_call
    (Format.pair_readsBack (Format.text_readsBack (by decide)) (Format.text_readsBack (by decide)))
    _ _

theorem activate_reads : Method.parameters .hash .activateSpork activate = .ok .zero :=
  Method.parameters_call (Format.hash_readsBack .zero) _ _

theorem set_reads : Method.parameters .plasmaVariables .setVariables set = .ok vars :=
  Method.parameters_call (Format.plasmaVariables_readsBack vars) _ _

theorem create_found (active : Spork.Active) :
    (DispatchTable.resolve active).lookup create.recipient create.data = .ok .createSpork :=
  DispatchTable.lookup_call .createSpork _ _

theorem activate_found (active : Spork.Active) :
    (DispatchTable.resolve active).lookup activate.recipient activate.data = .ok .activateSpork :=
  DispatchTable.lookup_call .activateSpork _ _

theorem set_found {active : Spork.Active} (h : active.contains .dynamicPlasma = true) :
    (DispatchTable.resolve active).lookup set.recipient set.data = .ok .setVariables :=
  DispatchTable.lookup_call (.setVariables h) _ _

/-- The storage with the activated spork. -/
def upgraded : Storage :=
  { (Storage.saveSpork (Storage.saveSpork { frontier := { height := 4 } }
      ⟨.zero, "spork-dynamic-plasma", "", false, 0⟩)
      ⟨.zero, "spork-dynamic-plasma", "", true, 10⟩) with frontier := { height := 10 } }

theorem run_steps : (History.start {}).run protocol steps =
    ⟨[⟨.createSpork, create, [], 0⟩, ⟨.activateSpork, activate, [], 4⟩], upgraded⟩ := by
  have hcreate : Method.validate protocol .createSpork create = .ok () :=
    Method.validate_createSpork_iff.mpr ⟨⟨rfl, rfl⟩, _, _, create_reads, by decide⟩
  have hactivate : Method.validate protocol .activateSpork activate = .ok () :=
    Method.validate_activateSpork_iff.mpr ⟨⟨rfl, rfl⟩, _, activate_reads⟩
  rw [History.run, steps, List.foldl_cons, History.next_dispatch (create_found _),
    History.receive_of_ok (receive_createSpork hcreate create_reads), List.foldl_cons,
    History.next, List.foldl_cons, History.next_dispatch (activate_found _),
    History.receive_of_ok (receive_activateSpork hactivate activate_reads rfl rfl rfl)]
  rfl

theorem contains_upgraded : upgraded.activeSporks.contains .dynamicPlasma = true := by decide

theorem next_set (past : List Success) : History.next protocol ⟨past, upgraded⟩ (.dispatch set) =
    ⟨past ++ [⟨.setVariables, set, [], 10⟩], { upgraded with vars }⟩ := by
  have hset : Method.validate protocol .setVariables set = .ok () :=
    Method.validate_setVariables_iff.mpr ⟨rfl, _, set_reads, rfl, rfl⟩
  rw [History.next_dispatch (s := ⟨past, upgraded⟩) (set_found contains_upgraded)]
  exact History.receive_of_ok (receive_setVariables hset set_reads)

end Upgrade

/-- A run of dispatched calls.  The variables are set at the first height at which the spork is in
force, and the spork was created and then activated. -/
theorem variables_governed_upgrade :
    ∃ s t success, s = (History.start {}).run Upgrade.protocol Upgrade.steps ∧
      t = s.next Upgrade.protocol (.dispatch Upgrade.set) ∧
      s.storage.activeSporks.contains .dynamicPlasma = true ∧ t.past = s.past ++ [success] ∧
      success.Sets Upgrade.protocol Upgrade.vars ∧ t.storage.vars = Upgrade.vars ∧
      ∃ create activate id, [create, activate].Sublist s.past ∧
        create.Creates Upgrade.protocol id "spork-dynamic-plasma" ∧
        activate.Activates Upgrade.protocol id ∧
        activate.height.toNat + 6 ≤ s.storage.frontier.height.toNat := by
  have hgoverned := (variables_governed Upgrade.protocol {} Upgrade.steps
    (.dispatch Upgrade.set)).2.2
  rw [Upgrade.run_steps, Upgrade.next_set] at hgoverned
  obtain ⟨hsets, hbefore⟩ := hgoverned _ rfl rfl
  exact ⟨_, _, _, Upgrade.run_steps.symm, (Upgrade.next_set _).symm, Upgrade.contains_upgraded,
    rfl, hsets, rfl, hbefore _ rfl⟩

end MomentumChain.Contract
