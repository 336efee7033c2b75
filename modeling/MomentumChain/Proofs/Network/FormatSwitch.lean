import MomentumChain.Proofs.Contract.Lifecycle
import MomentumChain.Proofs.Network.Run

/-!
# The switch of the format

Whether the spork of the dynamic market is in force is decided by the contracts, from what they
have recorded and from the frontier that they see.  The format of a momentum is decided by its
producer, from what the store says.  The two go together in every round that begins in step
(`InStep`), as a round does that follows `Network.sync`.

Over a run the format then changes once at most, and where it changes is fixed by the first
activation of the spork (`format_switches_once`).  This activation can be looked up at the end of
the run, though the producers look at the sporks of their own time: the contracts forget no
activation, and one that is still to come is not below the frontier of now.
-/

namespace MomentumChain.Network

open Contract

/-! ## Rounds in step -/

/-- The contracts see the frontier of the chain, and the chain is under the sporks in force. -/
structure InStep (network : Network) : Prop where
  frontier : network.storage.frontier = network.chain.store.frontier
  sporks : network.chain.store.sporks = network.storage.activeSporks

theorem sync_inStep (network : Network) : network.sync.InStep := ⟨rfl, rfl⟩

/-! ## A point of a run -/

/-- Nothing is stored at first, frontiers never get lower, and no two creations share a number. -/
structure Orderly (network : Network) (genesis : Momentum) (events : List Event) : Prop where
  new : network.storage = { frontier := genesis }
  rising : network.Rising events
  distinct : Distinct (network.history events).past

section

variable {network : Network} {genesis : Momentum} {done events : List Event} {p q : Produced}

theorem Orderly.lifecycle (h : network.Orderly genesis events) (hdone : done <+: events) :
    Lifecycle network.protocol (network.history done) := by
  obtain ⟨later, rfl⟩ := hdone
  have hdistinct := h.distinct
  rw [history_append] at hdistinct
  have hgrows : (network.history done).past <+:
    ((network.history done).run network.protocol ((network.run done).steps later)).past :=
      History.past_run _
  -- the creations of the shorter run are among those of the longer one
  obtain ⟨rest, hrest⟩ := hgrows
  rw [← hrest] at hdistinct
  refine History.run_invariant
    (I := fun t => Distinct t.past → Lifecycle network.protocol t) moves_lifecycle ?_ _
    hdistinct.of_append
  intro _
  rw [h.new]
  exact lifecycle_start network.protocol genesis

theorem Orderly.rises (h : network.Orderly genesis events) (hdone : done <+: events) :
    Rises (network.history done) (network.history events) := by
  obtain ⟨later, rfl⟩ := hdone
  have hsteps := h.rising.steps (s := ⟨[], network.storage⟩) rfl
  rw [steps_append, History.rising_append] at hsteps
  rw [history_append]
  exact History.run_rises hsteps.2

theorem Orderly.sorted (h : network.Orderly genesis events) :
    (network.history events).past.Pairwise fun first second => first.height ≤ second.height := by
  obtain ⟨later, hpast, hsorted, _⟩ := (h.rises List.nil_prefix).calls
  rw [hpast]
  exact hsorted

/-! ## The format of a momentum -/

/-- A momentum of a round in step has the format of the sporks in force at its parent. -/
theorem exists_version_eq (hp : p ∈ network.produced events) (hstep : p.network.InStep) :
    ∃ done, done <+: events ∧ (network.history done).storage.frontier = p.parent ∧
      p.momentum.version =
        if (network.history done).storage.activeSporks.contains .dynamicPlasma then 2 else 1 := by
  obtain ⟨done, hdone, hnetwork, producer, hextends⟩ := exists_of_mem_produced hp
  have hstorage : (network.history done).storage = p.network.storage := by
    rw [hnetwork, history_storage]
  refine ⟨done, hdone, ?_, ?_⟩
  · rw [hstorage, hstep.frontier]
    rfl
  · rw [hstorage, ← hstep.sporks]
    exact hextends.version

theorem Orderly.version_of_firstActivated (h : network.Orderly genesis events) {first : Success}
    (hfirst : FirstActivated network.protocol (network.history events).past
      Spork.dynamicPlasma.name first)
    (hp : p ∈ network.produced events) (hstep : p.network.InStep) :
    p.momentum.version =
      if first.height.toNat + sporkDelay.toNat ≤ p.parent.height.toNat then 2 else 1 := by
  obtain ⟨done, hdone, hparent, hversion⟩ := exists_version_eq hp hstep
  have hcontains := hfirst.contains_iff (h.lifecycle hdone) (h.rises hdone) h.sorted
  rw [hversion, ← hparent]
  simp only [hcontains]

theorem Orderly.version_of_not_activated (h : network.Orderly genesis events)
    (hnone : ∀ activate, ¬ Activated network.protocol (network.history events).past
      Spork.dynamicPlasma.name activate)
    (hp : p ∈ network.produced events) (hstep : p.network.InStep) : p.momentum.version = 1 := by
  obtain ⟨done, hdone, _, hversion⟩ := exists_version_eq hp hstep
  rw [hversion, if_neg]
  rw [(h.lifecycle hdone).contains_iff]
  rintro ⟨activate, hactivated, _⟩
  exact hnone activate (hactivated.of_rises (h.rises hdone))

/-- The formats of the rounds in step follow from the first activation of the spork. -/
theorem Orderly.exists_firstActivated_or (h : network.Orderly genesis events) :
    (∃ first, FirstActivated network.protocol (network.history events).past
        Spork.dynamicPlasma.name first ∧
      ∀ p ∈ network.produced events, p.network.InStep → p.momentum.version =
        if first.height.toNat + sporkDelay.toNat ≤ p.parent.height.toNat then 2 else 1) ∨
      (∀ activate, ¬ Activated network.protocol (network.history events).past
        Spork.dynamicPlasma.name activate) ∧
      ∀ p ∈ network.produced events, p.network.InStep → p.momentum.version = 1 := by
  by_cases hactivated : ∃ activate, Activated network.protocol (network.history events).past
    Spork.dynamicPlasma.name activate
  · obtain ⟨activate, hactivate⟩ := hactivated
    obtain ⟨first, hfirst⟩ := exists_firstActivated hactivate
    exact .inl ⟨first, hfirst, fun _ => h.version_of_firstActivated hfirst⟩
  · have hnone := not_exists.mp hactivated
    exact .inr ⟨hnone, fun _ => h.version_of_not_activated hnone⟩

/-- The momentums up to a height have the older format, and the others the newer one. -/
theorem Orderly.exists_lastLegacy (h : network.Orderly genesis events) :
    ∃ limit, ∀ p ∈ network.produced events, p.network.InStep →
      p.momentum.version = if p.momentum.height.toNat ≤ limit then 1 else 2 := by
  rcases h.exists_firstActivated_or with ⟨first, _, hversion⟩ | ⟨_, hversion⟩
  · refine ⟨first.height.toNat + sporkDelay.toNat, ?_⟩
    intro p hp hstep
    rw [hversion p hp hstep, height_of_mem_produced hp]
    by_cases hreached : first.height.toNat + sporkDelay.toNat ≤ p.parent.height.toNat
    · rw [if_pos hreached, if_neg (by omega)]
    · rw [if_neg hreached, if_pos (by omega)]
  · refine ⟨UInt64.size, ?_⟩
    intro p hp hstep
    rw [hversion p hp hstep, if_pos (Nat.le_of_lt p.momentum.height.toNat_lt)]

/-- In order of their production, heights and formats of the momentums never go back. -/
theorem Orderly.produced_sorted (h : network.Orderly genesis events) :
    (network.produced events).Pairwise fun p q => p.network.InStep → q.network.InStep →
      p.momentum.height ≤ q.momentum.height ∧ p.momentum.version ≤ q.momentum.version := by
  obtain ⟨limit, hversion⟩ := h.exists_lastLegacy
  refine h.rising.produced.2.imp_of_mem ?_
  intro p q hp hq hle hpstep hqstep
  rw [hpstep.frontier, hqstep.frontier] at hle
  have hparents : p.parent.height.toNat ≤ q.parent.height.toNat := UInt64.le_iff_toNat_le.mp hle
  have hheights : p.momentum.height.toNat ≤ q.momentum.height.toNat := by
    rw [height_of_mem_produced hp, height_of_mem_produced hq]
    exact Nat.succ_le_succ hparents
  refine ⟨UInt64.le_iff_toNat_le.mpr hheights, ?_⟩
  rw [hversion p hp hpstep, hversion q hq hqstep]
  by_cases hlegacy : q.momentum.height.toNat ≤ limit
  · rw [if_pos hlegacy, if_pos (Nat.le_trans hheights hlegacy)]
    exact UInt64.le_refl _
  · rw [if_neg hlegacy]
    split <;> decide

end

/-! ## The switch -/

/-- In a run in which frontiers never get lower and no two creations of sporks share a number:

* at every point, a spork is in force exactly if a spork of its name, created before, was
  activated at least six momentums below the frontier;
* no number is activated twice;
* a spork in force stays in force;
* a produced momentum extends its parent;
* in the rounds in step, a momentum has version 2 exactly if its parent is at least six
  momentums above the first activation of the spork of the dynamic market, and version 1 if there
  is no such activation;
* so these momentums have version 1 up to some height and version 2 from then on, and neither
  height nor version goes back. -/
theorem format_switches_once {network : Network} {genesis : Momentum} {done events : List Event}
    (hnew : network.storage = { frontier := genesis }) (hdone : done <+: events)
    (rising : network.Rising events)
    (distinct : ((creations (network.history events).past).map (·.hash)).Nodup) :
    let s := (network.run done).storage
    let t := (network.run events).storage
    let past := (network.history events).past
    (∀ spork, s.activeSporks.contains spork = true ↔
        ∃ activate,
          Activated network.protocol (network.history done).past spork.name activate ∧
          activate.height.toNat + 6 ≤ s.frontier.height.toNat) ∧
      past.Pairwise (fun first second =>
        ∀ id, first.Activates network.protocol id → ¬ second.Activates network.protocol id) ∧
      (∀ spork, s.activeSporks.contains spork = true →
        t.activeSporks.contains spork = true) ∧
      (∀ p ∈ network.produced events, p.momentum.previousHash = p.parent.hash ∧
        p.momentum.height.toNat = p.parent.height.toNat + 1) ∧
      ((∃ first, FirstActivated network.protocol past "spork-dynamic-plasma" first ∧
          ∀ p ∈ network.produced events, p.network.InStep → p.momentum.version =
            if first.height.toNat + 6 ≤ p.parent.height.toNat then 2 else 1) ∨
        (∀ activate, ¬ Activated network.protocol past "spork-dynamic-plasma" activate) ∧
          ∀ p ∈ network.produced events, p.network.InStep → p.momentum.version = 1) ∧
      (∃ limit, ∀ p ∈ network.produced events, p.network.InStep →
        p.momentum.version = if p.momentum.height.toNat ≤ limit then 1 else 2) ∧
      (network.produced events).Pairwise fun p q => p.network.InStep → q.network.InStep →
        p.momentum.height ≤ q.momentum.height ∧ p.momentum.version ≤ q.momentum.version := by
  intro s t past
  have h : network.Orderly genesis events := ⟨hnew, rising, distinct⟩
  have hs : (network.history done).storage = s := history_storage done
  have ht : (network.history events).storage = t := history_storage events
  have hdoneLife := h.lifecycle hdone
  have hlife := h.lifecycle List.prefix_rfl
  refine ⟨?_, hlife.once, ?_, ?_, h.exists_firstActivated_or, h.exists_lastLegacy,
    h.produced_sorted⟩
  · intro spork
    rw [← hs]
    exact hdoneLife.contains_iff
  · intro spork
    rw [← hs, ← ht]
    exact hdoneLife.contains_of_rises hlife (h.rises hdone)
  · intro p hp
    obtain ⟨_, _, _, _, hextends⟩ := exists_of_mem_produced hp
    exact ⟨hextends.previousHash, hextends.height⟩

/-! ## A round before the switch and one after it -/

theorem exists_planned_of_empty {chain : Production.Chain} (priority : Address.Set)
    (hempty : chain.pool.blocks = []) : ∃ plan, Production.Planned priority chain plan := by
  cases hdynamic : chain.isDynamic with
  | false => exact ⟨_, .legacy hdynamic⟩
  | true =>
      obtain ⟨usage, fusion, work, hused, hfusion, hwork⟩ := chain.market.exists_nextPrices []
      have hcontent : (chain.rules priority).content chain.pool.blocks = .ok [] := by
        rw [hempty, Selection.Rules.content, List.perm_nil.mp (Selection.Rules.order_perm _ _)]
        rfl
      exact ⟨_, .dynamic hdynamic hcontent rfl hused hfusion hwork⟩

/-- A round in step produces, if the chain is ready, can be signed and has nothing to select. -/
theorem exists_produced_of_empty {network : Network} {place : Nat} {member : Member}
    (hmember : network.members[place]? = some member) (ready : network.chain.Ready)
    (signer : network.chain.finalizer.failing = false)
    (hempty : network.chain.pool.blocks = []) (slot : Election.Slot) :
    ∃ signed, network.produced [.sync, .produce place slot] = [⟨network.sync, slot, signed⟩] := by
  have hsync : network.sync.members[place]? = some member := hmember
  have hready : network.sync.chain.Ready := ⟨ready.store, ready.height, ready.pool⟩
  obtain ⟨plan, planned⟩ : ∃ plan,
      Production.Planned member.producer.config.priority network.sync.chain plan :=
    exists_planned_of_empty _ hempty
  obtain ⟨commitment, hcommitted⟩ : ∃ commitment,
      member.producer.committed? ⟨network.sync.chain, member.metrics⟩ (.round slot 0) =
        some commitment :=
    Production.exists_committed_iff.mpr ⟨hready, signer, plan, planned⟩
  rw [Production.Producer.committed?] at hcommitted
  rw [produced, produced, next, produced?, produced?, run_produce_of_some hsync]
  generalize (member.producer.produce slot 0).run ⟨network.sync.chain, member.metrics⟩ = ending
    at hcommitted ⊢
  obtain ⟨outcome, state⟩ := ending
  cases outcome with
  | ok signed => exact ⟨signed, rfl⟩
  | error failure => cases hcommitted

namespace Switch

def slot : Election.Slot := ⟨"p0", .zero, 0, 10⟩

/-- One producer and an empty storage. -/
def network : Network where
  protocol := Upgrade.protocol
  storage := { frontier := {} }
  chain := { store := { frontier := {} } }
  members := [{ producer := Production.lone ⟨[]⟩ }]

/-- A chain that has got to the height at which the spork is in force. -/
def grown : Production.Chain := { store := { frontier := { height := 10 } } }

def round : List Event := [.sync, .produce 0 slot]

/-- A round, the upgrade, and another round. -/
def events : List Event := round ++ Upgrade.steps.map .contract ++ (.chain grown :: round)

theorem steps_events :
    network.steps events = .frontier {} :: (Upgrade.steps ++ [.frontier { height := 10 }]) := rfl

theorem past_events : (network.history events).past =
    [⟨.createSpork, Upgrade.create, [], 0⟩, ⟨.activateSpork, Upgrade.activate, [], 4⟩] := by
  rw [history, steps_events, ← List.singleton_append, History.run_append, History.run_append]
  show (((History.start {}).run Upgrade.protocol Upgrade.steps).run Upgrade.protocol
    [.frontier { height := 10 }]).past = _
  rw [Upgrade.run_steps]
  rfl

theorem rising_events : network.Rising events := by
  have hround : ∀ network : Network, (network.next (.produce 0 slot)).storage = network.storage :=
    fun network => (produce_frame 0 slot).1
  simp only [events, round, Upgrade.steps, List.map_cons, List.map_nil, List.cons_append,
    List.nil_append, Rising, frontier_next_dispatch, hround]
  simp only [next, act, sync]
  decide

/-- The network before the second round. -/
def upgraded : Network :=
  ((network.run round).run (Upgrade.steps.map .contract)).next (.chain grown)

theorem exists_member_upgraded : ∃ member, upgraded.members[0]? = some member := by
  have hmember : network.sync.members[0]? = some { producer := Production.lone ⟨[]⟩ } := rfl
  have hchain : ∀ network : Network, (network.next (.chain grown)).members = network.members :=
    fun _ => rfl
  rw [upgraded, hchain, (contract_frame _).2, round, run, List.foldl_cons, List.foldl_cons,
    List.foldl_nil, next, next, run_produce_of_some hmember]
  exact ⟨_, rfl⟩

/-- Both rounds produce, each in step. -/
theorem exists_produced_events : ∃ legacy dynamic, network.produced events = [legacy, dynamic] ∧
    legacy.network.InStep ∧ dynamic.network.InStep ∧
      legacy.parent.height = 0 ∧ dynamic.parent.height = 10 := by
  obtain ⟨legacy, hlegacy⟩ : ∃ signed, network.produced round = [⟨network.sync, slot, signed⟩] :=
    exists_produced_of_empty rfl ⟨rfl, by decide, rfl⟩ rfl rfl slot
  obtain ⟨member, hmember⟩ := exists_member_upgraded
  obtain ⟨dynamic, hdynamic⟩ :
      ∃ signed, upgraded.produced round = [⟨upgraded.sync, slot, signed⟩] :=
    exists_produced_of_empty hmember ⟨rfl, by decide, rfl⟩ rfl rfl slot
  refine ⟨⟨_, slot, legacy⟩, ⟨_, slot, dynamic⟩, ?_, sync_inStep network, sync_inStep upgraded,
    rfl, rfl⟩
  rw [events, produced_append, produced_append, (contract_frame _).1, run_append, produced,
    ← upgraded, hlegacy, hdynamic]
  rfl

theorem activated_events : Activated Upgrade.protocol (network.history events).past
    "spork-dynamic-plasma" ⟨.activateSpork, Upgrade.activate, [], 4⟩ := by
  rw [past_events]
  exact ⟨⟨.createSpork, Upgrade.create, [], 0⟩, .zero, List.Sublist.refl _,
    ⟨rfl, rfl, rfl, _, Upgrade.create_reads⟩, ⟨rfl, rfl, Upgrade.activate_reads⟩⟩

end Switch

/-- A round before the upgrade, and one at the first height at which the spork is in force. -/
theorem format_switches_once_upgrade :
    ∃ legacy dynamic, Switch.network.produced Switch.events = [legacy, dynamic] ∧
      legacy.momentum.version = 1 ∧ dynamic.momentum.version = 2 ∧ dynamic.parent.height = 10 := by
  obtain ⟨legacy, dynamic, hproduced, hlegacy, hdynamic, hbefore, hafter⟩ :=
    Switch.exists_produced_events
  have hdistinct :
      ((creations (Switch.network.history Switch.events).past).map (·.hash)).Nodup := by
    rw [Switch.past_events]
    decide
  have hswitch := format_switches_once rfl List.prefix_rfl Switch.rising_events hdistinct
  obtain ⟨_, _, _, _, hformats, _⟩ := hswitch
  rcases hformats with ⟨first, hfirst, hversion⟩ | ⟨hnone, _⟩
  · have hheight : first.height = 4 := by
      obtain ⟨create, id, hsublist, _, hactivates⟩ := hfirst.activated
      rw [Switch.past_events] at hsublist
      have hmem := hsublist.subset (List.mem_cons_of_mem _ (List.mem_singleton_self first))
      rcases List.mem_cons.mp hmem with rfl | hmem
      · cases hactivates.method
      · rw [List.mem_singleton.mp hmem]
    rw [hproduced] at hversion
    have hlegacyVersion := hversion legacy (by simp) hlegacy
    have hdynamicVersion := hversion dynamic (by simp) hdynamic
    rw [hheight, hbefore] at hlegacyVersion
    rw [hheight, hafter] at hdynamicVersion
    exact ⟨legacy, dynamic, hproduced, hlegacyVersion, hdynamicVersion, hafter⟩
  · exact absurd Switch.activated_events (hnone _)

end MomentumChain.Network
