import MomentumChain.Proofs.Contract.Governance

/-!
# The life of a spork

A spork is created, then it is activated, and six momentums later it is in force.

The storage keeps one record for each number.  A second creation of a number would replace an
activated record by one that is not.  If no two creations share a number, then no record is
replaced, and the storage forgets nothing of the past (`Lifecycle`): the sporks in force can be
read off the past and the height of the frontier (`Lifecycle.contains_iff`), and no number is
activated twice.

If moreover the heights of the frontiers never decrease (`History.Rising`), then the past is in
order of heights.  A spork is then in force from a fixed height on, which its first activation
determines (`FirstActivated.contains_iff`).  It does not matter when the activation is looked
up, then or at the end of the run.
-/

namespace MomentumChain.Contract

namespace Storage

variable {storage : Storage}

theorem spork?_saveSpork (record : SporkRecord) (id : Hash) :
    (storage.saveSpork record).spork? id =
      if id = record.id then some record else storage.spork? id :=
  Table.get?_insert ..

/-- A spork is in force if a record under its name is activated and its height is reached. -/
theorem contains_activeSporks {spork : Spork} {id : Hash} {record : SporkRecord}
    (finds : storage.spork? id = some record) (active : record.activated = true)
    (reached : record.enforcementHeight ≤ storage.frontier.height)
    (name : record.name = spork.name) : storage.activeSporks.contains spork = true := by
  simp only [activeSporks, Spork.Active.ofList, List.contains_iff_mem, List.mem_filterMap]
  refine ⟨record, (Table.mem_values_iff storage.sporks record).mpr ⟨id, finds⟩, ?_⟩
  rw [sporkInForce?, active, decide_eq_true reached, name]
  cases spork <;> rfl

end Storage

/-! ## Sporks of the past -/

/-- The sends that have created sporks, in order. -/
def creations (past : List Success) : List Block :=
  (past.filter (·.method = .createSpork)).map Success.send

/-- No two creations share a number. -/
def Distinct (past : List Success) : Prop := ((creations past).map (·.hash)).Nodup

/-- A spork of a name is created and later activated. -/
def Activated (protocol : Protocol) (past : List Success) (name : String) (activate : Success) :
    Prop :=
  ∃ create id, [create, activate].Sublist past ∧ create.Creates protocol id name ∧
    activate.Activates protocol id

section

variable {protocol : Protocol} {past later : List Success} {name : String}
  {activate success : Success} {id : Hash}

theorem creations_append (past later : List Success) :
    creations (past ++ later) = creations past ++ creations later := by
  simp [creations]

theorem mem_creations (hmem : success ∈ past) (hmethod : success.method = .createSpork) :
    success.send ∈ creations past :=
  List.mem_map_of_mem (List.mem_filter.mpr ⟨hmem, decide_eq_true hmethod⟩)

theorem Distinct.of_append (h : Distinct (past ++ later)) : Distinct past := by
  rw [Distinct, creations_append, List.map_append] at h
  exact (List.nodup_append.mp h).1

theorem Success.Creates.name_eq {create : Success} {description : String}
    (h : create.Creates protocol id name) {found : String}
    (reads : Method.parameters (.pair .text .text) .createSpork create.send =
      .ok (found, description)) : found = name := by
  obtain ⟨_, hnames⟩ := h.names
  rw [hnames] at reads
  cases reads
  rfl

theorem Success.Activates.id_eq (h : activate.Activates protocol id) {found : Hash}
    (reads : Method.parameters .hash .activateSpork activate.send = .ok found) : found = id := by
  rw [h.names] at reads
  cases reads
  rfl

theorem Activated.mono (h : Activated protocol past name activate) (hpast : past.Sublist later) :
    Activated protocol later name activate := by
  obtain ⟨create, id, hsublist, hcalls⟩ := h
  exact ⟨create, id, hsublist.trans hpast, hcalls⟩

theorem Activated.of_rises {s t : History} (h : Activated protocol s.past name activate)
    (hrises : Rises s t) : Activated protocol t.past name activate := by
  obtain ⟨later, hpast, _⟩ := hrises.calls
  rw [hpast]
  exact h.mono (List.sublist_append_left _ _)

end

/-! ## The invariant -/

/-- The storage has a record of every creation and of every activation of the past. -/
structure Lifecycle (protocol : Protocol) (s : History) : Prop extends Governed protocol s where
  recorded : ∀ {create id name}, create ∈ s.past → create.Creates protocol id name →
    ∃ record, s.storage.spork? id = some record ∧ record.name = name
  enforced : ∀ {activate id}, activate ∈ s.past → activate.Activates protocol id →
    ∃ record, s.storage.spork? id = some record ∧ record.activated = true ∧
      record.enforcementHeight.toNat = activate.height.toNat + sporkDelay.toNat
  once : s.past.Pairwise fun first second =>
    ∀ id, first.Activates protocol id → ¬ second.Activates protocol id

theorem lifecycle_start (protocol : Protocol) (genesis : Momentum) :
    Lifecycle protocol (.start genesis) where
  toGoverned := governed_start genesis
  recorded h := nomatch h
  enforced h := nomatch h
  once := .nil

section

variable {protocol : Protocol} {s : History} {send : Block}

/-- A new creation replaces no record. -/
theorem Governed.fresh (h : Governed protocol s) {success : Success}
    (hmethod : success.method = .createSpork) (hdistinct : Distinct (s.past ++ [success])) :
    s.storage.spork? success.send.hash = none := by
  rw [Distinct, creations_append, List.map_append, List.nodup_append] at hdistinct
  rw [Option.eq_none_iff_forall_ne_some]
  intro record hfinds
  obtain ⟨create, hcreate, hcreates⟩ := h.created hfinds
  have hearlier := mem_creations (List.singleton_sublist.mp hcreate) hcreates.method
  have hnew := mem_creations (List.mem_singleton_self success) hmethod
  exact hdistinct.2.2 _ (List.mem_map_of_mem hearlier) _ (List.mem_map_of_mem hnew) hcreates.id

/-- A call keeps the invariant if found records stay, up to an activation, and if it has a record
of its own creation or activation. -/
theorem Lifecycle.extend (h : Lifecycle protocol s) {success : Success} {storage : Storage}
    (hgoverned : Governed protocol ⟨s.past ++ [success], storage⟩)
    (hkeeps : ∀ {id record}, s.storage.spork? id = some record →
      ∃ found, storage.spork? id = some found ∧ found.name = record.name ∧
        (record.activated = true → found = record))
    (hcreates : ∀ {id name}, success.Creates protocol id name →
      ∃ record, storage.spork? id = some record ∧ record.name = name)
    (hactivates : ∀ {id}, success.Activates protocol id →
      (∀ activate ∈ s.past, ¬ activate.Activates protocol id) ∧
        ∃ record, storage.spork? id = some record ∧ record.activated = true ∧
          record.enforcementHeight.toNat = success.height.toNat + sporkDelay.toNat) :
    Lifecycle protocol ⟨s.past ++ [success], storage⟩ where
  toGoverned := hgoverned
  recorded := by
    intro create id name hmem hcreate
    rcases List.mem_append.mp hmem with hmem | hmem
    · obtain ⟨record, hfinds, hname⟩ := h.recorded hmem hcreate
      obtain ⟨found, hfound, hkept, _⟩ := hkeeps hfinds
      exact ⟨found, hfound, hkept.trans hname⟩
    · rw [List.mem_singleton.mp hmem] at hcreate
      exact hcreates hcreate
  enforced := by
    intro activate id hmem hactivate
    rcases List.mem_append.mp hmem with hmem | hmem
    · obtain ⟨record, hfinds, hactive, hheight⟩ := h.enforced hmem hactivate
      obtain ⟨found, hfound, _, hkept⟩ := hkeeps hfinds
      rw [hkept hactive] at hfound
      exact ⟨record, hfound, hactive, hheight⟩
    · rw [List.mem_singleton.mp hmem] at hactivate ⊢
      exact (hactivates hactivate).2
  once := by
    rw [List.pairwise_append]
    refine ⟨h.once, List.pairwise_singleton _ _, ?_⟩
    intro first hfirst second hsecond id hactivate hagain
    rw [List.mem_singleton.mp hsecond] at hagain
    exact (hactivates hagain).1 first hfirst hactivate

/-- A call of a method for something else leaves the records as they are. -/
theorem Lifecycle.keep (h : Lifecycle protocol s) {success : Success} {storage : Storage}
    (hgoverned : Governed protocol ⟨s.past ++ [success], storage⟩)
    (hsporks : storage.sporks = s.storage.sporks) (hcreate : success.method ≠ .createSpork)
    (hactivate : success.method ≠ .activateSpork) :
    Lifecycle protocol ⟨s.past ++ [success], storage⟩ := by
  refine h.extend hgoverned ?_ ?_ ?_
  · intro id record hfinds
    rw [Storage.spork?, ← hsporks] at hfinds
    exact ⟨record, hfinds, rfl, fun _ => rfl⟩
  · intro id name hcreates
    exact absurd hcreates.method hcreate
  · intro id hactivates
    exact absurd hactivates.method hactivate

/-- A creation adds a record under a new number. -/
theorem Lifecycle.create (h : Lifecycle protocol s) {name description : String} {height : UInt64}
    (hgoverned : Governed protocol ⟨s.past ++ [⟨.createSpork, send, [], height⟩],
      s.storage.saveSpork ⟨send.hash, name, description, false, 0⟩⟩)
    (hdistinct : Distinct (s.past ++ [⟨.createSpork, send, [], height⟩]))
    (reads : Method.parameters (.pair .text .text) .createSpork send = .ok (name, description)) :
    Lifecycle protocol ⟨s.past ++ [⟨.createSpork, send, [], height⟩],
      s.storage.saveSpork ⟨send.hash, name, description, false, 0⟩⟩ := by
  refine h.extend hgoverned ?_ ?_ ?_
  · -- what is found already has another number
    intro id record hfinds
    have hne : id ≠ send.hash := by
      intro hid
      rw [hid, h.fresh rfl hdistinct] at hfinds
      cases hfinds
    rw [Storage.spork?_saveSpork, if_neg hne]
    exact ⟨record, hfinds, rfl, fun _ => rfl⟩
  · intro id found hcreates
    rw [Storage.spork?_saveSpork, if_pos hcreates.id.symm]
    exact ⟨_, rfl, hcreates.name_eq reads⟩
  · intro id hactivates
    cases hactivates.method

/-- An activation changes the record of its number, which was not activated before. -/
theorem Lifecycle.activate (h : Lifecycle protocol s) {id : Hash} {record : SporkRecord}
    {enforcementHeight : UInt64}
    (hgoverned : Governed protocol
      ⟨s.past ++ [⟨.activateSpork, send, [], s.storage.frontier.height⟩],
        s.storage.saveSpork { record with activated := true, enforcementHeight }⟩)
    (reads : Method.parameters .hash .activateSpork send = .ok id)
    (finds : s.storage.spork? id = some record) (inactive : record.activated = false)
    (enforced : Word.add64 s.storage.frontier.height sporkDelay = .ok enforcementHeight) :
    Lifecycle protocol
      ⟨s.past ++ [⟨.activateSpork, send, [], s.storage.frontier.height⟩],
        s.storage.saveSpork { record with activated := true, enforcementHeight }⟩ := by
  have hid : record.id = id := h.keyed finds
  refine h.extend hgoverned ?_ ?_ ?_
  · intro other found hfound
    rw [Storage.spork?_saveSpork]
    by_cases hother : other = record.id
    · rw [hother, hid, finds] at hfound
      cases hfound
      refine ⟨_, if_pos hother, rfl, ?_⟩
      intro hactive
      rw [inactive] at hactive
      cases hactive
    · exact ⟨found, (if_neg hother).trans hfound, rfl, fun _ => rfl⟩
  · intro other name hcreates
    cases hcreates.method
  · intro other hactivates
    have hother : id = other := hactivates.id_eq reads
    rw [← hother]
    constructor
    · -- an earlier activation would have left the record activated
      intro activate hmem hearlier
      obtain ⟨found, hfound, hactive, _⟩ := h.enforced hmem hearlier
      rw [finds] at hfound
      cases hfound
      rw [inactive] at hactive
      cases hactive
    · rw [Storage.spork?_saveSpork, if_pos hid.symm]
      exact ⟨_, rfl, rfl, Word.toNat_of_add64 enforced⟩

theorem moves_lifecycle {t : History} (hmoves : Moves protocol s t)
    (h : Distinct s.past → Lifecycle protocol s) (hdistinct : Distinct t.past) :
    Lifecycle protocol t := by
  have hlife : Lifecycle protocol s := by
    cases hmoves with
    | quiet => exact h hdistinct
    | succeeds => exact h hdistinct.of_append
  have hgoverned := moves_governed hmoves hlife.toGoverned
  cases hmoves with
  | quiet => exact ⟨hgoverned, hlife.recorded, hlife.enforced, hlife.once⟩
  | succeeds received =>
      cases received with
      | fused | cancelled | configured | donated => exact hlife.keep hgoverned rfl nofun nofun
      | created _ reads => exact hlife.create hgoverned hdistinct reads
      | activated _ reads finds inactive enforced =>
          exact hlife.activate hgoverned reads finds inactive enforced

/-- The sporks in force are those that were activated early enough. -/
theorem Lifecycle.contains_iff (h : Lifecycle protocol s) {spork : Spork} :
    s.storage.activeSporks.contains spork = true ↔
      ∃ activate, Activated protocol s.past spork.name activate ∧
        activate.height.toNat + sporkDelay.toNat ≤ s.storage.frontier.height.toNat := by
  constructor
  · intro hactive
    obtain ⟨create, activate, id, hsublist, hcreates, hactivates, hreached⟩ :=
      h.toGoverned.exists_of_contains hactive
    exact ⟨activate, ⟨create, id, hsublist, hcreates, hactivates⟩, hreached⟩
  · rintro ⟨activate, ⟨create, id, hsublist, hcreates, hactivates⟩, hreached⟩
    obtain ⟨record, hfound, hname⟩ := h.recorded (hsublist.subset (by simp)) hcreates
    obtain ⟨found, hfinds, hactive, hheight⟩ := h.enforced (hsublist.subset (by simp)) hactivates
    rw [hfinds] at hfound
    cases hfound
    rw [← hheight, ← UInt64.le_iff_toNat_le] at hreached
    exact Storage.contains_activeSporks hfinds hactive hreached hname

/-- A spork in force stays in force while the frontier does not get lower. -/
theorem Lifecycle.contains_of_rises {t : History} (hs : Lifecycle protocol s)
    (ht : Lifecycle protocol t) (hrises : Rises s t) {spork : Spork}
    (hactive : s.storage.activeSporks.contains spork = true) :
    t.storage.activeSporks.contains spork = true := by
  obtain ⟨activate, hactivated, hreached⟩ := hs.contains_iff.mp hactive
  have hfrontier := UInt64.le_iff_toNat_le.mp hrises.frontier
  exact ht.contains_iff.mpr
    ⟨activate, hactivated.of_rises hrises, Nat.le_trans hreached hfrontier⟩

end

/-! ## The first activation -/

/-- In a past, a success is the first to activate a spork of a name. -/
def FirstActivated (protocol : Protocol) (past : List Success) (name : String)
    (first : Success) : Prop :=
  ∃ earlier later, past = earlier ++ first :: later ∧
    Activated protocol (earlier ++ [first]) name first ∧
    ∀ activate, ¬ Activated protocol earlier name activate

section

variable {protocol : Protocol} {s t : History} {earlier past later : List Success} {name : String}
  {first activate : Success}

/-- An activation is one of the earlier calls alone, or it is among the later calls. -/
theorem Activated.of_append (h : Activated protocol (earlier ++ later) name activate) :
    Activated protocol earlier name activate ∨ activate ∈ later := by
  obtain ⟨create, id, hsublist, hcalls⟩ := h
  obtain ⟨front, back, hsplit, hfront, hback⟩ := List.sublist_append_iff.mp hsublist
  rcases List.eq_nil_or_concat back with rfl | ⟨init, last, rfl⟩
  · rw [List.append_nil] at hsplit
    exact .inl ⟨create, id, hsplit ▸ hfront, hcalls⟩
  · have hconcat : [create] ++ [activate] = (front ++ init) ++ [last] := by simpa using hsplit
    obtain ⟨_, hlast⟩ := List.append_inj' hconcat rfl
    cases hlast
    exact .inr (hback.subset (by simp))

theorem FirstActivated.activated (h : FirstActivated protocol past name first) :
    Activated protocol past name first := by
  obtain ⟨earlier, later, hpast, hactivated, _⟩ := h
  rw [List.append_cons] at hpast
  rw [hpast]
  exact hactivated.mono (List.sublist_append_left _ _)

theorem exists_firstActivated (h : Activated protocol past name activate) :
    ∃ first, FirstActivated protocol past name first := by
  induction past using List.reverseRecOn generalizing activate with
  | nil =>
      obtain ⟨_, _, hsublist, _⟩ := h
      cases hsublist
  | append_singleton past last ih =>
      by_cases hearlier : ∃ other, Activated protocol past name other
      · obtain ⟨other, hother⟩ := hearlier
        obtain ⟨first, before, after, hpast, hfirst⟩ := ih hother
        exact ⟨first, before, after ++ [last], by simp [hpast], hfirst⟩
      · have hnone := not_exists.mp hearlier
        have hlast : activate = last := by
          simpa using h.of_append.resolve_left (hnone activate)
        exact ⟨last, past, [], rfl, hlast ▸ h, hnone⟩

/-- The first activation of a longer past is that of the shorter one, or it is later. -/
theorem FirstActivated.of_append (h : FirstActivated protocol (past ++ later) name first) :
    FirstActivated protocol past name first ∨ first ∈ later := by
  obtain ⟨before, after, hsplit, hactivated, hnone⟩ := h
  rcases List.append_eq_append_iff.mp hsplit with ⟨rest, _, hlater⟩ | ⟨rest, hpast, hafter⟩
  · exact .inr (hlater ▸ by simp)
  · cases rest with
    | nil =>
        rw [List.nil_append] at hafter
        exact .inr (hafter ▸ List.mem_cons_self)
    | cons success rest =>
        cases hafter
        exact .inl ⟨before, rest, hpast, hactivated, hnone⟩

/-- In order of heights, the first activation is the lowest. -/
theorem FirstActivated.height_le (h : FirstActivated protocol past name first)
    (hsorted : past.Pairwise fun first second => first.height ≤ second.height)
    (hactivated : Activated protocol past name activate) : first.height ≤ activate.height := by
  obtain ⟨before, after, hpast, _, hnone⟩ := h
  rw [hpast] at hsorted hactivated
  have hmem := hactivated.of_append.resolve_left (hnone activate)
  have hafter := (List.pairwise_append.mp hsorted).2.1
  rcases List.mem_cons.mp hmem with rfl | hmem
  · exact UInt64.le_refl _
  · exact List.rel_of_pairwise_cons hafter hmem

/-- A spork is in force from six momentums after its first activation on.  The activation can
be looked up at any later point of the run. -/
theorem FirstActivated.contains_iff {spork : Spork}
    (h : FirstActivated protocol t.past spork.name first) (hlife : Lifecycle protocol s)
    (hrises : Rises s t)
    (hsorted : t.past.Pairwise fun first second => first.height ≤ second.height) :
    s.storage.activeSporks.contains spork = true ↔
      first.height.toNat + sporkDelay.toNat ≤ s.storage.frontier.height.toNat := by
  rw [hlife.contains_iff]
  constructor
  · rintro ⟨activate, hactivated, hreached⟩
    have hle := UInt64.le_iff_toNat_le.mp (h.height_le hsorted (hactivated.of_rises hrises))
    omega
  · intro hreached
    obtain ⟨later, hpast, _, hlater⟩ := hrises.calls
    rw [hpast] at h
    rcases h.of_append with hfirst | hmem
    · exact ⟨first, hfirst.activated, hreached⟩
    · -- a later activation is not below the frontier of now
      have hle := UInt64.le_iff_toNat_le.mp (hlater first hmem).1
      have hdelay : sporkDelay.toNat = 6 := rfl
      omega

end

end MomentumChain.Contract
