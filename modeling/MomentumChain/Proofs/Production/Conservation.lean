import MomentumChain.Proofs.Production.Run

/-!
# Conservation of blocks

Blocks arrive in the pool and leave it in a momentum.  In a run none is lost, none is
committed twice, and none is changed (`blocks_conserved`).

A momentum takes a part of the pool, in an order of its own (`Planned.exists_rest`).
The pool then drops blocks by the hashes in the headers of the momentum.  So the blocks
of a run must have different hashes.  If two blocks share a hash then both are dropped
even if one of them only is committed.
-/

namespace MomentumChain.Production

open Selection

/-- The blocks of all momentums that are finalized. -/
def Chain.committed (chain : Chain) : List Block :=
  chain.finalizer.finalized.flatMap fun signed => signed.detailed.blocks

/-! ## One momentum -/

/-- What a plan takes from the pool and what it leaves there are the pool. -/
theorem Planned.exists_rest {priority : Address.Set} {chain : Chain} {plan : Plan}
    (planned : Planned priority chain plan) :
    ∃ rest, chain.pool.blocks.Perm (plan.blocks ++ rest) := by
  cases planned with
  | legacy =>
      refine ⟨[], ?_⟩
      rw [List.append_nil]
  | dynamic _ content =>
      obtain ⟨rest, hrest⟩ := (Rules.content_sublist content).exists_perm_append
      exact ⟨rest, (Rules.order_perm ..).symm.trans hrest⟩

theorem isCommitted_iff {blocks : List Block} {hash : Hash} :
    Pool.isCommitted (blocks.map Block.header) hash = true ↔ hash ∈ blocks.map Block.hash := by
  rw [Pool.isCommitted, List.any_eq_true, List.mem_map]
  constructor
  · rintro ⟨header, hheader, heq⟩
    obtain ⟨block, hblock, rfl⟩ := List.mem_map.mp hheader
    exact ⟨block, hblock, of_decide_eq_true heq⟩
  · rintro ⟨block, hblock, heq⟩
    exact ⟨block.header, List.mem_map_of_mem hblock, decide_eq_true heq⟩

/-- If hashes differ then the pool keeps what a momentum leaves. -/
theorem removeCommitted_perm {pool : Pool} {blocks rest : List Block}
    (hperm : pool.blocks.Perm (blocks ++ rest))
    (hdistinct : (pool.blocks.map Block.hash).Nodup) :
    (pool.removeCommitted (blocks.map Block.header)).blocks.Perm rest := by
  have hsplit : (blocks.map Block.hash ++ rest.map Block.hash).Nodup := by
    rw [← List.map_append]
    exact (hperm.map Block.hash).nodup_iff.mp hdistinct
  -- hashes tell the blocks that are taken from those that are left
  have htaken : blocks.filter
      (fun block => !Pool.isCommitted (blocks.map Block.header) block.hash) = [] := by
    rw [List.filter_eq_nil_iff]
    intro block hblock
    simp [isCommitted_iff.mpr (List.mem_map_of_mem hblock)]
  have hleft : rest.filter
      (fun block => !Pool.isCommitted (blocks.map Block.header) block.hash) = rest := by
    rw [List.filter_eq_self]
    intro block hblock
    rw [Bool.not_eq_true', Bool.eq_false_iff, ne_eq, isCommitted_iff]
    intro htwice
    exact List.disjoint_of_nodup_append hsplit htwice (List.mem_map_of_mem hblock)
  have hfilter := hperm.filter
    (fun block => !Pool.isCommitted (blocks.map Block.header) block.hash)
  rwa [List.filter_append, htaken, hleft, List.nil_append] at hfilter

/-! ## Runs -/

/-- What has arrived is in the pool, in order of arrival, or committed. -/
structure Conserves (chain : Chain) (seen : List Block) : Prop where
  committing : chain.finalizer.committing = true
  perm : (chain.pool.blocks ++ chain.committed).Perm seen
  sublist : chain.pool.blocks.Sublist seen

variable {producer : Producer}

theorem Conserves.moves {chain next : Chain} {seen arrived : List Block}
    {commitment : Option Commitment} (h : Conserves chain seen)
    (hdistinct : (seen.map Block.hash).Nodup)
    (hmoves : Moves producer chain arrived commitment next) :
    Conserves next (seen ++ arrived) := by
  cases hmoves with
  | keeps _ pool finalized committing =>
      have hcommitted : next.committed = chain.committed := by
        rw [Chain.committed, finalized]
        rfl
      refine ⟨committing.trans h.committing, ?_, ?_⟩
      · rw [pool, hcommitted]
        calc
          (chain.pool.blocks ++ arrived ++ chain.committed).Perm
              (chain.pool.blocks ++ (arrived ++ chain.committed)) := by rw [List.append_assoc]
          List.Perm _ (chain.pool.blocks ++ (chain.committed ++ arrived)) :=
            List.perm_append_comm.append_left _
          List.Perm _ (chain.pool.blocks ++ chain.committed ++ arrived) := by
            rw [List.append_assoc]
          List.Perm _ (seen ++ arrived) := h.perm.append_right _
      · rw [pool]
        exact h.sublist.append (List.Sublist.refl arrived)
  | @commits slot plan _ planned =>
      obtain ⟨rest, hrest⟩ := planned.exists_rest
      have hpool := removeCommitted_perm hrest (hdistinct.sublist (h.sublist.map Block.hash))
      have hcommitted : (chain.append (producer.extend chain slot plan)).committed =
          chain.committed ++ plan.blocks := by
        rw [Chain.committed, Chain.finalized_append, List.flatMap_append, List.flatMap_singleton]
        rfl
      rw [List.append_nil]
      refine ⟨Chain.committing_append.trans h.committing, ?_, ?_⟩
      · rw [Chain.pool_append h.committing, hcommitted]
        calc
          List.Perm _ (rest ++ (chain.committed ++ plan.blocks)) := hpool.append_right _
          List.Perm _ (plan.blocks ++ rest ++ chain.committed) := by
            rw [List.append_assoc, ← List.append_assoc rest]
            exact List.perm_append_comm
          List.Perm _ (chain.pool.blocks ++ chain.committed) := hrest.symm.append_right _
          List.Perm _ seen := h.perm
      · rw [Chain.pool_append h.committing]
        exact List.filter_sublist.trans h.sublist

/-- From a state that conserves what was seen a run conserves what arrives as well. -/
theorem run_conserves (producer : Producer) (events : List Event) {s : State}
    {seen : List Block} (h : Conserves s.chain seen)
    (hdistinct : ((seen ++ inserted events).map Block.hash).Nodup) :
    Conserves (producer.run s events).chain (seen ++ inserted events) := by
  induction events generalizing s seen with
  | nil =>
      show Conserves s.chain (seen ++ [])
      rwa [List.append_nil]
  | cons event events ih =>
      have harrived : inserted (event :: events) = event.inserted ++ inserted events :=
        List.flatMap_cons
      rw [harrived, ← List.append_assoc] at hdistinct ⊢
      have hseen : (seen.map Block.hash).Nodup := by
        rw [List.append_assoc, List.map_append] at hdistinct
        exact hdistinct.of_append_left
      exact ih (h.moves hseen (step_moves producer s event)) hdistinct

/-- A block that is committed, and only once, is in exactly one momentum. -/
theorem existsUnique_momentum {chain : Chain} {block : Block} (hnodup : chain.committed.Nodup)
    (h : block ∈ chain.committed) :
    ∃! place : Fin chain.finalizer.finalized.length,
      block ∈ chain.finalizer.finalized[place].detailed.blocks := by
  obtain ⟨signed, hsigned, hblock⟩ := List.mem_flatMap.mp h
  obtain ⟨place, hplace, rfl⟩ := List.getElem_of_mem hsigned
  have hdisjoint := List.pairwise_iff_getElem.mp (List.nodup_flatMap.mp hnodup).2
  refine ⟨⟨place, hplace⟩, hblock, ?_⟩
  rintro ⟨other, hother⟩ hagain
  rcases Nat.lt_trichotomy other place with hlt | heq | hgt
  · exact absurd hblock (hdisjoint other place hother hplace hlt hagain)
  · exact Fin.ext heq
  · exact absurd hagain (hdisjoint place other hplace hother hgt hblock)

/-- The blocks that have arrived in a run are those in the pool and those in finalized
momentums.  The pool holds its blocks in the order in which they have arrived, and each
block that is not in the pool is in exactly one momentum. -/
theorem blocks_conserved (producer : Producer) (genesis : Momentum) (events : List Event)
    (hdistinct : ((inserted events).map Block.hash).Nodup) :
    let chain := (producer.run (.start genesis) events).chain
    (chain.pool.blocks ++ chain.committed).Perm (inserted events) ∧
      chain.pool.blocks.Sublist (inserted events) ∧
      ∀ block ∈ inserted events,
        (block ∈ chain.pool.blocks ∧ block ∉ chain.committed) ∨
          (block ∉ chain.pool.blocks ∧
            ∃! place : Fin chain.finalizer.finalized.length,
              block ∈ chain.finalizer.finalized[place].detailed.blocks) := by
  intro chain
  have hstart : Conserves (State.start genesis).chain [] := ⟨rfl, .nil, .slnil⟩
  obtain ⟨_, hperm, hsublist⟩ := run_conserves producer events hstart hdistinct
  refine ⟨hperm, hsublist, ?_⟩
  intro block hblock
  have hnodup : (chain.pool.blocks ++ chain.committed).Nodup :=
    hperm.nodup_iff.mpr hdistinct.of_map
  have hdisjoint := List.disjoint_of_nodup_append hnodup
  cases List.mem_append.mp (hperm.mem_iff.mpr hblock) with
  | inl hpool =>
      left
      exact ⟨hpool, fun hcommitted => hdisjoint hpool hcommitted⟩
  | inr hcommitted =>
      right
      exact ⟨fun hpool => hdisjoint hpool hcommitted,
        existsUnique_momentum hnodup.of_append_right hcommitted⟩

/-- Two blocks arrive, a round fails and the next commits them, and a third arrives. -/
def arrivals : List Event :=
  [.insert [userBlock 1 1 0 0, userBlock 2 1 0 0], .signerOutage true,
    .round ⟨"lone", .zero, 10, 20⟩ 0, .signerOutage false, .round ⟨"lone", .zero, 20, 30⟩ 0,
    .insert [userBlock 1 2 0 0]]

theorem blocks_conserved_arrivals :
    ((inserted arrivals).map Block.hash).Nodup ∧
      ((lone ⟨[]⟩).run (.start {}) arrivals).chain.pool.blocks = [userBlock 1 2 0 0] ∧
      ((lone ⟨[]⟩).run (.start {}) arrivals).chain.committed.Perm
        [userBlock 1 1 0 0, userBlock 2 1 0 0] := by
  have hdistinct : ((inserted arrivals).map Block.hash).Nodup := by decide
  obtain ⟨hperm, _⟩ := blocks_conserved (lone ⟨[]⟩) {} arrivals hdistinct
  have hpool : ((lone ⟨[]⟩).run (.start {}) arrivals).chain.pool.blocks =
      [userBlock 1 2 0 0] := rfl
  have harrived : (inserted arrivals).Perm
      ([userBlock 1 2 0 0] ++ [userBlock 1 1 0 0, userBlock 2 1 0 0]) := List.perm_append_comm
  rw [hpool] at hperm
  exact ⟨hdistinct, hpool, (List.perm_append_left_iff _).mp (hperm.trans harrived)⟩

end MomentumChain.Production
