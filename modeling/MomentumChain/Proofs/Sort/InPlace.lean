import MomentumChain.Proofs.Sort.InPlaceMerge

/-!
# The sort in place is safe

`sortInPlace_safe` says that the sort in place never fails, whatever the relation answers, and
that its result is that of `stableSort`.  As every position, difference and merge of `sortInPlace`
is checked, this says that the sort stays within the row.

`Tiles` is the invariant of the passes.  The sort in place finds the runs by their lengths alone,
so it merges what the passes over lists merge as long as all runs but the last have the same
length.  A pass doubles it (`mergePass_tiles`).
-/

namespace MomentumChain.Sort

variable {α : Type}

/-! ## Lengths of runs -/

/-- Lengths of runs that a row is cut into.  All but the last are `size`, and the last is no
larger and not zero. -/
def Tiles (size : Nat) : List Nat → Prop
  | [] => True
  | [length] => 0 < length ∧ length ≤ size
  | length :: next :: rest => length = size ∧ Tiles size (next :: rest)

namespace Tiles

variable {size : Nat}

theorem cons {rest : List Nat} (hsize : 0 < size) (h : Tiles size rest) :
    Tiles size (size :: rest) := by
  cases rest with
  | nil => exact ⟨hsize, Nat.le_refl size⟩
  | cons next rest => exact ⟨rfl, h⟩

theorem pos (hsize : 0 < size) : ∀ {lengths : List Nat}, Tiles size lengths →
    ∀ length ∈ lengths, 0 < length
  | [length], h, _, hmem => by
      cases List.mem_singleton.mp hmem
      exact h.1
  | length :: next :: rest, h, _, hmem => by
      cases List.mem_cons.mp hmem with
      | inl he =>
          rw [he, h.1]
          exact hsize
      | inr hm => exact pos hsize h.2 _ hm

theorem ne_nil (hsize : 0 < size) {runs : List (List α)} (h : Tiles size (runs.map List.length)) :
    ∀ run ∈ runs, run ≠ [] :=
  fun _ hrun => List.ne_nil_of_length_pos (h.pos hsize _ (List.mem_map_of_mem hrun))

end Tiles

theorem tiles_cutRuns (xs : List α) : Tiles runLength ((cutRuns xs).map List.length) := by
  have hsize : 0 < runLength := by decide
  fun_induction cutRuns xs with
  | case1 => exact trivial
  | case2 xs hshort hempty =>
      refine ⟨?_, hshort⟩
      rw [List.length_pos_iff]
      intro hnil
      exact hempty (by rw [hnil]; rfl)
  | case3 xs hlong ih =>
      rw [List.map_cons, List.length_take_of_le (by omega)]
      exact ih.cons hsize

/-- Sorting the runs leaves their lengths. -/
theorem mapM_insertionSort_lengths (less : α → α → Bool) : ∀ runs : List (List α),
    Yields (runs.mapM (insertionSort less [])) fun runs' =>
      runs'.map List.length = runs.map List.length
  | [] => .ret rfl
  | run :: runs => by
      rw [List.mapM_cons]
      refine .andThen (insertionSort_perm less run []) fun run' hrun => ?_
      refine .andThen (mapM_insertionSort_lengths less runs) fun runs' hruns => .ret ?_
      rw [List.map_cons, List.map_cons, hruns, hrun.length_eq]
      rfl

/-- A pass makes the runs twice as long. -/
theorem mergePass_tiles (less : α → α → Bool) {size : Nat} (hsize : 0 < size) :
    ∀ runs : List (List α), Tiles size (runs.map List.length) →
      Yields (mergePass less runs) fun runs' => Tiles (2 * size) (runs'.map List.length)
  | [], _ => .ret trivial
  | [run], h => by
      obtain ⟨hpos, hle⟩ := h
      exact .ret ⟨hpos, by omega⟩
  | first :: second :: rest, h => by
      have hne := h.ne_nil hsize
      obtain ⟨hfirst, htail⟩ := h
      refine .andThen (symMerge_perm less (hne first (by simp)) (hne second (by simp)))
        fun merged hmerged => ?_
      have hlength : merged.length = first.length + second.length := by
        rw [hmerged.length_eq, List.length_append]
      cases rest with
      | nil =>
          obtain ⟨hpos, hle⟩ := htail
          exact .ret ⟨by omega, by omega⟩
      | cons third rest =>
          obtain ⟨hsecond, hrest⟩ := htail
          refine .andThen (mergePass_tiles less hsize (third :: rest) hrest)
            fun rest' hrest' => .ret ?_
          have hdouble : merged.length = 2 * size := by omega
          rw [List.map_cons, hdouble]
          exact hrest'.cons (by omega)

/-! ## The sort -/

theorem flatten_cons_bind (m : Sorting (List α)) (m' : Sorting (List (List α))) :
    List.flatten <$> (do
      let run ← m
      let runs ← m'
      pure (run :: runs)) = (do
      let left ← m
      let right ← List.flatten <$> m'
      pure (left ++ right)) := by
  simp only [map_bind, map_pure, List.flatten_cons, bind_map_left]

/-- Nothing is left to sort at the end of the row. -/
theorem insertRuns_self (less : α → α → Bool) (size : Nat) :
    insertRuns less size size = pure () := by
  have hsize : 0 < runLength := by decide
  rw [insertRuns, if_neg (by omega), insertAt, Nat.sub_eq_zero_of_le (by omega)]
  rfl

theorem insertRuns_replaces (less : α → α → Bool) {before xs : List α} {size low : Nat}
    (hlow : low = before.length) (hsize : size = low + xs.length) :
    Replaces (insertRuns less size low) before xs []
      (List.flatten <$> (cutRuns xs).mapM (insertionSort less [])) := by
  have hrun : 0 < runLength := by decide
  fun_induction cutRuns xs generalizing before low with
  | case1 xs hshort hempty =>
      rw [List.isEmpty_iff] at hempty
      subst hempty
      rw [hsize, List.length_nil, Nat.add_zero, insertRuns_self]
      exact .nothing
  | case2 xs hshort hempty =>
      have hinsert : Replaces (insertAt less low size) before xs [] (insertionSort less [] xs) := by
        subst hlow hsize
        exact insertAt_replaces less before xs []
      have honly : List.flatten <$> [xs].mapM (insertionSort less []) =
          insertionSort less [] xs := by simp
      rw [honly, insertRuns]
      split
      · have hfull : low + runLength = size := by omega
        rw [hfull, insertRuns_self, bind_pure_unit]
        exact hinsert
      · exact hinsert
  | case3 xs hlong ih =>
      have hlength : (xs.take runLength).length = runLength := List.length_take_of_le (by omega)
      have hinsert := insertAt_replaces less before (xs.take runLength) (xs.drop runLength ++ [])
      rw [hlength, ← hlow] at hinsert
      rw [List.mapM_cons, flatten_cons_bind, insertRuns, if_pos (by omega)]
      have hrest : ∀ run : List α, run.Perm ([] ++ xs.take runLength) →
          low + runLength = (before ++ run).length := fun run hperm => by
        rw [List.length_append, hperm.length_eq, List.nil_append, hlength, hlow]
      have hsize' : size = low + runLength + (xs.drop runLength).length := by
        rw [List.length_drop]
        omega
      have h := hinsert.seq (insertionSort_perm less _ _) fun run hperm =>
        ih (hrest run hperm) hsize'
      rw [List.take_append_drop] at h
      exact h

theorem mergeRunsAt_replaces (less : α → α → Bool) {size length : Nat} (hlength : 0 < length) :
    ∀ {runs : List (List α)} {before : List α} {low : Nat}, Tiles length (runs.map List.length) →
      low = before.length → size = low + runs.flatten.length →
      Replaces (mergeRunsAt less size length hlength low) before runs.flatten []
        (List.flatten <$> mergePass less runs)
  | [], before, low, _, hlow, hsize => by
      simp only [List.flatten_nil, List.length_nil] at hsize
      rw [mergeRunsAt, if_neg (by omega), if_neg (by omega)]
      exact .nothing
  | [run], before, low, h, hlow, hsize => by
      obtain ⟨hpos, hle⟩ := h
      simp only [List.flatten_singleton] at hsize
      rw [mergeRunsAt, if_neg (by omega), if_neg (by omega)]
      exact .nothing
  | first :: second :: rest, before, low, h, hlow, hsize => by
      have hne := h.ne_nil hlength
      have hfirst : first ≠ [] := hne first (by simp)
      have hsecond : second ≠ [] := hne second (by simp)
      obtain ⟨hfull, htail⟩ := h
      simp only [List.flatten_cons, List.length_append] at hsize
      rw [mergePass, flatten_cons_bind, mergeRunsAt]
      have hrow : (first :: second :: rest).flatten = first ++ second ++ rest.flatten := by
        rw [List.flatten_cons, List.flatten_cons, List.append_assoc]
      have hpos : 0 < second.length := List.length_pos_iff.mpr hsecond
      by_cases hlast : second.length = length
      · have hrest : Tiles length (rest.map List.length) := by
          cases rest with
          | nil => exact trivial
          | cons third rest => exact htail.2
        rw [if_pos (by omega), hrow]
        refine (symMerge_inPlace less hfirst hsecond hlow (by omega) (by omega)).seq
          (symMerge_perm less hfirst hsecond) fun merged hmerged => ?_
        refine mergeRunsAt_replaces less hlength hrest ?_ (by omega)
        rw [List.length_append, hmerged.length_eq, List.length_append]
        omega
      · cases rest with
        | nil =>
            obtain ⟨_, hle⟩ := htail
            simp only [List.flatten_nil, List.length_nil] at hsize
            have hone : (do
                let left ← symMerge less first second
                let right ← List.flatten <$> mergePass less []
                pure (left ++ right)) = symMerge less first second := by
              simp [mergePass]
            rw [if_neg (by omega), if_pos (by omega), hone, hrow, List.flatten_nil,
              List.append_nil]
            exact symMerge_inPlace less hfirst hsecond hlow (by omega) (by omega)
        | cons third rest => exact absurd htail.1 hlast

theorem mergePasses_replaces (less : α → α → Bool) : ∀ {passes size length : Nat}
    {runs : List (List α)} (hlength : 0 < length), Tiles length (runs.map List.length) →
      runs.length ≤ passes + 1 → size = runs.flatten.length →
      Replaces (mergePasses less size length hlength) [] runs.flatten []
        (mergeRuns less passes runs)
  | _, size, length, [], hlength, _, _, hsize => by
      simp only [List.flatten_nil, List.length_nil] at hsize
      rw [mergePasses, if_neg (by omega), mergeRuns]
      exact .nothing
  | _, size, length, [run], hlength, h, _, hsize => by
      obtain ⟨_, hle⟩ := h
      rw [List.flatten_singleton] at hsize ⊢
      rw [mergePasses, if_neg (by omega), mergeRuns]
      exact .nothing
  | 0, _, _, _ :: _ :: _, _, _, hpasses, _ => by
      simp only [List.length_cons] at hpasses
      omega
  | passes + 1, size, length, first :: second :: rest, hlength, h, hpasses, hsize => by
      have hne := h.ne_nil hlength
      have hlong : length < size := by
        have hsecond : 0 < second.length := List.length_pos_iff.mpr (hne second (by simp))
        obtain ⟨hfirst, _⟩ := h
        simp only [List.flatten_cons, List.length_append] at hsize
        omega
      rw [mergePasses, if_pos hlong, mergeRuns]
      · have hpass := (mergePass_perm less _ hne).and (mergePass_tiles less hlength _ h)
        have hstart : 0 = ([] : List α).length := rfl
        refine (mergeRunsAt_replaces less hlength h hstart (by omega)).bind hpass
          fun runs' hruns' => ?_
        obtain ⟨⟨hfewer, hperm, _⟩, htiles⟩ := hruns'
        simp only [List.length_cons] at hpasses hfewer
        exact mergePasses_replaces less (by omega) htiles (by omega)
          (by rw [hsize, hperm.length_eq])
      · intro hnil
        cases hnil
      · intro run hrun
        cases hrun

/-- The sort in place is the sort of the list of its elements, comparison by comparison. -/
theorem run_sortInPlace (less : α → α → Bool) (xs : List α) :
    (sortInPlace less).run xs = (fun sorted => ((), sorted)) <$> sorting less xs := by
  have hruns := (mapM_insertionSort_perm less (cutRuns xs)).and
    (mapM_insertionSort_lengths less (cutRuns xs))
  have hinsert : Replaces (insertRuns less xs.length 0) [] xs []
      (List.flatten <$> (cutRuns xs).mapM (insertionSort less [])) :=
    insertRuns_replaces less rfl (by simp)
  have hsort : Replaces (do
        insertRuns less xs.length 0
        mergePasses less xs.length runLength (by decide)) [] xs [] (sorting less xs) := by
    refine hinsert.bind hruns fun runs hruns => ?_
    obtain ⟨⟨_, hperm, _⟩, hlengths⟩ := hruns
    refine mergePasses_replaces less _ ?_ (Nat.le_succ _) ?_
    · rw [hlengths]
      exact tiles_cutRuns xs
    · rw [hperm.length_eq, flatten_cutRuns]
  simpa [Replaces, sortInPlace] using hsort

/-- For any relation at all the sort in place comes to its end: it looks at positions within the
row only, takes no difference below zero, and merges only runs that have elements.  It leaves the
elements of the row in the order of `stableSort`, after the same comparisons. -/
theorem sortInPlace_safe (less : α → α → Bool) (xs : List α) :
    ((sortInPlace less).run xs).run 0 =
        some (((), stableSort less xs), (stableSortCounting less xs).2) ∧
      (stableSort less xs).Perm xs := by
  refine ⟨?_, stableSort_perm less xs⟩
  have hrun : (sorting less xs).run 0 = some (stableSortCounting less xs) :=
    (Option.some_get (sorting_isSome less xs)).symm
  rw [run_sortInPlace, StateT.run_map, hrun]
  rfl

/-- The checks do refuse: a merge with an empty run fails, and so does one that reaches beyond
the row. -/
example (less : Nat → Nat → Bool) : ((mergeAt less 0 2 2).run [5, 7]).run 0 = none ∧
    ((mergeAt less 0 2 3).run [5, 7]).run 0 = none := by
  constructor <;> cbv

end MomentumChain.Sort
