import MomentumChain.Sort.SymMerge

/-!
# A stable sort for any relation

The list is cut into runs of `runLength` elements.  Each run is sorted by
insertion, and neighbouring runs are merged in passes until one is left.  The
calls of the relation depend on the list and the relation only.  So the result
is determined even where the relation is not transitive.

`stableSort_perm` says that the sort never fails and rearranges the elements,
for any relation at all.
-/

namespace MomentumChain.Sort

variable {α : Type}

/-- Elements of a run that is sorted by insertion. -/
def runLength : Nat := 20

/-! ## Runs -/

/-- Puts an element in front of those it goes before.  The nearest element
comes first. -/
def sink (less : α → α → Bool) (x : α) : List α → Sorting (List α)
  | [] => pure [x]
  | y :: ys => do
      if ← ask less x y then return y :: (← sink less x ys) else return x :: y :: ys

/-- Sorts a run by insertion.  The part that is sorted already is given in
reverse. -/
def insertionSort (less : α → α → Bool) : (sorted rest : List α) → Sorting (List α)
  | sorted, [] => pure sorted.reverse
  | sorted, x :: xs => do insertionSort less (← sink less x sorted) xs

/-- The list cut into runs.  Only the last one may be shorter. -/
def cutRuns (xs : List α) : List (List α) :=
  if xs.length ≤ runLength then (if xs.isEmpty then [] else [xs])
  else xs.take runLength :: cutRuns (xs.drop runLength)
termination_by xs.length
decreasing_by
  rw [List.length_drop]
  have : 0 < runLength := by decide
  omega

/-! ## Passes -/

/-- One pass: the runs are merged two by two. -/
def mergePass (less : α → α → Bool) : List (List α) → Sorting (List (List α))
  | first :: second :: rest => do
      let merged ← symMerge less first second
      return merged :: (← mergePass less rest)
  | runs => pure runs

/-- Passes until one run is left.  Each pass leaves fewer runs, so `passes` may
be any number that is not below their count. -/
def mergeRuns (less : α → α → Bool) : (passes : Nat) → List (List α) → Sorting (List α)
  | _, [] => pure []
  | _, [run] => pure run
  | 0, _ => failure
  | passes + 1, runs => do mergeRuns less passes (← mergePass less runs)

/-- The sort as a computation. -/
def sorting (less : α → α → Bool) (xs : List α) : Sorting (List α) := do
  let runs ← (cutRuns xs).mapM (insertionSort less [])
  mergeRuns less runs.length runs

/-! ## No failure, and the same elements -/

theorem sink_perm (less : α → α → Bool) (x : α) :
    ∀ sorted : List α, Yields (sink less x sorted) (fun result => result.Perm (x :: sorted))
  | [] => .ret (.refl _)
  | y :: ys => by
      refine .andThen (ask_yields less x y) fun answer _ => ?_
      cases answer with
      | true =>
          exact .andThen (sink_perm less x ys) fun result h =>
            .ret ((h.cons y).trans (.swap x y ys))
      | false => exact .ret (.refl _)

theorem insertionSort_perm (less : α → α → Bool) :
    ∀ rest sorted : List α,
      Yields (insertionSort less sorted rest) (fun result => result.Perm (sorted ++ rest))
  | [], sorted => by
      rw [List.append_nil]
      exact .ret sorted.reverse_perm
  | x :: xs, sorted => by
      refine .andThen (sink_perm less x sorted) fun longer h => ?_
      refine .mono (insertionSort_perm less xs longer) fun result hr => ?_
      exact hr.trans ((h.append_right xs).trans List.perm_middle.symm)

theorem flatten_cutRuns (xs : List α) : (cutRuns xs).flatten = xs := by
  fun_induction cutRuns xs with
  | case1 xs _ hempty => simp_all
  | case2 xs _ hempty => simp
  | case3 xs _ ih => rw [List.flatten_cons, ih, List.take_append_drop]

/-- No run is empty. -/
theorem ne_nil_of_mem_cutRuns {run xs : List α} (h : run ∈ cutRuns xs) : run ≠ [] := by
  fun_induction cutRuns xs with
  | case1 xs _ hempty => cases h
  | case2 xs _ hempty =>
      cases List.mem_singleton.mp h
      intro hnil
      exact hempty (by rw [hnil]; rfl)
  | case3 xs hlong ih =>
      cases List.mem_cons.mp h with
      | inl he =>
          subst he
          refine List.ne_nil_of_length_pos ?_
          have : 0 < runLength := by decide
          rw [List.length_take]
          omega
      | inr hm => exact ih hm

/-- What sorting the runs one by one leaves of them. -/
def SameRuns (before after : List (List α)) : Prop :=
  after.length = before.length ∧ after.flatten.Perm before.flatten ∧
    ((∀ run ∈ before, run ≠ []) → ∀ run ∈ after, run ≠ [])

theorem mapM_insertionSort_perm (less : α → α → Bool) :
    ∀ runs : List (List α), Yields (runs.mapM (insertionSort less [])) (SameRuns runs)
  | [] => .ret ⟨rfl, .refl _, fun h => h⟩
  | run :: runs => by
      rw [List.mapM_cons]
      refine .andThen (insertionSort_perm less run []) fun run' h => ?_
      refine .andThen (mapM_insertionSort_perm less runs) fun runs' h' => .ret ?_
      obtain ⟨hlength, hperm, hne⟩ := h'
      refine ⟨by simp [hlength], ?_, fun hall r hr => ?_⟩
      · rw [List.flatten_cons, List.flatten_cons]
        exact h.append hperm
      · cases List.mem_cons.mp hr with
        | inl he =>
            subst he
            intro hnil
            subst hnil
            exact hall run (List.mem_cons_self ..) h.symm.eq_nil
        | inr hm => exact hne (fun r hr => hall r (List.mem_cons_of_mem _ hr)) r hm

/-- What a pass leaves of the runs. -/
def FewerRuns (before after : List (List α)) : Prop :=
  after.length = (before.length + 1) / 2 ∧ after.flatten.Perm before.flatten ∧
    ∀ run ∈ after, run ≠ []

theorem mergePass_perm (less : α → α → Bool) :
    ∀ runs : List (List α), (∀ run ∈ runs, run ≠ []) →
      Yields (mergePass less runs) (FewerRuns runs)
  | [], h => .ret ⟨by simp, .refl _, h⟩
  | [run], h => .ret ⟨by simp, .refl _, h⟩
  | first :: second :: rest, h => by
      have hfirst := h first (List.mem_cons_self ..)
      have hsecond := h second (List.mem_cons_of_mem _ (List.mem_cons_self ..))
      have hrest : ∀ run ∈ rest, run ≠ [] := fun run hr =>
        h run (List.mem_cons_of_mem _ (List.mem_cons_of_mem _ hr))
      refine .andThen (symMerge_perm less hfirst hsecond) fun merged hm => ?_
      refine .andThen (mergePass_perm less rest hrest) fun rest' h' => .ret ?_
      obtain ⟨hlength, hperm, hne⟩ := h'
      refine ⟨by simp only [List.length_cons, hlength]; omega, ?_, fun run hr => ?_⟩
      · rw [List.flatten_cons, List.flatten_cons, List.flatten_cons, ← List.append_assoc]
        exact hm.append hperm
      · cases List.mem_cons.mp hr with
        | inl he =>
            subst he
            intro hnil
            subst hnil
            exact hfirst (List.append_eq_nil_iff.mp hm.symm.eq_nil).1
        | inr hmem => exact hne run hmem

theorem mergeRuns_perm (less : α → α → Bool) :
    ∀ (passes : Nat) (runs : List (List α)), runs.length ≤ passes + 1 →
      (∀ run ∈ runs, run ≠ []) →
      Yields (mergeRuns less passes runs) (fun result => result.Perm runs.flatten)
  | _, [], _, _ => by
      rw [mergeRuns]
      exact .ret (.refl _)
  | _, [run], _, _ => by
      rw [mergeRuns]
      exact .ret (by rw [List.flatten_singleton])
  | 0, _ :: _ :: _, hlength, _ => by
      simp only [List.length_cons] at hlength
      omega
  | passes + 1, first :: second :: rest, hlength, hne => by
      rw [mergeRuns]
      · refine .andThen (mergePass_perm less _ hne) fun runs' h => ?_
        obtain ⟨hlength', hperm, hne'⟩ := h
        simp only [List.length_cons] at hlength hlength'
        refine .mono (mergeRuns_perm less passes runs' (by omega) hne') fun result hr => ?_
        exact hr.trans hperm
      · intro h
        cases h
      · intro run h
        cases h

/-- The sort never fails and rearranges the elements. -/
theorem sorting_perm (less : α → α → Bool) (xs : List α) :
    Yields (sorting less xs) (fun result => result.Perm xs) := by
  refine .andThen (mapM_insertionSort_perm less (cutRuns xs)) fun runs h => ?_
  obtain ⟨_, hperm, hne⟩ := h
  refine .mono (mergeRuns_perm less runs.length runs (by omega) ?_) fun result hr => ?_
  · exact hne fun run hr => ne_nil_of_mem_cutRuns hr
  · rw [flatten_cutRuns] at hperm
    exact hr.trans hperm

/-! ## The sort -/

theorem sorting_isSome (less : α → α → Bool) (xs : List α) :
    ((sorting less xs).run 0).isSome := by
  obtain ⟨result, calls, h, _⟩ := sorting_perm less xs 0
  rw [h]
  rfl

/-- The list sorted so that no element is preceded by one that it goes before,
and the number of calls of the relation. -/
def stableSortCounting (less : α → α → Bool) (xs : List α) : List α × Nat :=
  ((sorting less xs).run 0).get (sorting_isSome less xs)

/-- The list sorted so that no element is preceded by one that it goes before. -/
def stableSort (less : α → α → Bool) (xs : List α) : List α := (stableSortCounting less xs).1

/-- What the computation yields holds of the sorted list. -/
theorem stableSort_of_yields {less : α → α → Bool} {xs : List α} {P : List α → Prop}
    (h : Yields (sorting less xs) P) : P (stableSort less xs) := by
  obtain ⟨result, calls, hrun, hP⟩ := h 0
  simp only [stableSort, stableSortCounting, hrun, Option.get_some]
  exact hP

/-- The sorted list has the elements of the list. -/
theorem stableSort_perm (less : α → α → Bool) (xs : List α) : (stableSort less xs).Perm xs :=
  stableSort_of_yields (sorting_perm less xs)

end MomentumChain.Sort
