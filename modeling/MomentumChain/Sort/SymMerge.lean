import MomentumChain.Sort.Sorting

/-!
# Merging two runs

`symMerge` merges two neighbouring runs.  Elements of the first run stay before
elements of the second that do not go before them.

A run of one element is put into its place in the other run by binary search.
Two longer runs are cut.  The cut is found by a binary search that compares
positions which lie symmetrically around the middle of both runs.  The first
half then consists of the heads of both runs and the second half of their
tails, and both halves are merged in the same way.

`symMerge_perm` says that the merge of two runs that are not empty never fails
and rearranges their elements, for any relation at all.
-/

namespace MomentumChain.Sort

variable {α : Type}

/-- The run with an element put in at a position. -/
def putAt (run : List α) (position : Nat) (x : α) : Sorting (List α) := do
  atMost position run.length
  pure (run.take position ++ x :: run.drop position)

/-- The length of the part of the first run that goes to the first half.  Both
runs have at least one element. -/
def cut (less : α → α → Bool) (first second : List α) : Sorting Nat := do
  let all := first ++ second
  let size := first.length
  let middle := all.length / 2
  let span := middle + size
  let last ← minus span 1
  let goesLeft (position : Nat) : Sorting Bool := do
    let partner ← elementAt all (← minus last position)
    let x ← elementAt all position
    return !(← ask less partner x)
  if middle < size then search goesLeft (← minus span all.length) middle
  else search goesLeft 0 size

/-- Merges two runs. -/
def symMerge (less : α → α → Bool) : List α → List α → Sorting (List α)
  | [], _ => failure
  | _ :: _, [] => failure
  | [x], y :: ys => do
      let position ← search (fun i => do ask less (← elementAt (y :: ys) i) x) 0 (ys.length + 1)
      putAt (y :: ys) position x
  | x :: x' :: xs, [y] => do
      let run := x :: x' :: xs
      let position ← search (fun i => do return !(← ask less y (← elementAt run i))) 0 run.length
      putAt run position y
  | x :: x' :: xs, y :: y' :: ys => do
      let first := x :: x' :: xs
      let second := y :: y' :: ys
      let middle := (first.length + second.length) / 2
      let position ← cut less first second
      atMost position first.length
      atMost position middle
      let rest := middle - position
      atMost rest second.length
      let left ←
        if position = 0 ∨ rest = 0 then pure (first.take position ++ second.take rest)
        else symMerge less (first.take position) (second.take rest)
      let right ←
        if first.length ≤ position ∨ second.length ≤ rest then
          pure (first.drop position ++ second.drop rest)
        else symMerge less (first.drop position) (second.drop rest)
      pure (left ++ right)
termination_by first second => first.length + second.length
decreasing_by
  all_goals simp_wf
  all_goals omega

/-! ## No failure, and the same elements -/

theorem putAt_perm {run : List α} {position : Nat} {x : α} (h : position ≤ run.length) :
    Yields (putAt run position x) (fun merged => merged.Perm (x :: run)) := by
  refine .andThen (atMost_yields h) fun _ _ => .ret ?_
  refine List.perm_middle.trans (List.Perm.cons x ?_)
  rw [List.take_append_drop]

/-- The cut leaves the first half within both runs. -/
theorem cut_bounds (less : α → α → Bool) {first second : List α} (hfirst : 0 < first.length)
    (hsecond : 0 < second.length) :
    Yields (cut less first second) (fun position =>
      position ≤ first.length ∧ position ≤ (first.length + second.length) / 2 ∧
        (first.length + second.length) / 2 - position ≤ second.length) := by
  have hall : (first ++ second).length = first.length + second.length := List.length_append
  refine .andThen (minus_yields (by omega)) fun last hlast => ?_
  have htest : ∀ position, position ≤ last →
      last - position < first.length + second.length → position < first.length →
      Yields (do
        let partner ← elementAt (first ++ second) (← minus last position)
        let x ← elementAt (first ++ second) position
        return !(← ask less partner x)) (fun _ => True) := by
    intro position h1 h2 h3
    refine .andThen (minus_yields h1) fun p hp => ?_
    refine .andThen (elementAt_yields (by omega)) fun _ _ => ?_
    refine .andThen (elementAt_yields (by omega)) fun _ _ => ?_
    exact .andThen (ask_yields less _ _) fun _ _ => .ret trivial
  split
  · refine .andThen (minus_yields (by omega)) fun low hlow => ?_
    refine .mono (search_yields (P := fun _ _ => True) (by omega) fun i h1 h2 => ?_) ?_
    · exact htest i (by omega) (by omega) (by omega)
    · intro position h
      omega
  · refine .mono (search_yields (P := fun _ _ => True) (by omega) fun i h1 h2 => ?_) ?_
    · exact htest i (by omega) (by omega) (by omega)
    · intro position h
      omega

/-- The heads of two runs followed by their tails are the runs rearranged. -/
theorem perm_halves (first second : List α) (i j : Nat) :
    ((first.take i ++ second.take j) ++ (first.drop i ++ second.drop j)).Perm
      (first ++ second) := by
  have h : (second.take j ++ (first.drop i ++ second.drop j)).Perm (first.drop i ++ second) := by
    refine (List.perm_append_comm_assoc _ _ _).trans ?_
    rw [List.take_append_drop]
  rw [List.append_assoc]
  refine (List.Perm.append_left _ h).trans ?_
  rw [← List.append_assoc, List.take_append_drop]

/-- The merge of two runs that are not empty never fails and rearranges their
elements. -/
theorem symMerge_perm (less : α → α → Bool) {first second : List α} (hfirst : first ≠ [])
    (hsecond : second ≠ []) :
    Yields (symMerge less first second) (fun merged => merged.Perm (first ++ second)) := by
  fun_induction symMerge less first second with
  | case1 second => exact absurd rfl hfirst
  | case2 => exact absurd rfl hsecond
  | case3 x y ys =>
      refine .andThen (search_yields (P := fun _ _ => True) (by omega) fun i _ hi => ?_) ?_
      · refine .andThen (elementAt_yields (by simpa using hi)) fun _ _ => ?_
        exact .mono (ask_yields less _ _) fun _ _ => trivial
      · intro position h
        exact putAt_perm (by simpa using h.2.1)
  | case4 x x' xs y run =>
      refine .andThen (search_yields (P := fun _ _ => True) (by omega) fun i _ hi => ?_) ?_
      · refine .andThen (elementAt_yields hi) fun _ _ => ?_
        exact .andThen (ask_yields less _ _) fun _ _ => .ret trivial
      · intro position h
        exact .mono (putAt_perm h.2.1) fun merged hm =>
          hm.trans (List.perm_append_comm : ([y] ++ run).Perm (run ++ [y]))
  | case5 x x' xs y y' ys first second middle ihLeft ihRight =>
      refine .andThen (cut_bounds less (by simp [first]) (by simp [second])) fun position h => ?_
      obtain ⟨h1, h2, h3⟩ := h
      refine .andThen (atMost_yields h1) fun _ _ => ?_
      refine .andThen (atMost_yields h2) fun _ _ => ?_
      refine .andThen (atMost_yields h3) fun _ _ => ?_
      have hfirst' : first.length = xs.length + 2 := rfl
      have hsecond' : second.length = ys.length + 2 := rfl
      have hboth : ∀ left right : List α,
          left.Perm (first.take position ++ second.take (middle - position)) →
          right.Perm (first.drop position ++ second.drop (middle - position)) →
          (left ++ right).Perm (first ++ second) :=
        fun left right hl hr => (hl.append hr).trans (perm_halves first second _ _)
      have hrest : ∀ left : List α,
          left.Perm (first.take position ++ second.take (middle - position)) →
          Yields (if first.length ≤ position ∨ second.length ≤ middle - position then do
              let right ← pure (first.drop position ++ second.drop (middle - position))
              pure (left ++ right)
            else do
              let right ← symMerge less (first.drop position) (second.drop (middle - position))
              pure (left ++ right))
            (fun merged => merged.Perm (first ++ second)) := by
        intro left hl
        split
        · exact .andThen (.ret (.refl _)) fun right hr => .ret (hboth left right hl hr)
        · rename_i hne
          refine .andThen (ihLeft position ?_ ?_) fun right hr => .ret (hboth left right hl hr)
          · exact List.ne_nil_of_length_pos (by rw [List.length_drop]; omega)
          · exact List.ne_nil_of_length_pos (by rw [List.length_drop]; omega)
      dsimp only
      split
      · exact .andThen (.ret (.refl _)) fun left hl => hrest left hl
      · rename_i hne
        refine .andThen (ihRight position ?_ ?_) fun left hl => hrest left hl
        · exact List.ne_nil_of_length_pos (by rw [List.length_take]; omega)
        · exact List.ne_nil_of_length_pos (by rw [List.length_take]; omega)

end MomentumChain.Sort
