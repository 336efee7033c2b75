import MomentumChain.Proofs.Sort.Row
import MomentumChain.Proofs.Sort.Passes

/-!
# Merging in place

`symMerge_inPlace` says that `mergeAt` merges two neighbouring runs of a row as `symMerge` merges
two lists.  The three cases of the merge have a lemma each.  A run of one element is put into its
slot by exchanges.  Two longer runs are cut, and a rotation brings the heads of both runs
together, and the tails.

`mergeAt` fails where one of its runs is empty, and it calls itself only under that test.
`mergeWithin` and `joined` are the two merges together with this test, on the row and on lists.
-/

namespace MomentumChain.Sort

variable {α : Type}

/-! ## Where two runs are cut -/

/-- The cut of two parts of the row is found by the same comparisons as the cut of two lists. -/
theorem cutAt_part (less : α → α → Bool) (before after : List α) {first second : List α}
    (hfirst : 0 < first.length) (hsecond : 0 < second.length) :
    cutAt less (before ++ (first ++ second) ++ after) before.length
        (before.length + first.length) (before.length + first.length + second.length) =
      (before.length + ·) <$> cut less first second := by
  have hall : (first ++ second).length = first.length + second.length := List.length_append
  have hhalf : (before.length + (before.length + first.length + second.length)) / 2 =
      before.length + (first.length + second.length) / 2 := by omega
  rw [cutAt, cut]
  dsimp only
  rw [hall, hhalf]
  generalize hmiddle : (first.length + second.length) / 2 = middle
  rw [minus_of_le (a := before.length + middle + (before.length + first.length)) (by omega),
    minus_of_le (a := middle + first.length) (by omega), pure_bind, pure_bind]
  -- Both tests compare the same elements.
  have htest : ∀ i, i ≤ middle + first.length - 1 →
      middle + first.length - 1 - i < first.length + second.length → i < first.length →
      (do
        let partner ← minus (before.length + middle + (before.length + first.length) - 1)
          (before.length + i)
        return !(← askAt less (before ++ (first ++ second) ++ after) partner (before.length + i)) :
          Sorting Bool) =
      (do
        let partner ← elementAt (first ++ second) (← minus (middle + first.length - 1) i)
        let x ← elementAt (first ++ second) i
        return !(← ask less partner x)) := by
    intro i h1 h2 h3
    have hpartner : before.length + middle + (before.length + first.length) - 1 -
        (before.length + i) = before.length + (middle + first.length - 1 - i) := by omega
    rw [minus_of_le (by omega), minus_of_le h1, pure_bind, pure_bind, hpartner, askAt,
      elementAt_part _ _ _ (by omega), elementAt_part _ _ _ (by omega),
      elementAt_of_lt (by omega), elementAt_of_lt (by omega)]
    simp only [pure_bind]
  split
  · rename_i hlt
    have hlow : before.length + middle + (before.length + first.length) -
        (before.length + first.length + second.length) =
          before.length + (middle + first.length - (first.length + second.length)) := by omega
    rw [if_pos (by omega), minus_of_le (by omega), minus_of_le (by omega), pure_bind, pure_bind,
      hlow]
    exact search_add before.length _ _ fun i h1 h2 =>
      htest i (by omega) (by omega) (by omega)
  · rename_i hlt
    rw [if_neg (by omega)]
    exact search_add before.length 0 _ fun i h1 h2 =>
      htest i (by omega) (by omega) (by omega)

/-! ## Runs that may be empty -/

/-- Exchanges two parts of the row where both have an element. -/
def rotateWithin (low middle high : Nat) : InPlace α Unit :=
  if low < middle ∧ middle < high then rotate low middle high else pure ()

theorem rotateWithin_replaces {before first second after : List α} {low middle high : Nat}
    (hlow : low = before.length) (hmiddle : middle = low + first.length)
    (hhigh : high = middle + second.length) :
    Replaces (rotateWithin low middle high) before (first ++ second) after
      (pure (second ++ first)) := by
  subst hlow hmiddle hhigh
  rw [rotateWithin]
  split
  · exact rotate_replaces before first second after
  · rename_i h
    have hswap : first ++ second = second ++ first := by
      have hnil : first = [] ∨ second = [] := by
        simp only [← List.length_eq_zero_iff]
        omega
      rcases hnil with rfl | rfl <;> simp
    rw [hswap]
    exact .nothing

/-- Merges two parts of the row where both have an element. -/
def mergeWithin (less : α → α → Bool) (low middle high : Nat) : InPlace α Unit :=
  if low < middle ∧ middle < high then mergeAt less low middle high else pure ()

/-- Merges two runs, of which one may be empty. -/
def joined (less : α → α → Bool) (first second : List α) : Sorting (List α) :=
  if first = [] ∨ second = [] then pure (first ++ second) else symMerge less first second

theorem joined_perm (less : α → α → Bool) (first second : List α) :
    Yields (joined less first second) (fun merged => merged.Perm (first ++ second)) := by
  rw [joined]
  split
  · exact .ret (.refl _)
  · rename_i h
    obtain ⟨hfirst, hsecond⟩ := not_or.mp h
    exact symMerge_perm less hfirst hsecond

/-- Wherever two runs lie in the row, they are merged there. -/
def MergedInPlace (less : α → α → Bool) (first second : List α) : Prop :=
  ∀ ⦃before after : List α⦄ ⦃low middle high : Nat⦄, low = before.length →
    middle = low + first.length → high = middle + second.length →
      Replaces (mergeAt less low middle high) before (first ++ second) after
        (symMerge less first second)

theorem mergeWithin_replaces {less : α → α → Bool} {before first second after : List α}
    {low middle high : Nat} (h : first ≠ [] → second ≠ [] → MergedInPlace less first second)
    (hlow : low = before.length) (hmiddle : middle = low + first.length)
    (hhigh : high = middle + second.length) :
    Replaces (mergeWithin less low middle high) before (first ++ second) after
      (joined less first second) := by
  have hends : (low < middle ∧ middle < high) ↔ ¬ (first = [] ∨ second = []) := by
    simp only [← List.length_eq_zero_iff]
    omega
  rw [mergeWithin, joined]
  by_cases hnil : first = [] ∨ second = []
  · rw [if_pos hnil, if_neg fun hne => hends.mp hne hnil]
    exact .nothing
  · obtain ⟨hfirst, hsecond⟩ := not_or.mp hnil
    rw [if_neg hnil, if_pos (hends.mpr hnil)]
    exact h hfirst hsecond hlow hmiddle hhigh

/-! ## A run of one element -/

/-- One element before a run goes up to its slot. -/
theorem mergeAt_single_left (less : α → α → Bool) (x y : α) (ys : List α) :
    MergedInPlace less [x] (y :: ys) := by
  intro before after low middle high hlow hmiddle hhigh
  rw [List.length_singleton] at hmiddle
  rw [List.length_cons] at hhigh
  have hmerge : mergeAt less low middle high = (do
      let row ← get
      let slot ← search (fun i => askAt less row i low) middle high
      raise low (← minus slot 1)) := by
    have hsingle : middle - low = 1 := by omega
    rw [mergeAt]
    dsimp only
    rw [dif_pos (by omega), minus_of_le (by omega)]
    simp only [liftM_pure, pure_bind, if_pos hsingle]
  have hsearch : search (fun i => askAt less (before ++ ([x] ++ y :: ys) ++ after) i low)
      middle high = (middle + ·) <$>
        search (fun i => do ask less (← elementAt (y :: ys) i) x) 0 (ys.length + 1) := by
    subst hhigh
    refine search_add middle 0 _ fun i _ hi => ?_
    have hx : elementAt (before ++ ([x] ++ y :: ys) ++ after) low = pure x := by
      have h := elementAt_middle before x (y :: ys ++ after)
      simpa [hlow] using h
    have hother : elementAt (before ++ ([x] ++ y :: ys) ++ after) (middle + i) =
        pure (y :: ys)[i] := by
      have h := elementAt_part (before ++ [x]) (y :: ys) after hi
      simpa [hlow, hmiddle] using h
    rw [askAt, hx, hother, elementAt_of_lt hi]
    simp only [pure_bind]
  rw [hmerge, symMerge]
  refine .consult hsearch (search_isCut_left less x (y :: ys)) fun i hi => ?_
  obtain ⟨hi, -, -⟩ := hi
  have hslot : middle + i - 1 = before.length + ((y :: ys).take i).length := by
    rw [List.length_take]
    omega
  have hraise := raise_replaces x before ((y :: ys).take i) ((y :: ys).drop i ++ after)
  rw [putAt_of_le hi, minus_of_le (by omega), hslot, hlow]
  have hwide := Replaces.widen [] ((y :: ys).drop i) (by simpa using hraise)
  simpa using hwide

/-- One element behind a run goes down to its slot. -/
theorem mergeAt_single_right (less : α → α → Bool) (x x' y : α) (xs : List α) :
    MergedInPlace less (x :: x' :: xs) [y] := by
  intro before after low middle high hlow hmiddle hhigh
  rw [List.length_singleton] at hhigh
  have hmerge : mergeAt less low middle high = (do
      let row ← get
      let slot ← search (fun i => return !(← askAt less row middle i)) low middle
      lower slot middle) := by
    have hlong : ¬ middle - low = 1 := by
      simp only [List.length_cons] at hmiddle
      omega
    have hsingle : high - middle = 1 := by omega
    have hfirst : 0 < (x :: x' :: xs).length := by simp
    rw [mergeAt]
    dsimp only
    rw [dif_pos (by omega), minus_of_le (by omega), minus_of_le (by omega)]
    simp only [liftM_pure, pure_bind, if_neg hlong, if_pos hsingle]
  have hsearch : search (fun i => do
        return !(← askAt less (before ++ (x :: x' :: xs ++ [y]) ++ after) middle i)) low middle =
      (low + ·) <$> search (fun i => do return !(← ask less y (← elementAt (x :: x' :: xs) i)))
        0 (x :: x' :: xs).length := by
    subst hmiddle
    refine search_add low 0 _ fun i _ hi => ?_
    have hy : elementAt (before ++ (x :: x' :: xs ++ [y]) ++ after)
        (low + (x :: x' :: xs).length) = pure y := by
      have h := elementAt_middle (before ++ (x :: x' :: xs)) y after
      simpa [hlow] using h
    have hother : elementAt (before ++ (x :: x' :: xs ++ [y]) ++ after) (low + i) =
        pure (x :: x' :: xs)[i] := by
      have h := elementAt_part before (x :: x' :: xs) (y :: after) hi
      simpa [hlow] using h
    rw [askAt, hy, hother, elementAt_of_lt hi]
    simp only [pure_bind]
  rw [hmerge, symMerge]
  refine .consult hsearch (search_isCut_right less y (x :: x' :: xs)) fun i hi => ?_
  obtain ⟨hi, -, -⟩ := hi
  have hlower := lower_replaces (before ++ (x :: x' :: xs).take i) ((x :: x' :: xs).drop i) y after
  have hlength : (before ++ (x :: x' :: xs).take i).length = low + i := by
    rw [List.length_append, List.length_take]
    omega
  have hmiddle' : low + i + ((x :: x' :: xs).drop i).length = middle := by
    rw [List.length_drop]
    omega
  rw [hlength, hmiddle'] at hlower
  have hwide := Replaces.widen _ [] hlower
  simp only [List.append_nil, ← List.append_assoc, List.take_append_drop] at hwide
  rw [putAt_of_le hi]
  exact hwide

/-! ## Two longer runs -/

/-- The merge of two longer runs, by the place where it cuts them. -/
theorem mergeAt_long (less : α → α → Bool) {low middle high : Nat} (hlow : low + 1 < middle)
    (hhigh : middle + 1 < high) :
    mergeAt less low middle high = (do
      let start ← cutAt less (← get) low middle high
      let stop ← minus ((low + high) / 2 + middle) start
      rotateWithin start middle stop
      mergeWithin less low start ((low + high) / 2)
      mergeWithin less ((low + high) / 2) stop high) := by
  have hfirst : ¬ middle - low = 1 := by omega
  have hsecond : ¬ high - middle = 1 := by omega
  rw [mergeAt]
  dsimp only
  rw [dif_pos (by omega), minus_of_le (by omega), minus_of_le (by omega)]
  simp only [liftM_pure, pure_bind, if_neg hfirst, if_neg hsecond, dite_eq_ite]
  refine bind_congr fun row => bind_congr fun start => bind_congr fun stop => ?_
  rw [rotateWithin, mergeWithin, mergeWithin]
  split <;> split <;> rfl

/-- The halves of two longer runs are merged one after the other. -/
theorem symMerge_long (less : α → α → Bool) {first second : List α} (hfirst : 1 < first.length)
    (hsecond : 1 < second.length) :
    symMerge less first second = (do
      let position ← cut less first second
      let rest := (first.length + second.length) / 2 - position
      let left ← joined less (first.take position) (second.take rest)
      let right ← joined less (first.drop position) (second.drop rest)
      pure (left ++ right)) := by
  match first, second with
  | x :: x' :: xs, y :: y' :: ys =>
      rw [symMerge]
      refine (cut_bounds less (by simp) (by simp)).bind_congr fun position h => ?_
      obtain ⟨h1, h2, h3⟩ := h
      dsimp only
      rw [atMost_of_le h1, atMost_of_le h2, atMost_of_le h3, pure_bind, pure_bind, pure_bind]
      simp only [joined, List.take_eq_nil_iff, List.drop_eq_nil_iff, reduceCtorEq, or_false]
      split <;> split <;> simp only [pure_bind]

/-- Where two runs are cut, an exchange brings their heads together and their tails. -/
theorem rotateWithin_cut {before first second after : List α} {i j low middle high : Nat}
    (hi : i ≤ first.length) (hj : j ≤ second.length) (hlow : low = before.length + i)
    (hmiddle : middle = before.length + first.length) (hhigh : high = middle + j) :
    Replaces (rotateWithin low middle high) before (first ++ second) after
      (pure ((first.take i ++ second.take j) ++ (first.drop i ++ second.drop j))) := by
  have h : Replaces (rotateWithin low middle high) (before ++ first.take i)
      (first.drop i ++ second.take j) (second.drop j ++ after)
      (pure (second.take j ++ first.drop i)) := by
    refine rotateWithin_replaces ?_ ?_ ?_
    · rw [List.length_append, List.length_take_of_le hi, hlow]
    · rw [List.length_drop]
      omega
    · rw [List.length_take_of_le hj, hhigh]
  have hwide := Replaces.widen _ _ h
  simp only [List.append_assoc, List.take_append_drop] at hwide ⊢
  rw [← List.append_assoc (first.take i), List.take_append_drop] at hwide
  exact hwide

/-- Two longer runs are cut, and what belongs together is brought together and merged. -/
theorem mergeAt_cut {less : α → α → Bool} {first second : List α} (hfirst : 1 < first.length)
    (hsecond : 1 < second.length)
    (hheads : ∀ i, first.take i ≠ [] →
      second.take ((first.length + second.length) / 2 - i) ≠ [] →
        MergedInPlace less (first.take i) (second.take ((first.length + second.length) / 2 - i)))
    (htails : ∀ i, first.drop i ≠ [] →
      second.drop ((first.length + second.length) / 2 - i) ≠ [] →
        MergedInPlace less (first.drop i) (second.drop ((first.length + second.length) / 2 - i))) :
    MergedInPlace less first second := by
  intro before after low middle high hlow hmiddle hhigh
  rw [mergeAt_long less (by omega) (by omega), symMerge_long less hfirst hsecond]
  subst hlow hmiddle hhigh
  refine .consult (cutAt_part less before after (by omega) (by omega))
    (cut_bounds less (by omega) (by omega)) fun position hposition => ?_
  obtain ⟨h1, h2, h3⟩ := hposition
  have hhalf : (before.length + (before.length + first.length + second.length)) / 2 =
      before.length + (first.length + second.length) / 2 := by omega
  rw [hhalf, minus_of_le (by omega)]
  dsimp only
  generalize (first.length + second.length) / 2 = half at h2 h3 hheads htails ⊢
  -- The heads of both runs fill the row up to the half of it.
  have hposition : (first.take position).length = position := List.length_take_of_le h1
  have hrest : (second.take (half - position)).length = half - position :=
    List.length_take_of_le h3
  have hrotate : Replaces
      (rotateWithin (before.length + position) (before.length + first.length)
        (before.length + half + (before.length + first.length) - (before.length + position)))
      before (first ++ second) after
      (pure ((first.take position ++ second.take (half - position)) ++
        (first.drop position ++ second.drop (half - position)))) :=
    rotateWithin_cut h1 h3 rfl rfl (by omega)
  refine hrotate.andThen (Replaces.seq ?_ (joined_perm less _ _) fun left hleft => ?_)
  · refine mergeWithin_replaces (hheads position) rfl ?_ ?_
    · rw [hposition]
    · rw [hrest]
      omega
  · have hlength : left.length = half := by
      rw [hleft.length_eq, List.length_append, hposition, hrest]
      omega
    refine mergeWithin_replaces (htails position) ?_ ?_ ?_
    · rw [List.length_append, hlength]
    · rw [List.length_drop]
      omega
    · rw [List.length_drop]
      omega

/-! ## The merge -/

/-- The merge of two runs in the row is the merge of two lists. -/
theorem symMerge_inPlace (less : α → α → Bool) {first second : List α} (hfirst : first ≠ [])
    (hsecond : second ≠ []) : MergedInPlace less first second := by
  fun_induction symMerge less first second with
  | case1 second => exact absurd rfl hfirst
  | case2 => exact absurd rfl hsecond
  | case3 x y ys => exact mergeAt_single_left less x y ys
  | case4 x x' xs y => exact mergeAt_single_right less x x' y xs
  | case5 x x' xs y y' ys =>
      rename_i ihTails ihHeads
      have hfirst' : 1 < (x :: x' :: xs).length := by simp
      have hsecond' : 1 < (y :: y' :: ys).length := by simp
      exact mergeAt_cut hfirst' hsecond' ihHeads ihTails

end MomentumChain.Sort
