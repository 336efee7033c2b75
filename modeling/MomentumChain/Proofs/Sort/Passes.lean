import MomentumChain.Sort.Stable

/-!
# What the sort keeps

The sort insertion-sorts the runs of a list and merges them pass by pass, and a
merge of two long runs cuts both and merges the halves.  This module goes through
that structure once, for any relation, so that a fact about the sorted list
comes down to a fact about a cut.

`IsCut` is what is known of a cut.  Nothing is assumed of the relation, so a
binary search settles only what it compared last: the elements in front of the
cut against those behind it on the other side.

* `symMerge_joins` says that what is kept where cut runs are joined (`Joins`)
  holds of every merge.
* `sorting_kept` says that what is kept by merges (`Kept`) and holds of sorted
  runs holds of the sorted list.
-/

namespace MomentumChain.Sort

variable {α : Type}

/-- A computation has one result, so what it yields holds together. -/
theorem Yields.and {m : Sorting α} {P Q : α → Prop} (hP : Yields m P) (hQ : Yields m Q) :
    Yields m (fun a => P a ∧ Q a) := by
  intro calls
  obtain ⟨a, calls', hrun, ha⟩ := hP calls
  obtain ⟨b, calls'', hrun', hb⟩ := hQ calls
  rw [hrun] at hrun'
  cases hrun'
  exact ⟨a, calls', hrun, ha, hb⟩

/-! ## Where two runs are cut -/

/-- The first half takes `i` elements of the first run and `j` of the second.
The last of the former does not have to make way for the first element of the
second run that stays behind.  The last of the latter goes before the first
element of the first run that stays behind. -/
structure IsCut (less : α → α → Bool) (first second : List α) (i j : Nat) : Prop where
  stays : ∀ a ∈ (first.take i).getLast?, ∀ d ∈ (second.drop j).head?, less d a = false
  passes : ∀ b ∈ (second.take j).getLast?, ∀ c ∈ (first.drop i).head?, less b c = true

/-- The last of the first `i` elements. -/
theorem getElem?_of_mem_getLast?_take {xs : List α} {i : Nat} (hi : i ≤ xs.length) {a : α}
    (h : a ∈ (xs.take i).getLast?) : 0 < i ∧ xs[i - 1]? = some a := by
  cases i with
  | zero => simp at h
  | succ i =>
      refine ⟨by omega, ?_⟩
      have hlt : i < xs.length := by omega
      simpa [List.getLast?_take, List.getElem?_eq_getElem hlt] using h

/-- The search for a slot in a run ends behind elements that passed the test and
in front of one that failed it. -/
theorem search_slot {run : List α} {m : α → Sorting Bool} {test : α → Bool}
    (hm : ∀ z, Yields (m z) fun answer => answer = test z) :
    Yields (search (fun i => do m (← elementAt run i)) 0 run.length) fun i =>
      i ≤ run.length ∧ (∀ z ∈ (run.take i).getLast?, test z = true) ∧
        ∀ z ∈ (run.drop i).head?, test z = false := by
  refine .mono (search_yields (P := fun i answer => ∀ z ∈ run[i]?, answer = test z)
    (Nat.zero_le _) fun i _ hi => ?_) ?_
  · refine .andThen (elementAt_yields hi) fun z hz => ?_
    refine .mono (hm z) fun answer hanswer w hw => ?_
    obtain ⟨_, hw⟩ := List.getElem?_eq_some_iff.mp hw
    rw [hanswer, hz, hw]
  · rintro i ⟨_, hi, hbefore, hat⟩
    refine ⟨hi, fun z hz => ?_, fun z hz => ?_⟩
    · obtain ⟨hpos, hz⟩ := getElem?_of_mem_getLast?_take hi hz
      exact (hbefore hpos z hz).symm
    · rw [List.head?_drop] at hz
      exact (hat (List.getElem?_eq_some_iff.mp hz).1 z hz).symm

/-- The slot of a single first element is a cut with and without it. -/
theorem search_isCut_left (less : α → α → Bool) (x : α) (run : List α) :
    Yields (search (fun i => do ask less (← elementAt run i) x) 0 run.length) fun i =>
      i ≤ run.length ∧ IsCut less [x] run 0 i ∧ IsCut less [x] run 1 i := by
  refine .mono (search_slot fun z => ask_yields less z x) ?_
  rintro i ⟨hi, hbefore, hat⟩
  refine ⟨hi, ⟨by simp, fun b hb c hc => ?_⟩, ⟨fun a ha d hd => ?_, by simp⟩⟩
  · cases hc
    exact hbefore b hb
  · cases ha
    exact hat d hd

/-- The slot of a single second element is a cut with and without it. -/
theorem search_isCut_right (less : α → α → Bool) (y : α) (run : List α) :
    Yields (search (fun i => do return !(← ask less y (← elementAt run i))) 0 run.length) fun i =>
      i ≤ run.length ∧ IsCut less run [y] i 1 ∧ IsCut less run [y] i 0 := by
  have htest : ∀ z, Yields (do return !(← ask less y z)) fun answer => answer = !less y z :=
    fun z => .andThen (ask_yields less y z) fun answer hanswer => .ret (by rw [hanswer])
  refine .mono (search_slot htest) ?_
  rintro i ⟨hi, hbefore, hat⟩
  refine ⟨hi, ⟨by simp, fun b hb c hc => ?_⟩, ⟨fun a ha d hd => ?_, by simp⟩⟩
  · cases hb
    simpa using hat c hc
  · cases hd
    simpa using hbefore a ha

/-- What the search learns at a position of the first run.  It compares the
element there with its mirror image in the second run. -/
def Mirrored (less : α → α → Bool) (first second : List α) (i : Nat) (answer : Bool) : Prop :=
  ∀ a ∈ first[i]?, ∀ d ∈ second[(first.length + second.length) / 2 - 1 - i]?, answer = !less d a

theorem mirrored_yields (less : α → α → Bool) {first second : List α} {last i : Nat}
    (hlast : last = (first.length + second.length) / 2 + first.length - 1)
    (hi : i < first.length) (hmirror : first.length ≤ last - i)
    (hlt : last - i < first.length + second.length) :
    Yields (do
      let partner ← elementAt (first ++ second) (← minus last i)
      let x ← elementAt (first ++ second) i
      return !(← ask less partner x)) (Mirrored less first second i) := by
  have hall : (first ++ second).length = first.length + second.length := List.length_append
  refine .andThen (minus_yields (by omega)) fun p hp => ?_
  refine .andThen (elementAt_yields (by omega)) fun partner hpartner => ?_
  refine .andThen (elementAt_yields (by omega)) fun x hx => ?_
  refine .andThen (ask_yields less _ _) fun answer hanswer => .ret fun a ha d hd => ?_
  rw [List.getElem_append_left hi] at hx
  rw [List.getElem_append_right (by omega)] at hpartner
  obtain ⟨_, ha⟩ := List.getElem?_eq_some_iff.mp ha
  obtain ⟨_, hd⟩ := List.getElem?_eq_some_iff.mp hd
  have hd' : partner = d := by
    rw [hpartner, ← hd]
    congr 1
    omega
  rw [hanswer, hx, ha, hd']

/-- A position where the test held right before it and failed at it is a cut. -/
theorem isCut_of_mirrored {less : α → α → Bool} {first second : List α} {i : Nat}
    (h1 : i ≤ first.length) (h2 : i ≤ (first.length + second.length) / 2)
    (h3 : (first.length + second.length) / 2 - i ≤ second.length)
    (hbefore : 0 < i → (first.length + second.length) / 2 - i < second.length →
      Mirrored less first second (i - 1) true)
    (hat : i < first.length → i < (first.length + second.length) / 2 →
      Mirrored less first second i false) :
    IsCut less first second i ((first.length + second.length) / 2 - i) where
  stays a ha d hd := by
    obtain ⟨hpos, ha⟩ := getElem?_of_mem_getLast?_take h1 ha
    rw [List.head?_drop] at hd
    have hlt := (List.getElem?_eq_some_iff.mp hd).1
    have hindex : (first.length + second.length) / 2 - 1 - (i - 1) =
        (first.length + second.length) / 2 - i := by omega
    have h := hbefore hpos hlt a ha d (by rw [hindex]; exact hd)
    simpa using h
  passes b hb c hc := by
    obtain ⟨hpos, hb⟩ := getElem?_of_mem_getLast?_take h3 hb
    rw [List.head?_drop] at hc
    have hlt := (List.getElem?_eq_some_iff.mp hc).1
    have hindex : (first.length + second.length) / 2 - 1 - i =
        (first.length + second.length) / 2 - i - 1 := by omega
    have h := hat hlt (by omega) c hc b (by rw [hindex]; exact hb)
    simpa using h

/-- The search cuts two runs where its last comparisons say. -/
theorem cut_isCut (less : α → α → Bool) {first second : List α} (hfirst : 0 < first.length)
    (hsecond : 0 < second.length) :
    Yields (cut less first second) (fun i =>
      IsCut less first second i ((first.length + second.length) / 2 - i)) := by
  have hall : (first ++ second).length = first.length + second.length := List.length_append
  refine .andThen (minus_yields (by omega)) fun last hlast => ?_
  rw [hall] at hlast
  -- both ranges of the search are the positions that have a mirror image
  have hsearch : ∀ low high, low = (first.length + second.length) / 2 - second.length →
      high = min ((first.length + second.length) / 2) first.length →
      Yields (search (fun position => do
        let partner ← elementAt (first ++ second) (← minus last position)
        let x ← elementAt (first ++ second) position
        return !(← ask less partner x)) low high) (fun i =>
          IsCut less first second i ((first.length + second.length) / 2 - i)) := by
    intro low high hlow hhigh
    refine .mono (search_yields (P := Mirrored less first second) (by omega) fun i h1 h2 => ?_) ?_
    · exact mirrored_yields less hlast (by omega) (by omega) (by omega)
    · rintro i ⟨h1, h2, hbefore, hat⟩
      exact isCut_of_mirrored (by omega) (by omega) (by omega) (fun _ _ => hbefore (by omega))
        (fun _ _ => hat (by omega))
  split
  · exact .andThen (minus_yields (by omega)) fun low hlow => hsearch low _ (by omega) (by omega)
  · exact hsearch _ _ (by omega) (by omega)

/-! ## From the cut to the merge -/

/-- What makes a statement about merges hold.  `Pre` is asked of two runs, and
`Post` is said of two runs and their merge. -/
structure Joins (less : α → α → Bool) (Pre : List α → List α → Prop)
    (Post : List α → List α → List α → Prop) : Prop where
  left : ∀ {ys}, Pre [] ys → Post [] ys ys
  right : ∀ {xs}, Pre xs [] → Post xs [] xs
  take : ∀ {xs ys} i j, Pre xs ys → Pre (xs.take i) (ys.take j)
  drop : ∀ {xs ys} i j, Pre xs ys → Pre (xs.drop i) (ys.drop j)
  join : ∀ {xs ys i j left right}, IsCut less xs ys i j → Pre xs ys →
    Post (xs.take i) (ys.take j) left → Post (xs.drop i) (ys.drop j) right →
    Post xs ys (left ++ right)

theorem putAt_yields {run : List α} {position : Nat} {x : α} (h : position ≤ run.length) :
    Yields (putAt run position x) fun merged =>
      merged = run.take position ++ x :: run.drop position :=
  .andThen (atMost_yields h) fun _ _ => .ret rfl

section

variable {less : α → α → Bool} {Pre : List α → List α → Prop}
  {Post : List α → List α → List α → Prop}

/-- A merge with an empty run is the other run. -/
theorem Joins.of_empty (joins : Joins less Pre Post) {xs ys : List α} (hpre : Pre xs ys)
    (h : xs = [] ∨ ys = []) : Post xs ys (xs ++ ys) := by
  cases h with
  | inl hnil =>
      subst hnil
      exact joins.left hpre
  | inr hnil =>
      subst hnil
      rw [List.append_nil]
      exact joins.right hpre

/-- The element `x` put into the slot of a run. -/
theorem Joins.putLeft (joins : Joins less Pre Post) {x : α} {run : List α} {i : Nat}
    (hpre : Pre [x] run) (hcut : IsCut less [x] run 0 i) (hcut' : IsCut less [x] run 1 i) :
    Post [x] run (run.take i ++ x :: run.drop i) := by
  have hright : Post [x] (run.drop i) ([x] ++ run.drop i) :=
    joins.join (i := 1) (j := 0) ⟨hcut'.stays, by simp⟩ (joins.drop 0 i hpre)
      (joins.right (joins.take 1 0 hpre)) (joins.left (joins.drop 1 i hpre))
  exact joins.join hcut hpre (joins.left (joins.take 0 i hpre)) hright

theorem Joins.putRight (joins : Joins less Pre Post) {y : α} {run : List α} {i : Nat}
    (hpre : Pre run [y]) (hcut : IsCut less run [y] i 1) (hcut' : IsCut less run [y] i 0) :
    Post run [y] (run.take i ++ y :: run.drop i) := by
  have htake : (run.take i).take i = run.take i := by rw [List.take_take, Nat.min_self]
  have hdrop : (run.take i).drop i = [] := by rw [List.drop_take, Nat.sub_self, List.take_zero]
  have hleft : Post (run.take i) [y] (run.take i ++ [y]) := by
    refine joins.join (i := i) (j := 0) ⟨?_, by simp⟩ (joins.take i 1 hpre) ?_ ?_
    · rw [htake]
      exact hcut'.stays
    · rw [htake]
      exact joins.right (joins.take i 0 hpre)
    · have h := joins.drop i 0 (joins.take i 1 hpre)
      rw [hdrop] at h ⊢
      exact joins.left h
  rw [List.append_cons]
  exact joins.join hcut hpre hleft (joins.right (joins.drop i 1 hpre))

/-- What holds of merges with an empty run and is kept where cut runs are joined
holds of every merge. -/
theorem symMerge_joins (joins : Joins less Pre Post) {first second : List α} (hne : first ≠ [])
    (hne' : second ≠ []) (hpre : Pre first second) :
    Yields (symMerge less first second) (Post first second) := by
  fun_induction symMerge less first second with
  | case1 second => exact absurd rfl hne
  | case2 => exact absurd rfl hne'
  | case3 x y ys =>
      refine .andThen (search_isCut_left less x (y :: ys)) ?_
      rintro i ⟨hi, hcut, hcut'⟩
      exact .mono (putAt_yields hi) fun merged hm => hm ▸ joins.putLeft hpre hcut hcut'
  | case4 x x' xs y run =>
      refine .andThen (search_isCut_right less y run) ?_
      rintro i ⟨hi, hcut, hcut'⟩
      exact .mono (putAt_yields hi) fun merged hm => hm ▸ joins.putRight hpre hcut hcut'
  | case5 x x' xs y y' ys first second middle ihRight ihLeft =>
      have hfirst : first.length = xs.length + 2 := rfl
      have hsecond : second.length = ys.length + 2 := rfl
      refine .andThen ((cut_bounds less (by omega) (by omega)).and
        (cut_isCut less (by omega) (by omega))) ?_
      rintro i ⟨⟨h1, h2, h3⟩, hcut⟩
      refine .andThen (atMost_yields h1) fun _ _ => ?_
      refine .andThen (atMost_yields h2) fun _ _ => ?_
      refine .andThen (atMost_yields h3) fun _ _ => ?_
      -- a half is merged only if both runs have a part in it
      have hrest : ∀ left, Post (first.take i) (second.take (middle - i)) left →
          Yields (if first.length ≤ i ∨ second.length ≤ middle - i then do
              let right ← pure (first.drop i ++ second.drop (middle - i))
              pure (left ++ right)
            else do
              let right ← symMerge less (first.drop i) (second.drop (middle - i))
              pure (left ++ right))
            (Post first second) := by
        intro left hl
        have hdrop := joins.drop i (middle - i) hpre
        split
        · rename_i hempty
          refine .andThen (.ret (joins.of_empty hdrop ?_)) fun right hr =>
            .ret (joins.join hcut hpre hl hr)
          exact hempty.imp List.drop_of_length_le List.drop_of_length_le
        · rename_i hlong
          refine .andThen (ihRight i ?_ ?_ hdrop) fun right hr =>
            .ret (joins.join hcut hpre hl hr)
          · exact List.ne_nil_of_length_pos (by rw [List.length_drop]; omega)
          · exact List.ne_nil_of_length_pos (by rw [List.length_drop]; omega)
      have htake := joins.take i (middle - i) hpre
      dsimp only
      split
      · rename_i hempty
        refine .andThen (.ret (joins.of_empty htake ?_)) fun left hl => hrest left hl
        exact hempty.imp (fun h => by rw [h, List.take_zero]) (fun h => by rw [h, List.take_zero])
      · rename_i hlong
        refine .andThen (ihLeft i ?_ ?_ htake) fun left hl => hrest left hl
        · exact List.ne_nil_of_length_pos (by rw [List.length_take]; omega)
        · exact List.ne_nil_of_length_pos (by rw [List.length_take]; omega)

end

/-! ## From the merge to the sort -/

/-- What merges keep. -/
structure Kept (less : α → α → Bool) (Run : List α → Prop)
    (Same : List α → List α → Prop) : Prop where
  nil : Run []
  refl : ∀ xs, Same xs xs
  trans : ∀ {xs ys zs}, Same xs ys → Same ys zs → Same xs zs
  append : ∀ {xs xs' ys ys'}, Same xs xs' → Same ys ys' → Same (xs ++ ys) (xs' ++ ys')
  merge : ∀ {first second}, first ≠ [] → second ≠ [] → Run first → Run second →
    Yields (symMerge less first second) fun merged => Run merged ∧ Same (first ++ second) merged

section

variable {less : α → α → Bool} {Run : List α → Prop} {Same : List α → List α → Prop}

/-- Every run is a run, and the runs hold the elements of the list. -/
def RunsOf (Run : List α → Prop) (Same : List α → List α → Prop) (xs : List α)
    (runs : List (List α)) : Prop :=
  (∀ run ∈ runs, Run run) ∧ Same xs runs.flatten

theorem RunsOf.cons (kept : Kept less Run Same) {xs ys run : List α} {runs : List (List α)}
    (hrun : Run run ∧ Same xs run) (hruns : RunsOf Run Same ys runs) :
    RunsOf Run Same (xs ++ ys) (run :: runs) := by
  obtain ⟨hall, hsame⟩ := hruns
  refine ⟨fun r hr => ?_, ?_⟩
  · cases List.mem_cons.mp hr with
    | inl he => exact he ▸ hrun.1
    | inr hm => exact hall r hm
  · rw [List.flatten_cons]
    exact kept.append hrun.2 hsame

theorem mapM_runsOf (kept : Kept less Run Same) {f : List α → Sorting (List α)} :
    ∀ runs : List (List α),
      (∀ run ∈ runs, Yields (f run) fun sorted => Run sorted ∧ Same run sorted) →
      Yields (runs.mapM f) (RunsOf Run Same runs.flatten)
  | [], _ => .ret ⟨by simp, kept.refl _⟩
  | run :: runs, h => by
      rw [List.mapM_cons]
      refine .andThen (h run (List.mem_cons_self ..)) fun run' hrun => ?_
      refine .andThen (mapM_runsOf kept runs fun r hr => h r (List.mem_cons_of_mem _ hr)) ?_
      intro runs' hruns
      exact .ret (.cons kept hrun hruns)

theorem mergePass_runsOf (kept : Kept less Run Same) :
    ∀ runs : List (List α), (∀ run ∈ runs, run ≠ []) → (∀ run ∈ runs, Run run) →
      Yields (mergePass less runs) (RunsOf Run Same runs.flatten)
  | [], _, hrun => .ret ⟨hrun, kept.refl _⟩
  | [_], _, hrun => .ret ⟨hrun, kept.refl _⟩
  | first :: second :: rest, hne, hrun => by
      have hmem : second ∈ first :: second :: rest :=
        List.mem_cons_of_mem _ (List.mem_cons_self ..)
      have hrest : ∀ run ∈ rest, run ∈ first :: second :: rest := fun run hr =>
        List.mem_cons_of_mem _ (List.mem_cons_of_mem _ hr)
      refine .andThen (kept.merge (hne first (List.mem_cons_self ..)) (hne second hmem)
        (hrun first (List.mem_cons_self ..)) (hrun second hmem)) fun merged hm => ?_
      refine .andThen (mergePass_runsOf kept rest (fun run hr => hne run (hrest run hr))
        fun run hr => hrun run (hrest run hr)) fun rest' h' => .ret ?_
      rw [List.flatten_cons, List.flatten_cons, ← List.append_assoc]
      exact .cons kept hm h'

theorem mergeRuns_kept (kept : Kept less Run Same) :
    ∀ (passes : Nat) (runs : List (List α)), runs.length ≤ passes + 1 →
      (∀ run ∈ runs, run ≠ []) → (∀ run ∈ runs, Run run) →
      Yields (mergeRuns less passes runs) fun result => Run result ∧ Same runs.flatten result
  | _, [], _, _, _ => by
      rw [mergeRuns]
      exact .ret ⟨kept.nil, kept.refl _⟩
  | _, [run], _, _, hrun => by
      rw [mergeRuns, List.flatten_singleton]
      exact .ret ⟨hrun run (List.mem_cons_self ..), kept.refl _⟩
  | 0, _ :: _ :: _, hlength, _, _ => by
      simp only [List.length_cons] at hlength
      omega
  | passes + 1, first :: second :: rest, hlength, hne, hrun => by
      rw [mergeRuns]
      · refine .andThen ((mergePass_perm less _ hne).and (mergePass_runsOf kept _ hne hrun)) ?_
        rintro runs' ⟨⟨hlength', _, hne'⟩, hrun', hsame⟩
        simp only [List.length_cons] at hlength hlength'
        refine .mono (mergeRuns_kept kept passes runs' (by omega) hne' hrun') fun result hr => ?_
        exact ⟨hr.1, kept.trans hsame hr.2⟩
      · intro h
        cases h
      · intro run h
        cases h

/-- What holds of sorted runs and is kept by every merge holds of the sorted
list. -/
theorem sorting_kept (kept : Kept less Run Same) {xs : List α}
    (hinsert : ∀ run ∈ cutRuns xs,
      Yields (insertionSort less [] run) fun sorted => Run sorted ∧ Same run sorted) :
    Yields (sorting less xs) fun result => Run result ∧ Same xs result := by
  refine .andThen ((mapM_insertionSort_perm less (cutRuns xs)).and
    (mapM_runsOf kept (cutRuns xs) hinsert)) ?_
  rintro runs ⟨⟨_, _, hne⟩, hrun, hsame⟩
  rw [flatten_cutRuns] at hsame
  refine .mono (mergeRuns_kept kept runs.length runs (by omega) ?_ hrun) fun result hr => ?_
  · exact hne fun run hr => ne_nil_of_mem_cutRuns hr
  · exact ⟨hr.1, kept.trans hsame hr.2⟩

end

end MomentumChain.Sort
