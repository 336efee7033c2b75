import MomentumChain.Proofs.Sort.Passes

/-!
# Order of the sorted list

The sort is asked for with any relation.  What order the result has depends on
how much of an order the relation respects.  `Between` says that a relation lies
between a total preorder and its strict part: it holds wherever the preorder is
strict and nowhere against it.  On elements that are level in the preorder it
may do what it likes, cycles included.

`stableSort_sorts` says that the sorted list ascends in the preorder, and that a
class of elements none of which goes before another keeps its order (`Tied`).  It
is an induction over the runs and the merges of the sort.  The step is `IsCut.join`:
two runs that are cut as `IsCut` says can be put together half by half.
-/

namespace MomentumChain.Sort

variable {α : Type}

/-- On the elements of `dom`, `le` is a total preorder, and `less` lies between
it and its strict part. -/
structure Between (dom : α → Prop) (less : α → α → Bool) (le : α → α → Prop) : Prop where
  total : ∀ {x y}, dom x → dom y → le x y ∨ le y x
  trans : ∀ {x y z}, dom x → dom y → dom z → le x y → le y z → le x z
  less_of_not_le : ∀ {x y}, dom x → dom y → ¬ le y x → less x y = true
  le_of_less : ∀ {x y}, dom x → dom y → less x y = true → le x y

/-- None of the elements of `p` goes before another, and all that are level with
one of them belong to `p`. -/
structure Tied (dom : α → Prop) (less : α → α → Bool) (le : α → α → Prop)
    (p : α → Bool) : Prop where
  tied : ∀ {x y}, dom x → dom y → p x = true → p y = true → less x y = false
  level : ∀ {x y}, dom x → dom y → p x = true → le x y → le y x → p y = true

/-- The elements of `after` are those of `before`, and each class of ties keeps
its order. -/
def Keeps (dom : α → Prop) (less : α → α → Bool) (le : α → α → Prop)
    (before after : List α) : Prop :=
  after.Perm before ∧ ∀ p, Tied dom less le p → after.filter p = before.filter p

/-- An ascending list of elements of `dom`. -/
def Ascends (dom : α → Prop) (le : α → α → Prop) (xs : List α) : Prop :=
  (∀ x ∈ xs, dom x) ∧ xs.Pairwise le

section

variable {dom : α → Prop} {less : α → α → Bool} {le : α → α → Prop}

theorem Between.le_of_not_less (h : Between dom less le) {x y : α} (hx : dom x) (hy : dom y)
    (hless : less y x = false) : le x y :=
  Classical.byContradiction fun hle => by
    rw [h.less_of_not_le hy hx hle] at hless
    cases hless

theorem Between.refl (h : Between dom less le) {x : α} (hx : dom x) : le x x :=
  (h.total hx hx).elim id id

/-- Two elements of a class of ties are level. -/
theorem Tied.le_of_mem {p : α → Bool} (ht : Tied dom less le p) (h : Between dom less le) {x y : α}
    (hx : dom x) (hy : dom y) (hpx : p x = true) (hpy : p y = true) : le x y :=
  h.le_of_not_less hx hy (ht.tied hy hx hpy hpx)

/-- No two elements of a class of ties lie around a pair in which the later
goes before the earlier. -/
theorem Tied.not_around {p : α → Bool} (ht : Tied dom less le p) (h : Between dom less le)
    {b b' c' c : α} (hb : dom b) (hb' : dom b') (hc' : dom c') (hc : dom c)
    (hbb : le b b') (hcc : le c' c) (hless : less b' c' = true) (hpb : p b = true) :
    p c = false := by
  cases hpc : p c with
  | false => rfl
  | true =>
      -- all four are level, so the pair in the middle is of the class as well
      have hbc : le b' c' := h.le_of_less hb' hc' hless
      have hcb : le c b := ht.le_of_mem h hc hb hpc hpb
      have hb'b : le b' b := h.trans hb' hc hb (h.trans hb' hc' hc hbc hcc) hcb
      have hc'b : le c' b := h.trans hc' hc hb hcc hcb
      have hbc' : le b c' := h.trans hb hb' hc' hbb hbc
      have hpb' : p b' = true := ht.level hb hb' hpb hbb hb'b
      have hpc' : p c' = true := ht.level hb hc' hpb hbc' hc'b
      rw [ht.tied hb' hc' hpb' hpc'] at hless
      cases hless

theorem Keeps.refl (xs : List α) : Keeps dom less le xs xs := ⟨.refl _, fun _ _ => rfl⟩

theorem Keeps.trans {xs ys zs : List α} (h : Keeps dom less le xs ys)
    (h' : Keeps dom less le ys zs) : Keeps dom less le xs zs :=
  ⟨h'.1.trans h.1, fun p hp => (h'.2 p hp).trans (h.2 p hp)⟩

theorem Keeps.append {xs xs' ys ys' : List α} (h : Keeps dom less le xs xs')
    (h' : Keeps dom less le ys ys') : Keeps dom less le (xs ++ ys) (xs' ++ ys') := by
  refine ⟨h.1.append h'.1, fun p hp => ?_⟩
  rw [List.filter_append, List.filter_append, h.2 p hp, h'.2 p hp]

/-! ## Runs -/

theorem sink_descends (h : Between dom less le) {x : α} (hx : dom x) :
    ∀ sorted : List α, (∀ y ∈ sorted, dom y) → sorted.Pairwise (fun a b => le b a) →
      Yields (sink less x sorted) fun result =>
        result.Pairwise (fun a b => le b a) ∧ Keeps dom less le (x :: sorted) result
  | [], _, _ => .ret ⟨List.pairwise_singleton .., .refl _⟩
  | y :: ys, hdom, hsorted => by
      have hy := hdom y (List.mem_cons_self ..)
      have hys : ∀ z ∈ ys, dom z := fun z hz => hdom z (List.mem_cons_of_mem _ hz)
      obtain ⟨hhead, htail⟩ := List.pairwise_cons.mp hsorted
      refine .andThen (ask_yields less x y) fun answer hanswer => ?_
      subst hanswer
      cases hless : less x y with
      | true =>
          refine .andThen (sink_descends h hx ys hys htail) fun result hr => .ret ?_
          obtain ⟨hdesc, hperm, hkeeps⟩ := hr
          refine ⟨List.pairwise_cons.mpr ⟨fun z hz => ?_, hdesc⟩,
            (hperm.cons y).trans (.swap x y ys), fun p hp => ?_⟩
          · cases List.mem_cons.mp (hperm.mem_iff.mp hz) with
            | inl he => exact he ▸ h.le_of_less hx hy hless
            | inr hm => exact hhead z hm
          · -- the element sinks below no other of its class
            rw [List.filter_cons, hkeeps p hp, List.filter_cons, List.filter_cons,
              List.filter_cons]
            cases hpx : p x with
            | false => rfl
            | true =>
                cases hpy : p y with
                | false => rfl
                | true =>
                    rw [hp.tied hx hy hpx hpy] at hless
                    cases hless
      | false =>
          refine .ret ⟨List.pairwise_cons.mpr ⟨fun z hz => ?_, hsorted⟩, .refl _⟩
          have hyx : le y x := h.le_of_not_less hy hx hless
          cases List.mem_cons.mp hz with
          | inl he => exact he ▸ hyx
          | inr hm => exact h.trans (hys z hm) hy hx (hhead z hm) hyx

theorem insertionSort_sorts (h : Between dom less le) :
    ∀ rest sorted : List α, (∀ y ∈ sorted ++ rest, dom y) →
      sorted.Pairwise (fun a b => le b a) →
      Yields (insertionSort less sorted rest) fun result =>
        Ascends dom le result ∧ Keeps dom less le (sorted.reverse ++ rest) result
  | [], sorted, hdom, hsorted => by
      rw [List.append_nil] at hdom ⊢
      refine .ret ⟨⟨fun y hy => hdom y (List.mem_reverse.mp hy), ?_⟩, .refl _⟩
      exact List.pairwise_reverse.mpr hsorted
  | x :: xs, sorted, hdom, hsorted => by
      have hx : dom x := hdom x (by simp)
      refine .andThen (sink_descends h hx sorted (fun y hy => hdom y (by simp [hy])) hsorted) ?_
      rintro longer ⟨hdesc, hperm, hkeeps⟩
      -- the sorted part is held in reverse
      have hlonger : ∀ y ∈ longer ++ xs, dom y := by
        intro y hy
        refine hdom y ?_
        cases List.mem_append.mp hy with
        | inl hm =>
            cases List.mem_cons.mp (hperm.mem_iff.mp hm) with
            | inl he => simp [he]
            | inr hs => simp [hs]
        | inr hm => simp [hm]
      refine .mono (insertionSort_sorts h xs longer hlonger hdesc) fun result hr => ?_
      refine ⟨hr.1, .trans ⟨?_, fun p hp => ?_⟩ hr.2⟩
      · have hrev : longer.reverse.Perm (sorted.reverse ++ [x]) := by
          rw [← List.reverse_cons]
          exact (longer.reverse_perm.trans hperm).trans (List.reverse_perm _).symm
        simpa using hrev.append_right xs
      · rw [List.filter_append, List.filter_reverse, hkeeps p hp, ← List.filter_reverse,
          ← List.filter_append, List.reverse_cons, List.append_assoc]
        rfl

/-! ## Merging -/

theorem Ascends.take {xs : List α} (h : Ascends dom le xs) (i : Nat) :
    Ascends dom le (xs.take i) :=
  ⟨fun x hx => h.1 x (List.mem_of_mem_take hx), h.2.sublist (List.take_sublist ..)⟩

theorem Ascends.drop {xs : List α} (h : Ascends dom le xs) (i : Nat) :
    Ascends dom le (xs.drop i) :=
  ⟨fun x hx => h.1 x (List.mem_of_mem_drop hx), h.2.sublist (List.drop_sublist ..)⟩

theorem Ascends.exists_getLast? (h : Between dom less le) {xs : List α}
    (hxs : Ascends dom le xs) {x : α} (hx : x ∈ xs) :
    ∃ last ∈ xs.getLast?, dom last ∧ le x last := by
  obtain ⟨hdom, hpair⟩ := hxs
  have hne : xs ≠ [] := List.ne_nil_of_mem hx
  have hlast : dom (xs.getLast hne) := hdom _ (List.getLast_mem hne)
  refine ⟨xs.getLast hne, List.getLast?_eq_some_getLast hne, hlast, ?_⟩
  rw [← List.dropLast_concat_getLast hne] at hx hpair
  cases List.mem_append.mp hx with
  | inl hm => exact (List.pairwise_append.mp hpair).2.2 x hm _ (List.mem_singleton_self _)
  | inr he => exact (List.mem_singleton.mp he).symm ▸ h.refl hlast

theorem Ascends.exists_head? (h : Between dom less le) {xs : List α}
    (hxs : Ascends dom le xs) {x : α} (hx : x ∈ xs) :
    ∃ head ∈ xs.head?, dom head ∧ le head x := by
  obtain ⟨hdom, hpair⟩ := hxs
  cases xs with
  | nil => cases hx
  | cons head tail =>
      have hhead : dom head := hdom head (List.mem_cons_self ..)
      refine ⟨head, rfl, hhead, ?_⟩
      cases List.mem_cons.mp hx with
      | inl he =>
          subst he
          exact h.refl hhead
      | inr hm => exact (List.pairwise_cons.mp hpair).1 x hm

namespace IsCut

variable {first second : List α} {i j : Nat}

/-- What stays behind in the second run is above all that is taken from the
first. -/
theorem le_of_stays (hcut : IsCut less first second i j) (h : Between dom less le)
    (hfirst : Ascends dom le first) (hsecond : Ascends dom le second) {a d : α}
    (ha : a ∈ first.take i) (hd : d ∈ second.drop j) : le a d := by
  obtain ⟨a', ha', hdoma', haa'⟩ := (hfirst.take i).exists_getLast? h ha
  obtain ⟨d', hd', hdomd', hd'd⟩ := (hsecond.drop j).exists_head? h hd
  have hdoma := (hfirst.take i).1 a ha
  have hdomd := (hsecond.drop j).1 d hd
  have hle : le a' d' := h.le_of_not_less hdoma' hdomd' (hcut.stays a' ha' d' hd')
  exact h.trans hdoma hdomd' hdomd (h.trans hdoma hdoma' hdomd' haa' hle) hd'd

/-- What is taken from the second run is below all that stays behind in the
first, and no class of ties has elements of both. -/
theorem le_of_passes (hcut : IsCut less first second i j) (h : Between dom less le)
    (hfirst : Ascends dom le first) (hsecond : Ascends dom le second) {b c : α}
    (hb : b ∈ second.take j) (hc : c ∈ first.drop i) :
    le b c ∧ ∀ p, Tied dom less le p → p b = true → p c = false := by
  obtain ⟨b', hb', hdomb', hbb'⟩ := (hsecond.take j).exists_getLast? h hb
  obtain ⟨c', hc', hdomc', hc'c⟩ := (hfirst.drop i).exists_head? h hc
  have hdomb := (hsecond.take j).1 b hb
  have hdomc := (hfirst.drop i).1 c hc
  have hless := hcut.passes b' hb' c' hc'
  have hle : le b' c' := h.le_of_less hdomb' hdomc' hless
  refine ⟨h.trans hdomb hdomc' hdomc (h.trans hdomb hdomb' hdomc' hbb' hle) hc'c, ?_⟩
  intro p hp hpb
  exact hp.not_around h hdomb hdomb' hdomc' hdomc hbb' hc'c hless hpb

theorem filter_passes (hcut : IsCut less first second i j) (h : Between dom less le)
    (hfirst : Ascends dom le first) (hsecond : Ascends dom le second) {p : α → Bool}
    (hp : Tied dom less le p) :
    (second.take j).filter p = [] ∨ (first.drop i).filter p = [] := by
  cases hb : (second.take j).filter p with
  | nil => exact .inl rfl
  | cons b _ =>
      have hmem : b ∈ (second.take j).filter p := hb ▸ List.mem_cons_self ..
      obtain ⟨hmem, hpb⟩ := List.mem_filter.mp hmem
      refine .inr (List.filter_eq_nil_iff.mpr fun c hc => ?_)
      rw [(hcut.le_of_passes h hfirst hsecond hmem hc).2 p hp hpb]
      exact Bool.false_ne_true

/-- Two runs can be put in order half by half. -/
theorem join (hcut : IsCut less first second i j) (h : Between dom less le)
    (hfirst : Ascends dom le first) (hsecond : Ascends dom le second) {left right : List α}
    (hleft : Ascends dom le left ∧ Keeps dom less le (first.take i ++ second.take j) left)
    (hright : Ascends dom le right ∧ Keeps dom less le (first.drop i ++ second.drop j) right) :
    Ascends dom le (left ++ right) ∧ Keeps dom less le (first ++ second) (left ++ right) := by
  obtain ⟨hasc, hperm, hkeeps⟩ := hleft
  obtain ⟨hasc', hperm', hkeeps'⟩ := hright
  refine ⟨⟨fun x hx => ?_, List.pairwise_append.mpr ⟨hasc.2, hasc'.2, fun x hx y hy => ?_⟩⟩,
    (hperm.append hperm').trans (perm_halves first second i j), fun p hp => ?_⟩
  · exact (List.mem_append.mp hx).elim (hasc.1 x) (hasc'.1 x)
  -- what is taken from either run meets what stays behind in either run
  · cases List.mem_append.mp (hperm.mem_iff.mp hx) with
    | inl ha =>
        cases List.mem_append.mp (hperm'.mem_iff.mp hy) with
        | inl hc => exact hfirst.2.rel_of_mem_take_of_mem_drop ha hc
        | inr hd => exact hcut.le_of_stays h hfirst hsecond ha hd
    | inr hb =>
        cases List.mem_append.mp (hperm'.mem_iff.mp hy) with
        | inl hc => exact (hcut.le_of_passes h hfirst hsecond hb hc).1
        | inr hd => exact hsecond.2.rel_of_mem_take_of_mem_drop hb hd
  -- a class of ties has no elements that change sides
  · have hsplit : (first ++ second).filter p =
        (first.take i).filter p ++ (first.drop i).filter p ++
          ((second.take j).filter p ++ (second.drop j).filter p) := by
      rw [← List.filter_append, ← List.filter_append, ← List.filter_append,
        List.take_append_drop, List.take_append_drop]
    rw [List.filter_append, hkeeps p hp, hkeeps' p hp, hsplit, List.filter_append,
      List.filter_append]
    cases hcut.filter_passes h hfirst hsecond hp with
    | inl hb => simp [hb]
    | inr hc => simp [hc]

end IsCut

theorem joins_sorts (h : Between dom less le) :
    Joins less (fun first second => Ascends dom le first ∧ Ascends dom le second)
      (fun first second merged =>
        Ascends dom le merged ∧ Keeps dom less le (first ++ second) merged) where
  left hpre := ⟨hpre.2, .refl _⟩
  right hpre := ⟨hpre.1, by rw [List.append_nil]; exact .refl _⟩
  take i j hpre := ⟨hpre.1.take i, hpre.2.take j⟩
  drop i j hpre := ⟨hpre.1.drop i, hpre.2.drop j⟩
  join hcut hpre hleft hright := hcut.join h hpre.1 hpre.2 hleft hright

/-! ## The sort -/

theorem kept_sorts (h : Between dom less le) :
    Kept less (Ascends dom le) (Keeps dom less le) where
  nil := ⟨by simp, .nil⟩
  refl := Keeps.refl
  trans := Keeps.trans
  append := Keeps.append
  merge hne hne' hfirst hsecond := symMerge_joins (joins_sorts h) hne hne' ⟨hfirst, hsecond⟩

/-- The sorted list ascends and keeps each class of ties. -/
theorem stableSort_sorts (h : Between dom less le) {xs : List α} (hdom : ∀ x ∈ xs, dom x) :
    Ascends dom le (stableSort less xs) ∧ Keeps dom less le xs (stableSort less xs) := by
  refine stableSort_of_yields (sorting_kept (kept_sorts h) fun run hrun => ?_)
  have hrun : ∀ x ∈ run, dom x := fun x hx => by
    refine hdom x ?_
    rw [← flatten_cutRuns xs]
    exact List.mem_flatten.mpr ⟨run, hrun, hx⟩
  exact insertionSort_sorts h run [] hrun .nil

end

end MomentumChain.Sort
