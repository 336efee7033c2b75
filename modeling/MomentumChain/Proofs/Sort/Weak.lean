import MomentumChain.Proofs.Sort.Order

/-!
# Sorting by a strict weak order

By a strict weak order the elements of a list fall into levels, and no element goes before
another of its level (`StrictWeak`, `level`).  Such a relation lies between a total preorder
and its strict part.  So the sorted list ascends, and every level keeps its order.

No other list does both.  An ascending list is determined by its levels, since its head is
the first element of the lowest of them (`StrictWeak.eq_of_levels`).  So the sorted list does
not depend on how the levels of a list are mixed (`StrictWeak.stableSort_congr`), and it is
the one that merge sort makes (`stableSort_unique`).
-/

namespace MomentumChain.Sort

variable {α : Type}

/-- Neither element goes before the other. -/
def level (less : α → α → Bool) (x y : α) : Bool := !less x y && !less y x

theorem level_iff {less : α → α → Bool} {x y : α} :
    level less x y = true ↔ less x y = false ∧ less y x = false := by simp [level]

/-- On the elements of `dom`, `less` is a strict weak order. -/
structure StrictWeak (dom : α → Prop) (less : α → α → Bool) : Prop where
  irrefl : ∀ {x}, dom x → less x x = false
  trans : ∀ {x y z}, dom x → dom y → dom z → less x y = true → less y z = true → less x z = true
  level_trans : ∀ {x y z}, dom x → dom y → dom z → level less x y = true →
    level less y z = true → level less x z = true

namespace StrictWeak

variable {dom : α → Prop} {less : α → α → Bool} (h : StrictWeak dom less) {x y z : α}
include h

theorem asymm (hx : dom x) (hy : dom y) (hless : less x y = true) : less y x = false := by
  cases hback : less y x with
  | false => rfl
  | true =>
      have hself := h.trans hx hy hx hless hback
      rw [h.irrefl hx] at hself
      cases hself

/-- What does not go before another does not go before what is above that either. -/
theorem not_less_trans (hx : dom x) (hy : dom y) (hz : dom z) (hyx : less y x = false)
    (hzy : less z y = false) : less z x = false := by
  cases hzx : less z x with
  | false => rfl
  | true =>
      -- else all three are level
      have hyz : less y z = false := by
        cases hyz : less y z with
        | false => rfl
        | true =>
            rw [h.trans hy hz hx hyz hzx] at hyx
            cases hyx
      have hxy : less x y = false := by
        cases hxy : less x y with
        | false => rfl
        | true =>
            rw [h.trans hz hx hy hzx hxy] at hzy
            cases hzy
      have hlevel := h.level_trans hx hy hz (level_iff.mpr ⟨hxy, hyx⟩)
        (level_iff.mpr ⟨hyz, hzy⟩)
      rw [(level_iff.mp hlevel).2] at hzx
      cases hzx

theorem between : Between dom less fun x y => less y x = false where
  total {x y} hx hy := by
    cases hless : less y x with
    | false => exact .inl rfl
    | true => exact .inr (h.asymm hy hx hless)
  trans := h.not_less_trans
  less_of_not_le _ _ hnot := by simpa using hnot
  le_of_less := h.asymm

/-- A level is a class of ties. -/
theorem tied_level (hx : dom x) :
    Tied dom less (fun x y => less y x = false) (level less x) where
  tied {y z} hy hz hxy hxz := by
    obtain ⟨_, hyx⟩ := level_iff.mp hxy
    obtain ⟨hxz, _⟩ := level_iff.mp hxz
    exact h.not_less_trans hz hx hy hxz hyx
  level hy hz hxy hzy hyz := h.level_trans hx hy hz hxy (level_iff.mpr ⟨hyz, hzy⟩)

/-- The head of an ascending list is above no element of it. -/
theorem not_less_head {xs : List α} (hxs : Ascends dom (fun x y => less y x = false) (x :: xs))
    (hy : y ∈ x :: xs) : less y x = false := by
  obtain ⟨hdom, hpair⟩ := hxs
  cases List.mem_cons.mp hy with
  | inl heq =>
      rw [heq]
      exact h.irrefl (hdom x (List.mem_cons_self ..))
  | inr hmem => exact (List.pairwise_cons.mp hpair).1 y hmem

/-- Lists with the same levels have the same elements. -/
theorem mem_of_levels {xs ys : List α} (hx : dom x) (hmem : x ∈ xs)
    (hlevels : xs.filter (level less x) = ys.filter (level less x)) : x ∈ ys := by
  have hself : level less x x = true := level_iff.mpr ⟨h.irrefl hx, h.irrefl hx⟩
  have hfilter : x ∈ ys.filter (level less x) := hlevels ▸ List.mem_filter.mpr ⟨hmem, hself⟩
  exact (List.mem_filter.mp hfilter).1

/-- Ascending lists with the same levels are equal. -/
theorem eq_of_levels : ∀ {xs ys : List α}, Ascends dom (fun x y => less y x = false) xs →
    Ascends dom (fun x y => less y x = false) ys →
    (∀ x, dom x → xs.filter (level less x) = ys.filter (level less x)) → xs = ys
  | [], [], _, _, _ => rfl
  | [], y :: ys, _, hys, hlevels => by
      have hy := hys.1 y (List.mem_cons_self ..)
      cases h.mem_of_levels hy (List.mem_cons_self ..) (hlevels y hy).symm
  | x :: xs, [], hxs, _, hlevels => by
      have hx := hxs.1 x (List.mem_cons_self ..)
      cases h.mem_of_levels hx (List.mem_cons_self ..) (hlevels x hx)
  | x :: xs, y :: ys, hxs, hys, hlevels => by
      have hx := hxs.1 x (List.mem_cons_self ..)
      have hy := hys.1 y (List.mem_cons_self ..)
      -- each head is an element of the other list, so they are level
      have hyx := h.not_less_head hxs
        (h.mem_of_levels hy (List.mem_cons_self ..) (hlevels y hy).symm)
      have hxy := h.not_less_head hys (h.mem_of_levels hx (List.mem_cons_self ..) (hlevels x hx))
      have hheads := hlevels x hx
      rw [List.filter_cons_of_pos (level_iff.mpr ⟨h.irrefl hx, h.irrefl hx⟩),
        List.filter_cons_of_pos (level_iff.mpr ⟨hxy, hyx⟩)] at hheads
      obtain ⟨rfl, _⟩ := List.cons.inj hheads
      refine congrArg (x :: ·) (eq_of_levels (hxs.drop 1) (hys.drop 1) fun z hz => ?_)
      have htails := hlevels z hz
      rw [List.filter_cons, List.filter_cons] at htails
      cases hzx : level less z x with
      | false =>
          rw [hzx] at htails
          exact htails
      | true =>
          rw [hzx] at htails
          exact (List.cons.inj htails).2

/-- The sorted list is the one list that ascends and has the levels of the given one. -/
theorem eq_stableSort {xs ys : List α} (hxs : ∀ x ∈ xs, dom x)
    (hys : Ascends dom (fun x y => less y x = false) ys)
    (hlevels : ∀ x, dom x → ys.filter (level less x) = xs.filter (level less x)) :
    ys = stableSort less xs := by
  obtain ⟨hsorted, _, hkeeps⟩ := stableSort_sorts h.between hxs
  refine h.eq_of_levels hys hsorted fun x hx => ?_
  rw [hkeeps _ (h.tied_level hx), hlevels x hx]

/-- Lists with the same levels are sorted to the same list. -/
theorem stableSort_congr {xs ys : List α} (hxs : ∀ x ∈ xs, dom x) (hys : ∀ y ∈ ys, dom y)
    (hlevels : ∀ x, dom x → ys.filter (level less x) = xs.filter (level less x)) :
    stableSort less ys = stableSort less xs := by
  obtain ⟨hsorted, _, hkeeps⟩ := stableSort_sorts h.between hys
  refine h.eq_stableSort hxs hsorted fun x hx => ?_
  rw [hkeeps _ (h.tied_level hx), hlevels x hx]

end StrictWeak

/-! ## Merge sort -/

namespace StrictWeak

variable {less : α → α → Bool} (h : StrictWeak (fun _ => True) less)
include h

/-- To stay in front of what does not go before it is a total preorder. -/
theorem stays_trans (x y z : α) (hxy : (!less y x) = true) (hyz : (!less z y) = true) :
    (!less z x) = true := by
  simp only [Bool.not_eq_true'] at hxy hyz ⊢
  exact h.not_less_trans trivial trivial trivial hxy hyz

theorem stays_total (x y : α) : (!less y x || !less x y) = true := by
  cases hless : less y x with
  | false => rfl
  | true => simp [h.asymm trivial trivial hless]

theorem mergeSort_ascends (xs : List α) :
    Ascends (fun _ => True) (fun x y => less y x = false) (xs.mergeSort fun x y => !less y x) := by
  refine ⟨fun _ _ => trivial, ?_⟩
  exact (List.pairwise_mergeSort h.stays_trans h.stays_total xs).imp fun hle => by simpa using hle

theorem filter_mergeSort (xs : List α) (x : α) :
    (xs.mergeSort fun x y => !less y x).filter (level less x) = xs.filter (level less x) := by
  -- a level is in order already, so all of it is a part of the sorted list
  have hties : (xs.filter (level less x)).Pairwise fun y z => (!less z y) = true := by
    refine List.pairwise_of_forall_mem_list fun y hy z hz => ?_
    have hy : level less x y = true := (List.mem_filter.mp hy).2
    have hz : level less x z = true := (List.mem_filter.mp hz).2
    rw [(h.tied_level trivial).tied trivial trivial hz hy]
    rfl
  have hsub := (List.sublist_mergeSort h.stays_trans h.stays_total hties
    List.filter_sublist).filter (level less x)
  rw [List.filter_filter] at hsub
  simp only [Bool.and_self] at hsub
  have hlength := ((List.mergeSort_perm xs fun x y => !less y x).filter (level less x)).length_eq
  exact (hsub.eq_of_length hlength.symm).symm

end StrictWeak

/-- Of all rearrangements of a list the sorted list is the only one that ascends and in which
the elements of each level keep their order.  So it is what merge sort makes of the list. -/
theorem stableSort_unique {less : α → α → Bool} (h : StrictWeak (fun _ => True) less)
    (xs : List α) :
    (∀ ys, ys = stableSort less xs ↔
      ys.Perm xs ∧ ys.Pairwise (fun x y => less y x = false) ∧
        ∀ x, ys.filter (level less x) = xs.filter (level less x)) ∧
    stableSort less xs = xs.mergeSort fun x y => !less y x := by
  have hdom : ∀ x ∈ xs, True := fun _ _ => trivial
  obtain ⟨⟨_, hsorted⟩, hperm, hkeeps⟩ := stableSort_sorts h.between hdom
  refine ⟨fun ys => ⟨?_, ?_⟩, ?_⟩
  · rintro rfl
    exact ⟨hperm, hsorted, fun x => hkeeps _ (h.tied_level trivial)⟩
  · rintro ⟨_, hascends, hlevels⟩
    exact h.eq_stableSort hdom ⟨fun _ _ => trivial, hascends⟩ fun x _ => hlevels x
  · exact (h.eq_stableSort hdom (h.mergeSort_ascends xs) fun x _ => h.filter_mergeSort xs x).symm

/-- Six elements on three levels. -/
def byHalf (x y : Fin 6) : Bool := x.val / 2 < y.val / 2

theorem strictWeak_byHalf : StrictWeak (fun _ => True) byHalf where
  irrefl {x} _ := by revert x; decide
  trans {x y z} _ _ _ := by revert x y z; decide
  level_trans {x y z} _ _ _ := by revert x y z; decide

/-- There are more elements than fit in a run, and each level keeps its order. -/
theorem stableSort_unique_byHalf :
    StrictWeak (fun _ => True) byHalf ∧
      stableSort byHalf
          [5, 3, 0, 4, 1, 2, 2, 5, 1, 3, 0, 4, 4, 1, 0, 2, 3, 5, 0, 1, 3, 2, 5, 4] =
        [0, 1, 1, 0, 1, 0, 0, 1, 3, 2, 2, 3, 2, 3, 3, 2, 5, 4, 5, 4, 4, 5, 5, 4] := by
  refine ⟨strictWeak_byHalf, (((stableSort_unique strictWeak_byHalf _).1 _).mpr ⟨?_, ?_, ?_⟩).symm⟩
  · decide
  · decide
  · decide

end MomentumChain.Sort
