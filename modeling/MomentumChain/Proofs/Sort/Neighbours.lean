import Mathlib.Data.List.Chain
import MomentumChain.Proofs.Sort.Passes

/-!
# Neighbours in the sorted list

A relation with cycles sorts nothing: whatever the list, some element goes before another that
stands in front of it.  What is left of the order is that this other element is never its
neighbour (`LocallySorted`).  It takes a relation that is asymmetric, and no more than that
(`stableSort_locallySorted`).

A merge of two locally sorted runs begins and ends like one of them (`Zips`).  So where the two
halves of a merge meet, the neighbours are two of the four elements at the cut.  Elements of one
run are neighbours in that run.  For elements of different runs the search compared just these
two, last before it ended (`IsCut`).  What it compared before that does not matter, so it does
not matter either that the answers need not be monotone.
-/

namespace MomentumChain.Sort

variable {α : Type}

/-- Of two elements at most one goes before the other. -/
def Asymmetric (less : α → α → Bool) : Prop := ∀ x y, less x y = true → less y x = false

/-- No element goes before its neighbour in front. -/
def LocallySorted (less : α → α → Bool) (xs : List α) : Prop :=
  xs.IsChain fun x y => less y x = false

/-- The merged list is locally sorted, loses nothing, and begins and ends like one of the runs. -/
structure Zips (less : α → α → Bool) (first second merged : List α) : Prop where
  length : merged.length = first.length + second.length
  sorted : LocallySorted less merged
  head : ∀ x ∈ merged.head?, x ∈ first.head? ∨ x ∈ second.head?
  last : ∀ x ∈ merged.getLast?, x ∈ first.getLast? ∨ x ∈ second.getLast?

/-! ## Ends of a list and of its parts -/

theorem mem_head?_take {xs : List α} {i : Nat} {x : α} (h : x ∈ (xs.take i).head?) :
    x ∈ xs.head? := by
  rw [List.head?_take] at h
  split at h
  · cases h
  · exact h

theorem mem_getLast?_drop {xs : List α} {i : Nat} {x : α} (h : x ∈ (xs.drop i).getLast?) :
    x ∈ xs.getLast? := by
  rw [List.getLast?_drop] at h
  split at h
  · cases h
  · exact h

/-- The head of two lists is the head of the first one that has an element. -/
theorem mem_head?_append {xs ys : List α} {x : α} (h : x ∈ (xs ++ ys).head?) :
    x ∈ xs.head? ∨ xs = [] ∧ x ∈ ys.head? := by
  cases xs with
  | nil => exact .inr ⟨rfl, h⟩
  | cons _ _ => exact .inl h

theorem mem_getLast?_append {xs ys : List α} {x : α} (h : x ∈ (xs ++ ys).getLast?) :
    x ∈ ys.getLast? ∨ ys = [] ∧ x ∈ xs.getLast? := by
  cases ys with
  | nil =>
      rw [List.append_nil] at h
      exact .inr ⟨rfl, h⟩
  | cons y ys =>
      rw [List.getLast?_append_of_ne_nil _ (List.cons_ne_nil y ys)] at h
      exact .inl h

/-- Neighbours at a place where a list can be cut. -/
theorem LocallySorted.at_cut {less : α → α → Bool} {xs : List α} (h : LocallySorted less xs)
    (i : Nat) {x y : α} (hx : x ∈ (xs.take i).getLast?) (hy : y ∈ (xs.drop i).head?) :
    less y x = false := by
  rw [LocallySorted, ← List.take_append_drop i xs, List.isChain_append] at h
  exact h.2.2 x hx y hy

/-! ## Merging -/

namespace Zips

variable {less : α → α → Bool} {first second left right : List α} {i j : Nat}

/-- Nothing is merged to nothing only. -/
theorem eq_nil (h : Zips less first second []) : first = [] ∧ second = [] := by
  have hlength := h.length
  rw [List.length_nil] at hlength
  exact ⟨List.length_eq_zero_iff.mp (by omega), List.length_eq_zero_iff.mp (by omega)⟩

/-- Two runs that are cut can be merged half by half. -/
theorem join (hasymm : Asymmetric less) (hcut : IsCut less first second i j)
    (hfirst : LocallySorted less first) (hsecond : LocallySorted less second)
    (hleft : Zips less (first.take i) (second.take j) left)
    (hright : Zips less (first.drop i) (second.drop j) right) :
    Zips less first second (left ++ right) where
  length := by
    rw [List.length_append, hleft.length, hright.length]
    simp only [List.length_take, List.length_drop]
    omega
  sorted := by
    refine List.isChain_append.mpr ⟨hleft.sorted, hright.sorted, fun x hx y hy => ?_⟩
    rcases hleft.last x hx with hx | hx
    · rcases hright.head y hy with hy | hy
      · exact hfirst.at_cut i hx hy
      · exact hcut.stays x hx y hy
    · rcases hright.head y hy with hy | hy
      · exact hasymm x y (hcut.passes x hx y hy)
      · exact hsecond.at_cut j hx hy
  head x hx := by
    rcases mem_head?_append hx with hleft' | ⟨hnil, hright'⟩
    · exact (hleft.head x hleft').imp mem_head?_take mem_head?_take
    · subst hnil
      -- nothing is taken from either run, so the second half has both
      obtain ⟨hfirst, hsecond⟩ := hleft.eq_nil
      rw [← List.take_append_drop i first, ← List.take_append_drop j second, hfirst, hsecond]
      exact hright.head x hright'
  last x hx := by
    rcases mem_getLast?_append hx with hright' | ⟨hnil, hleft'⟩
    · exact (hright.last x hright').imp mem_getLast?_drop mem_getLast?_drop
    · subst hnil
      obtain ⟨hfirst, hsecond⟩ := hright.eq_nil
      rw [← List.take_append_drop i first, ← List.take_append_drop j second, hfirst, hsecond,
        List.append_nil, List.append_nil]
      exact hleft.last x hleft'

end Zips

theorem joins_locallySorted {less : α → α → Bool} (hasymm : Asymmetric less) :
    Joins less (fun first second => LocallySorted less first ∧ LocallySorted less second)
      (Zips less) where
  left {ys} hpre := ⟨by simp, hpre.2, fun _ => .inr, fun _ => .inr⟩
  right {xs} hpre := ⟨by simp, hpre.1, fun _ => .inl, fun _ => .inl⟩
  take i j hpre := ⟨hpre.1.take i, hpre.2.take j⟩
  drop i j hpre := ⟨hpre.1.drop i, hpre.2.drop j⟩
  join hcut hpre hleft hright := .join hasymm hcut hpre.1 hpre.2 hleft hright

/-! ## Runs -/

section

variable {less : α → α → Bool} (hasymm : Asymmetric less)
include hasymm

/-- An element sinks to a place between neighbours that it can have.  The sorted part is given
in reverse. -/
theorem sink_locallySorted (x : α) :
    ∀ sorted : List α, (sorted.IsChain fun a b => less a b = false) →
      Yields (sink less x sorted) fun result => (result.IsChain fun a b => less a b = false) ∧
        ∀ z ∈ result.head?, z = x ∨ z ∈ sorted.head?
  | [], _ => .ret ⟨.singleton x, fun z hz => .inl (Option.mem_some.mp hz).symm⟩
  | y :: ys, hsorted => by
      obtain ⟨hhead, htail⟩ := List.isChain_cons.mp hsorted
      refine .andThen (ask_yields less x y) fun answer hanswer => ?_
      subst hanswer
      cases hless : less x y with
      | true =>
          refine .andThen (sink_locallySorted x ys htail) fun result hr => .ret ?_
          obtain ⟨hresult, hfirst⟩ := hr
          refine ⟨List.isChain_cons.mpr ⟨fun z hz => ?_, hresult⟩, fun z hz => .inr hz⟩
          rcases hfirst z hz with rfl | hz
          · exact hasymm z y hless
          · exact hhead z hz
      | false =>
          refine .ret ⟨List.isChain_cons.mpr ⟨fun z hz => ?_, hsorted⟩, fun z hz => ?_⟩
          · rw [← Option.mem_some.mp hz]
            exact hless
          · exact .inl (Option.mem_some.mp hz).symm

theorem insertionSort_locallySorted :
    ∀ rest sorted : List α, (sorted.IsChain fun a b => less a b = false) →
      Yields (insertionSort less sorted rest) (LocallySorted less)
  | [], _, hsorted => .ret (List.isChain_reverse.mpr hsorted)
  | x :: xs, sorted, hsorted =>
      .andThen (sink_locallySorted hasymm x sorted hsorted) fun longer hlonger =>
        insertionSort_locallySorted xs longer hlonger.1

/-! ## The sort -/

theorem kept_locallySorted : Kept less (LocallySorted less) fun _ _ => True where
  nil := .nil
  refl _ := trivial
  trans _ _ := trivial
  append _ _ := trivial
  merge hne hne' hfirst hsecond :=
    .mono (symMerge_joins (joins_locallySorted hasymm) hne hne' ⟨hfirst, hsecond⟩)
      fun _ hm => ⟨hm.sorted, trivial⟩

/-- The sorted list is locally sorted. -/
theorem stableSort_locallySorted (xs : List α) : LocallySorted less (stableSort less xs) := by
  have hruns : ∀ run ∈ cutRuns xs,
      Yields (insertionSort less [] run) fun sorted => LocallySorted less sorted ∧ True :=
    fun run _ => .mono (insertionSort_locallySorted hasymm run [] .nil) fun _ hs => ⟨hs, trivial⟩
  exact (stableSort_of_yields (sorting_kept (kept_locallySorted hasymm) hruns)).1

end

end MomentumChain.Sort
