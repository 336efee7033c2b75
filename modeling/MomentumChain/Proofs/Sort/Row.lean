import MomentumChain.Sort.InPlace

/-!
# Parts of a row

The sort in place works on one row of elements by position, and the sort of `Sort.Stable` on
lists.  `Replaces` relates the two.  It says that a computation on the row, with a part of the
row between given surroundings, leaves the surroundings alone and does to the part what a
computation on lists makes of it, with the same comparisons.

The rules for `Replaces` follow the shape of a program: one step after another, neighbouring
parts, and a question about the row before a step.  Below them each step of the sort has its own
lemma, up to the sorting of a run by insertion.
-/

namespace MomentumChain.Sort

variable {α β : Type}

/-! ## Checks that pass -/

theorem minus_of_le {a b : Nat} (h : b ≤ a) : minus a b = pure (a - b) := if_pos h

theorem atMost_of_le {position bound : Nat} (h : position ≤ bound) :
    atMost position bound = pure () := if_pos h

theorem putAt_of_le {run : List α} {position : Nat} (h : position ≤ run.length) (x : α) :
    putAt run position x = pure (run.take position ++ x :: run.drop position) := by
  rw [putAt, atMost_of_le h, pure_bind]

theorem elementAt_of_lt {xs : List α} {i : Nat} (h : i < xs.length) :
    elementAt xs i = pure xs[i] := by
  rw [elementAt, List.getElem?_eq_getElem h]

/-! ## Computations on a part of the row -/

/-- After a computation only its possible results matter. -/
theorem Yields.bind_congr {m : Sorting α} {Q : α → Prop} {f g : α → Sorting β} (hm : Yields m Q)
    (h : ∀ a, Q a → f a = g a) : m >>= f = m >>= g := by
  funext calls
  obtain ⟨a, calls', hrun, hQ⟩ := hm calls
  have hbind : ∀ k : α → Sorting β, (m >>= k).run calls = (k a).run calls' := by
    intro k
    rw [StateT.run_bind, hrun]
    rfl
  calc (m >>= f).run calls
      = (f a).run calls' := hbind f
    _ = (g a).run calls' := by rw [h a hQ]
    _ = (m >>= g).run calls := (hbind g).symm

theorem run_liftM (m : Sorting β) (row : List α) :
    (liftM m : InPlace α β).run row = (fun b => (b, row)) <$> m := rfl

/-- With these surroundings the computation does to a part of the row what `m` makes of it. -/
def Replaces (c : InPlace α Unit) (before part after : List α) (m : Sorting (List α)) : Prop :=
  c.run (before ++ part ++ after) = (fun part' => ((), before ++ part' ++ after)) <$> m

namespace Replaces

variable {c c' : InPlace α Unit} {before part rest after : List α} {m m' : Sorting (List α)}

theorem nothing : Replaces (pure ()) before part after (pure part) := by
  rw [Replaces, map_pure]
  rfl

/-- Two computations on neighbouring parts.  The second may rely on what the first yields. -/
theorem seq {Q : List α → Prop} (h : Replaces c before part (rest ++ after) m) (hm : Yields m Q)
    (h' : ∀ part', Q part' → Replaces c' (before ++ part') rest after m') :
    Replaces (do c; c') before (part ++ rest) after (do
      let left ← m
      let right ← m'
      pure (left ++ right)) := by
  rw [Replaces, StateT.run_bind, ← List.append_assoc, List.append_assoc (before ++ part), h,
    bind_map_left, map_bind]
  refine hm.bind_congr fun left hleft => ?_
  have hrow : before ++ left ++ (rest ++ after) = before ++ left ++ rest ++ after := by
    simp only [List.append_assoc]
  rw [hrow, h' left hleft, bind_pure_comp, Functor.map_map]
  simp only [List.append_assoc]

/-- Asking about the row first. -/
theorem consult {ι κ : Type} {query : List α → Sorting κ} {f : ι → κ} {m : Sorting ι} {Q : ι → Prop}
    {c : κ → InPlace α Unit} {k : ι → Sorting (List α)}
    (hquery : query (before ++ part ++ after) = f <$> m) (hm : Yields m Q)
    (h : ∀ a, Q a → Replaces (c (f a)) before part after (k a)) :
    Replaces (do c (← query (← get))) before part after (m >>= k) := by
  rw [Replaces, StateT.run_bind, StateT.run_get, pure_bind, StateT.run_bind, run_liftM, hquery,
    bind_map_left, bind_map_left, map_bind]
  exact hm.bind_congr h

/-- A computation that settles a part, and another one after it. -/
theorem andThen {part' : List α} (h : Replaces c before part after (pure part'))
    (h' : Replaces c' before part' after m) : Replaces (do c; c') before part after m := by
  rw [Replaces, StateT.run_bind, h, map_pure, pure_bind]
  exact h'

/-- What surrounds a part of the row may be counted as part of it. -/
theorem widen (left right : List α) {part' : List α}
    (h : Replaces c (before ++ left) part (right ++ after) (pure part')) :
    Replaces c before (left ++ (part ++ right)) after (pure (left ++ (part' ++ right))) := by
  rw [Replaces, map_pure] at h ⊢
  simp only [List.append_assoc] at h ⊢
  exact h

/-- Two computations on the same part. -/
theorem bind {ι : Type} {f : ι → List α} {m : Sorting ι} {Q : ι → Prop} {k : ι → Sorting (List α)}
    (h : Replaces c before part after (f <$> m)) (hm : Yields m Q)
    (h' : ∀ a, Q a → Replaces c' before (f a) after (k a)) :
    Replaces (do c; c') before part after (m >>= k) := by
  rw [Replaces, StateT.run_bind, h, Functor.map_map, bind_map_left, map_bind]
  exact hm.bind_congr h'

end Replaces

/-! ## Positions -/

/-- An element of a part of the row is found at its position in the row. -/
theorem elementAt_part (before part after : List α) {i : Nat} (h : i < part.length) :
    elementAt (before ++ part ++ after) (before.length + i) = pure part[i] := by
  have hget : (before ++ part ++ after)[before.length + i]? = some part[i] := by
    rw [List.append_assoc, List.getElem?_append_right (by omega),
      List.getElem?_append_left (by omega), List.getElem?_eq_some_iff]
    simp [h]
  rw [elementAt, hget]

/-- A search can be moved along with its range. -/
theorem search_add {test test' : Nat → Sorting Bool} (d low high : Nat)
    (h : ∀ i, low ≤ i → i < high → test (d + i) = test' i) :
    search test (d + low) (d + high) = (d + ·) <$> search test' low high := by
  fun_induction search test' low high with
  | case1 low high hlt middle ihUpper ihLower =>
      have hmiddle : (d + low + (d + high)) / 2 = d + middle := by omega
      rw [search, if_pos (by omega), hmiddle, map_bind]
      dsimp only
      rw [h middle (by omega) (by omega)]
      refine bind_congr fun answer => ?_
      cases answer with
      | true => exact ihUpper fun i h1 h2 => h i (by omega) h2
      | false => exact ihLower fun i h1 h2 => h i h1 (by omega)
  | case2 low high hlt =>
      rw [search, if_neg (by omega)]
      rfl

theorem elementAt_middle (before : List α) (x : α) (after : List α) :
    elementAt (before ++ x :: after) before.length = pure x := by
  have h := elementAt_part before [x] after (i := 0) (by simp)
  simpa using h

/-- Two neighbours are exchanged, whichever of their positions is given first. -/
theorem run_swap (before : List α) (x y : α) (after : List α) :
    (swap before.length (before.length + 1)).run (before ++ x :: y :: after) =
        pure ((), before ++ y :: x :: after) ∧
      (swap (before.length + 1) before.length).run (before ++ x :: y :: after) =
        pure ((), before ++ y :: x :: after) := by
  have hx : elementAt (before ++ x :: y :: after) before.length = pure x :=
    elementAt_middle before x (y :: after)
  have hy : elementAt (before ++ x :: y :: after) (before.length + 1) = pure y := by
    have h := elementAt_middle (before ++ [x]) y after
    simpa using h
  constructor <;> simp [swap, hx, hy]

/-! ## Moving elements -/

theorem raise_replaces (x : α) : ∀ before part after : List α,
    Replaces (raise before.length (before.length + part.length)) before (x :: part) after
      (pure (part ++ [x]))
  | before, [], after => by
      rw [raise, List.length_nil, Nat.add_zero, Nat.sub_self]
      exact .nothing
  | before, y :: ys, after => by
      have ih := raise_replaces x (before ++ [y]) ys after
      have hrange : List.range' before.length (before.length + (y :: ys).length - before.length) =
          before.length :: List.range' (before ++ [y]).length
            ((before ++ [y]).length + ys.length - (before ++ [y]).length) := by
        rw [Nat.add_sub_cancel_left, Nat.add_sub_cancel_left, List.length_cons, List.range'_succ,
          List.length_append, List.length_singleton]
      rw [Replaces, raise] at ih ⊢
      rw [hrange, List.forM_cons, StateT.run_bind]
      have hswap := (run_swap before x y (ys ++ after)).1
      simp only [List.append_assoc, List.cons_append, List.nil_append] at ih hswap ⊢
      rw [hswap, pure_bind, ih]
      rfl

/-- An element that is at the bottom stays there. -/
theorem lower_self (low : Nat) : (lower low low : InPlace α Unit) = pure () := by
  cases low with
  | zero => rfl
  | succ low => rw [lower, if_neg (by omega)]

/-- The part between is given in reverse. -/
theorem run_lower (before : List α) (x : α) : ∀ part after : List α,
    (lower before.length (before.length + part.length)).run (before ++ part.reverse ++ x :: after) =
      pure ((), before ++ x :: part.reverse ++ after)
  | [], after => by
      rw [List.length_nil, Nat.add_zero, lower_self]
      simp
  | y :: ys, after => by
      have hswap := (run_swap (before ++ ys.reverse) y x after).2
      have ih := run_lower before x ys (y :: after)
      rw [List.length_append, List.length_reverse] at hswap
      rw [List.length_cons, ← Nat.add_assoc, lower, if_pos (by omega), StateT.run_bind]
      simp only [List.reverse_cons, List.append_assoc, List.cons_append, List.nil_append]
        at ih hswap ⊢
      rw [hswap, pure_bind, ih]

theorem lower_replaces (before part : List α) (x : α) (after : List α) :
    Replaces (lower before.length (before.length + part.length)) before (part ++ [x]) after
      (pure (x :: part)) := by
  have h := run_lower before x part.reverse after
  rw [List.length_reverse, List.reverse_reverse] at h
  rw [Replaces, map_pure, ← h]
  simp only [List.append_assoc, List.cons_append, List.nil_append]

theorem rotate_replaces (before first second after : List α) :
    Replaces (rotate before.length (before.length + first.length)
        (before.length + first.length + second.length))
      before (first ++ second) after (pure (second ++ first)) := by
  have hlow : atMost before.length (before.length + first.length) = pure () := if_pos (by omega)
  have hmiddle : atMost (before.length + first.length)
      (before.length + first.length + second.length) = pure () := if_pos (by omega)
  have hhigh : atMost (before.length + first.length + second.length)
      (before ++ (first ++ second) ++ after).length = pure () := if_pos (by simp; omega)
  rw [Replaces, rotate]
  simp only [StateT.run_bind, StateT.run_get, run_liftM, map_pure, pure_bind, hlow, hmiddle, hhigh]
  have hrow : before ++ (first ++ second) ++ after = before ++ first ++ second ++ after := by
    simp only [List.append_assoc]
  have htake : (before ++ first ++ second ++ after).take
      (before.length + first.length + second.length) = before ++ first ++ second :=
    List.take_left' (by simp only [List.length_append])
  have htake' : (before ++ first ++ second ++ after).take (before.length + first.length) =
      before ++ first := by
    rw [List.append_assoc (before ++ first)]
    exact List.take_left' List.length_append
  have htake'' : (before ++ first ++ second ++ after).take before.length = before := by
    rw [List.append_assoc, List.append_assoc]
    exact List.take_left
  have hdrop : (before ++ first ++ second ++ after).drop
      (before.length + first.length + second.length) = after :=
    List.drop_left' (by simp only [List.length_append])
  rw [hrow, htake, htake', htake'', hdrop, List.drop_left' List.length_append, List.drop_left,
    StateT.run_set]
  simp only [List.append_assoc]

/-! ## Runs -/

theorem sinkAt_self (less : α → α → Bool) (low : Nat) : sinkAt less low low = pure () := by
  cases low with
  | zero => rfl
  | succ low => rw [sinkAt, if_neg (by omega)]

/-- The sorted part is given in reverse. -/
theorem run_sinkAt (less : α → α → Bool) (before : List α) (x : α) : ∀ sorted after : List α,
    (sinkAt less before.length (before.length + sorted.length)).run
        (before ++ sorted.reverse ++ x :: after) =
      (fun longer => ((), before ++ longer.reverse ++ after)) <$> sink less x sorted
  | [], after => by
      rw [List.length_nil, Nat.add_zero, sinkAt_self, sink, map_pure]
      simp
  | y :: ys, after => by
      have hx : elementAt (before ++ (y :: ys).reverse ++ x :: after)
          (before.length + ys.length + 1) = pure x := by
        have h := elementAt_middle (before ++ (y :: ys).reverse) x after
        simpa [Nat.add_assoc] using h
      have hy : elementAt (before ++ (y :: ys).reverse ++ x :: after)
          (before.length + ys.length) = pure y := by
        have h := elementAt_middle (before ++ ys.reverse) y (x :: after)
        simpa using h
      have hswap := (run_swap (before ++ ys.reverse) y x after).2
      have ih := run_sinkAt less before x ys (y :: after)
      rw [List.length_append, List.length_reverse] at hswap
      rw [List.length_cons, ← Nat.add_assoc, sinkAt, if_pos (by omega), sink]
      simp only [StateT.run_bind, StateT.run_get, run_liftM, bind_map_left, pure_bind, askAt, hx,
        hy]
      rw [map_bind]
      refine bind_congr fun answer => ?_
      cases answer with
      | true =>
          rw [if_pos rfl, if_pos rfl, StateT.run_bind, bind_pure_comp, Functor.map_map]
          simp only [List.reverse_cons, List.append_assoc, List.cons_append, List.nil_append]
            at ih hswap ⊢
          rw [hswap, pure_bind, ih]
      | false =>
          simp

/-- The elements that are sorted already are given in reverse. -/
theorem run_insert (less : α → α → Bool) (before after : List α) : ∀ rest sorted : List α,
    (forM (List.range' (before.length + sorted.length) rest.length)
        (sinkAt less before.length)).run (before ++ sorted.reverse ++ (rest ++ after)) =
      (fun run => ((), before ++ run ++ after)) <$> insertionSort less sorted rest
  | [], sorted => by
      rw [insertionSort, map_pure]
      rfl
  | x :: xs, sorted => by
      rw [List.length_cons, List.range'_succ, List.forM_cons, StateT.run_bind, List.cons_append,
        run_sinkAt, bind_map_left, insertionSort, map_bind]
      refine (sink_perm less x sorted).bind_congr fun longer hlonger => ?_
      have ih := run_insert less before after xs longer
      rw [hlonger.length_eq, List.length_cons, ← Nat.add_assoc] at ih
      exact ih

theorem insertAt_replaces (less : α → α → Bool) (before run after : List α) :
    Replaces (insertAt less before.length (before.length + run.length)) before run after
      (insertionSort less [] run) := by
  cases run with
  | nil =>
      have hrange : before.length + ([] : List α).length - (before.length + 1) = 0 := by simp
      rw [insertAt, hrange]
      exact .nothing
  | cons x xs =>
      have hrange : before.length + (x :: xs).length - (before.length + 1) = xs.length := by
        rw [List.length_cons]
        omega
      have h := run_insert less before after xs [x]
      rw [insertAt, hrange, insertionSort, sink, pure_bind, Replaces, ← h]
      simp

end MomentumChain.Sort
