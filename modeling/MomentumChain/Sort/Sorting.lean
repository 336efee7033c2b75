/-!
# Computations of a sort

A sort asks a relation about pairs of elements and looks elements up by their
positions.  `Sorting` is the type of such a computation.  It counts the calls
of the relation.  It fails on a position outside of the list, on a difference
below zero and on a merge with an empty run.

`Yields computation property` says that the computation does not fail, whatever
the count, and that its result has the property.  The rules below prove this
step by step.  `search_yields` is the one for the binary search: its result
lies within the range, the test held right before it and failed at it.
-/

namespace MomentumChain.Sort

/-- A computation that counts calls of the relation and may fail. -/
abbrev Sorting (α : Type) : Type := StateT Nat Option α

variable {α β : Type}

/-- Asks whether `a` goes before `b`. -/
def ask (less : α → α → Bool) (a b : α) : Sorting Bool := do
  modify (· + 1)
  pure (less a b)

/-- The element at a position. -/
def elementAt (xs : List α) (position : Nat) : Sorting α :=
  match xs[position]? with
  | some x => pure x
  | none => failure

/-- The difference of two positions. -/
def minus (a b : Nat) : Sorting Nat := if b ≤ a then pure (a - b) else failure

/-- Refuses a position above a bound. -/
def atMost (position bound : Nat) : Sorting Unit :=
  if position ≤ bound then pure () else failure

/-- Binary search between two positions.  The test is expected to hold up to
some position and to fail from it on, and that position is the result. -/
def search (test : Nat → Sorting Bool) (low high : Nat) : Sorting Nat :=
  if low < high then do
    let middle := (low + high) / 2
    if ← test middle then search test (middle + 1) high else search test low middle
  else pure low
termination_by high - low

/-! ## What a computation yields -/

/-- The computation never fails, and its result has the property. -/
def Yields (computation : Sorting α) (property : α → Prop) : Prop :=
  ∀ calls, ∃ result calls', computation.run calls = some (result, calls') ∧ property result

namespace Yields

theorem ret {a : α} {P : α → Prop} (h : P a) : Yields (pure a) P :=
  fun calls => ⟨a, calls, rfl, h⟩

theorem andThen {m : Sorting α} {f : α → Sorting β} {Q : α → Prop} {P : β → Prop}
    (hm : Yields m Q) (hf : ∀ a, Q a → Yields (f a) P) : Yields (m >>= f) P := by
  intro calls
  obtain ⟨a, calls', hrun, hQ⟩ := hm calls
  obtain ⟨b, calls'', hrun', hP⟩ := hf a hQ calls'
  refine ⟨b, calls'', ?_, hP⟩
  rw [StateT.run_bind, hrun]
  exact hrun'

theorem mono {m : Sorting α} {P Q : α → Prop} (h : Yields m P) (hPQ : ∀ a, P a → Q a) :
    Yields m Q := by
  intro calls
  obtain ⟨a, calls', hrun, hP⟩ := h calls
  exact ⟨a, calls', hrun, hPQ a hP⟩

end Yields

theorem ask_yields (less : α → α → Bool) (a b : α) :
    Yields (ask less a b) (fun answer => answer = less a b) :=
  fun calls => ⟨less a b, calls + 1, rfl, rfl⟩

theorem elementAt_yields {xs : List α} {position : Nat} (h : position < xs.length) :
    Yields (elementAt xs position) (fun x => x = xs[position]) := by
  rw [elementAt, List.getElem?_eq_getElem h]
  exact .ret rfl

theorem minus_yields {a b : Nat} (h : b ≤ a) : Yields (minus a b) (fun d => d = a - b) := by
  rw [minus, if_pos h]
  exact .ret rfl

theorem atMost_yields {position bound : Nat} (h : position ≤ bound) :
    Yields (atMost position bound) (fun _ => True) := by
  rw [atMost, if_pos h]
  exact .ret trivial

theorem search_yields {test : Nat → Sorting Bool} {P : Nat → Bool → Prop} {low high : Nat}
    (hle : low ≤ high) (htest : ∀ i, low ≤ i → i < high → Yields (test i) (P i)) :
    Yields (search test low high) (fun i =>
      low ≤ i ∧ i ≤ high ∧ (low < i → P (i - 1) true) ∧ (i < high → P i false)) := by
  fun_induction search test low high with
  | case1 low high hlt middle ihUpper ihLower =>
      refine .andThen (htest middle (by omega) (by omega)) fun answer hanswer => ?_
      cases answer with
      | true =>
          refine .mono (ihUpper (by omega) fun i h h' => htest i (by omega) h') fun i hi => ?_
          obtain ⟨h1, h2, h3, h4⟩ := hi
          refine ⟨by omega, h2, fun _ => ?_, h4⟩
          by_cases heq : middle + 1 = i
          · subst heq
            exact hanswer
          · exact h3 (by omega)
      | false =>
          refine .mono (ihLower (by omega) fun i h h' => htest i h (by omega)) fun i hi => ?_
          obtain ⟨h1, h2, h3, h4⟩ := hi
          refine ⟨h1, by omega, h3, fun _ => ?_⟩
          by_cases heq : i = middle
          · subst heq
            exact hanswer
          · exact h4 (by omega)
  | case2 low high hlt =>
      exact .ret ⟨Nat.le_refl _, hle, fun h => absurd h (Nat.lt_irrefl _), fun h => absurd h hlt⟩

end MomentumChain.Sort
