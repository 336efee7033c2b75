import MomentumChain.Election.Shuffle
import Mathlib.Data.List.FinRange

/-!
# Shuffles

A shuffle swaps places, and which places it swaps is decided by the stream and the length of the
list alone.  So the result is a permutation of the list (`shuffle_perm`), and the elements can be
renamed before or after (`shuffle_map`).

A draw looks for a number of the stream that is not rejected, and scales it to the range
(`draw_lt`).  If it finds one within its limit, a larger limit finds the same number, and so the
limit does not show in a shuffle that has a result (`shuffle_mono`).
-/

namespace MomentumChain.Election

variable {α β : Type}

/-! ## Draws -/

theorem readWords_lt (stream : Stream) : ∀ count position : Nat,
    readWords stream count position < Word.radix (32 * count)
  | 0, _ => Nat.zero_lt_one
  | count + 1, position => by
      have hword : (stream position).toNat < UInt32.size := (stream position).toNat_lt
      have hradix : Word.radix (32 * (count + 1)) = UInt32.size * Word.radix (32 * count) := by
        rw [Nat.mul_succ, Nat.add_comm, Word.radix_add]
        rfl
      rw [readWords, hradix]
      calc (stream position).toNat + UInt32.size * readWords stream count (position + 1)
          < UInt32.size * (readWords stream count (position + 1) + 1) := by
            rw [Nat.mul_succ]
            omega
        _ ≤ UInt32.size * Word.radix (32 * count) :=
            Nat.mul_le_mul_left _ (readWords_lt stream count (position + 1))

/-- A draw that ends has a number below the range. -/
theorem draw_lt {stream : Stream} {range : Nat} {result : Nat × Nat} (hrange : 0 < range) :
    ∀ {limit position : Nat}, draw stream range limit position = some result → result.1 < range
  | 0, _, h => by cases h
  | limit + 1, position, h => by
      simp only [draw] at h
      split at h
      · cases h
        refine Nat.div_lt_of_lt_mul ?_
        exact Nat.mul_lt_mul_of_pos_right (readWords_lt stream _ position) hrange
      · exact draw_lt hrange h

-- a range that does not fit a word takes two words, and the second one is the higher
example : draw (fun position => if position = 0 then 1 else 2147483648) UInt32.size 1 0 =
    some (2147483648, 2) := by decide

/-- A draw that ends within a limit has the same result within a larger one. -/
theorem draw_mono {stream : Stream} {range : Nat} {result : Nat × Nat} {more : Nat} :
    ∀ {limit position : Nat}, limit ≤ more → draw stream range limit position = some result →
      draw stream range more position = some result := by
  induction more with
  | zero =>
      intro limit position hle h
      rwa [Nat.le_zero.mp hle] at h
  | succ more ih =>
      intro limit position hle h
      cases limit with
      | zero => cases h
      | succ limit =>
          simp only [draw] at h ⊢
          split
          · case isTrue haccepted => rwa [if_pos haccepted] at h
          · case isFalse hrejected =>
              rw [if_neg hrejected] at h
              exact ih (Nat.le_of_succ_le_succ hle) h

/-! ## Swaps -/

theorem swapPlaces_perm (items : Array α) (i j : Nat) : (swapPlaces items i j).Perm items := by
  unfold swapPlaces
  split
  · exact Array.swap_perm ..
  · exact Array.Perm.refl items

theorem swapPlaces_map (f : α → β) (items : Array α) (i j : Nat) :
    swapPlaces (items.map f) i j = (swapPlaces items i j).map f := by
  unfold swapPlaces
  simp only [Array.size_map]
  split
  · ext k
    · simp
    · simp only [Array.getElem_map, Array.getElem_swap]
      split
      · rfl
      · split <;> rfl
  · rfl

/-! ## Shuffles -/

theorem shuffleUpTo_perm {stream : Stream} {limit : Nat} :
    ∀ {last position : Nat} {items shuffled : Array α},
      shuffleUpTo stream limit last position items = some shuffled → shuffled.Perm items
  | 0, _, items, _, h => by
      cases h
      exact Array.Perm.refl items
  | last + 1, _, items, _, h => by
      obtain ⟨⟨place, _⟩, _, h⟩ := Option.bind_eq_some_iff.mp h
      exact (shuffleUpTo_perm h).trans (swapPlaces_perm items (last + 1) place)

theorem shuffleUpTo_map {stream : Stream} {limit : Nat} (f : α → β) :
    ∀ (last position : Nat) (items : Array α),
      shuffleUpTo stream limit last position (items.map f) =
        (shuffleUpTo stream limit last position items).map fun shuffled => shuffled.map f
  | 0, _, _ => rfl
  | last + 1, position, items => by
      simp only [shuffleUpTo, Option.bind_eq_bind, Option.map_bind]
      refine congrArg (Option.bind (draw stream (last + 2) limit position)) (funext fun drawn => ?_)
      rw [swapPlaces_map]
      exact shuffleUpTo_map f last drawn.2 _

theorem shuffleUpTo_mono {stream : Stream} {limit more : Nat} (hle : limit ≤ more) :
    ∀ {last position : Nat} {items shuffled : Array α},
      shuffleUpTo stream limit last position items = some shuffled →
        shuffleUpTo stream more last position items = some shuffled
  | 0, _, _, _, h => h
  | _ + 1, _, _, _, h => by
      obtain ⟨drawn, hdraw, h⟩ := Option.bind_eq_some_iff.mp h
      exact Option.bind_eq_some_iff.mpr ⟨drawn, draw_mono hle hdraw, shuffleUpTo_mono hle h⟩

/-- A shuffled list has the elements of the list. -/
theorem shuffle_perm {stream : Stream} {limit : Nat} {items shuffled : List α}
    (h : shuffle stream limit items = some shuffled) : shuffled.Perm items := by
  obtain ⟨array, harray, rfl⟩ := Option.map_eq_some_iff.mp h
  exact (Array.perm_iff_toList_perm.mp (shuffleUpTo_perm harray)).trans (by simp)

/-- A shuffle does not look at the elements. -/
theorem shuffle_map (stream : Stream) (limit : Nat) (f : α → β) (items : List α) :
    shuffle stream limit (items.map f) =
      (shuffle stream limit items).map fun shuffled => shuffled.map f := by
  rw [shuffle, shuffle, List.length_map, ← List.map_toArray, shuffleUpTo_map, Option.map_map,
    Option.map_map]
  exact congrArg (Option.map · _) (funext fun _ => Array.toList_map)

/-- A shuffle that ends within a limit has the same result within a larger one. -/
theorem shuffle_mono {stream : Stream} {limit more : Nat} (hle : limit ≤ more)
    {items shuffled : List α} (h : shuffle stream limit items = some shuffled) :
    shuffle stream more items = some shuffled := by
  obtain ⟨array, harray, rfl⟩ := Option.map_eq_some_iff.mp h
  exact Option.map_eq_some_iff.mpr ⟨array, shuffleUpTo_mono hle harray, rfl⟩

/-- Every draw of a shuffle of `count` places accepts a number within the limit. -/
def DrawsEnd (stream : Stream) (limit count : Nat) : Prop :=
  ∃ order, shuffle stream limit (List.finRange count) = some order

/-- Whether the draws end depends on the length of the list only. -/
theorem DrawsEnd.exists_shuffle {stream : Stream} {limit : Nat} {items : List α}
    (h : DrawsEnd stream limit items.length) :
    ∃ shuffled, shuffle stream limit items = some shuffled := by
  obtain ⟨order, horder⟩ := h
  refine ⟨order.map items.get, ?_⟩
  have hitems := shuffle_map stream limit items.get (List.finRange items.length)
  rw [List.map_get_finRange, horder] at hitems
  exact hitems

end MomentumChain.Election
