import MomentumChain.Proofs.Election.Rank
import MomentumChain.Proofs.Election.Shuffle

/-!
# The seats of a tick

The producers of a tick are the shuffled candidates in rounds: every round has the order of the
first one, and the last round may be cut short.  So each candidate has one seat in every full
round and at most one in the round that is cut (`EvenlySeated`).

A tick without candidates is an error, and there is no other error as long as the draws of the
shuffle end.  A tick that no table can hold is a fault (`producers_seated`).
-/

namespace MomentumChain.Election

variable {α β : Type}

/-! ## Rounds of a list -/

theorem getElem?_rounds {items : List α} : ∀ {count i : Nat}, i < count * items.length →
    (List.replicate count items).flatten[i]? = items[i % items.length]?
  | 0, i, h => by
      rw [Nat.zero_mul] at h
      cases h
  | count + 1, i, h => by
      rw [List.replicate_succ, List.flatten_cons, List.getElem?_append]
      split
      · case isTrue hfirst => rw [Nat.mod_eq_of_lt hfirst]
      · case isFalse hlater =>
          have hle : items.length ≤ i := Nat.not_lt.mp hlater
          rw [Nat.succ_mul] at h
          rw [getElem?_rounds (by omega), Nat.mod_eq_sub_mod hle]

theorem le_rounds (slots : Nat) {size : Nat} (h : 0 < size) :
    slots ≤ (slots + size - 1) / size * size := by
  have hsplit := Nat.div_add_mod (slots + size - 1) size
  have hrest := Nat.mod_lt (slots + size - 1) h
  rw [Nat.mul_comm]
  omega

/-! ## Filled slots -/

theorem length_fillSlots {items : List α} (h : items ≠ []) (slots : Nat) :
    (fillSlots slots items).length = slots := by
  have := le_rounds slots (List.length_pos_of_ne_nil h)
  simpa [fillSlots] using this

/-- The slots repeat the list. -/
theorem getElem?_fillSlots {items : List α} (h : items ≠ []) {slots i : Nat} (hi : i < slots) :
    (fillSlots slots items)[i]? = items[i % items.length]? := by
  have hle := le_rounds slots (List.length_pos_of_ne_nil h)
  rw [fillSlots, List.getElem?_take_of_lt hi]
  exact getElem?_rounds (Nat.lt_of_lt_of_le hi hle)

theorem fillSlots_map (f : α → β) (slots : Nat) (items : List α) :
    fillSlots slots (items.map f) = (fillSlots slots items).map f := by
  simp [fillSlots, List.map_take, List.map_flatten]

/-- The slots are full rounds and the start of one more. -/
theorem fillSlots_eq_append {items : List α} (h : items ≠ []) (slots : Nat) :
    fillSlots slots items =
      (List.replicate (slots / items.length) items).flatten ++
        items.take (slots % items.length) := by
  have hpos := List.length_pos_of_ne_nil h
  have hsplit := Nat.div_add_mod slots items.length
  have hrest := Nat.mod_lt slots hpos
  have hrounds : ((List.replicate (slots / items.length) items).flatten).length =
      slots / items.length * items.length := by simp
  rw [Nat.mul_comm] at hsplit
  refine List.ext_getElem? fun i => ?_
  rw [List.getElem?_append, hrounds]
  by_cases hi : i < slots
  · rw [getElem?_fillSlots h hi]
    split
    · case isTrue hround => exact (getElem?_rounds hround).symm
    · case isFalse hlast =>
        have hplace : i % items.length = i - slots / items.length * items.length := by
          rw [Nat.mul_comm] at hlast hsplit ⊢
          rw [← Nat.sub_mul_mod (Nat.not_lt.mp hlast), Nat.mod_eq_of_lt (by omega)]
        rw [hplace, List.getElem?_take_of_lt (by omega)]
  · rw [if_neg (by omega), List.getElem?_eq_none (by rw [length_fillSlots h]; omega),
      List.getElem?_eq_none (by rw [List.length_take]; omega)]

/-- A full round of the slots is the list. -/
theorem round_fillSlots {items : List α} (h : items ≠ []) {slots round : Nat}
    (hfits : (round + 1) * items.length ≤ slots) :
    ((fillSlots slots items).drop (round * items.length)).take items.length = items := by
  refine List.ext_getElem? fun i => ?_
  rw [Nat.succ_mul] at hfits
  by_cases hi : i < items.length
  · rw [List.getElem?_take_of_lt hi, List.getElem?_drop, getElem?_fillSlots h (by omega),
      Nat.add_comm, Nat.add_mul_mod_self_right, Nat.mod_eq_of_lt hi]
  · rw [List.getElem?_eq_none (by rw [List.length_take]; omega),
      List.getElem?_eq_none (Nat.not_lt.mp hi)]

/-- Of places that each occur once in a list, each has a slot in every full round and at most one
after them. -/
theorem count_fillSlots {size : Nat} {order : List (Fin size)}
    (horder : order.Perm (List.finRange size)) (slots : Nat) (place : Fin size) :
    (fillSlots slots order).count place = slots / size ∨
      (fillSlots slots order).count place = slots / size + 1 := by
  have hlength : order.length = size := by rw [horder.length_eq, List.length_finRange]
  have honce : order.count place = 1 := by
    rw [horder.count_eq]
    exact List.count_eq_one_of_mem (List.nodup_finRange size) (List.mem_finRange place)
  have hlast : (order.take (slots % size)).count place ≤ 1 :=
    honce ▸ (List.take_sublist _ order).count_le place
  have hne : order ≠ [] := by
    intro hnil
    rw [hnil] at honce
    cases honce
  rw [fillSlots_eq_append hne, List.count_append, List.count_flatten, List.map_replicate, honce,
    hlength, List.sum_replicate_nat]
  omega

/-! ## Producers of a tick -/

/-- Every candidate has its share of the slots, and the slots repeat the candidates in one
order. -/
structure EvenlySeated (candidates : List Delegation) (slots : Nat) (elected : List Delegation) :
    Prop where
  length : elected.length = slots
  repeats : ∀ i, candidates.length ≤ i → i < slots →
    elected[i]? = elected[i % candidates.length]?
  /-- Every full round has each candidate as often as the list of candidates. -/
  rounds : ∀ round, (round + 1) * candidates.length ≤ slots →
    ((elected.drop (round * candidates.length)).take candidates.length).Perm candidates
  /-- Each slot belongs to a place of the list of candidates, and no place has two slots more
  than another. -/
  shares : ∃ seats : List (Fin candidates.length), elected = seats.map candidates.get ∧
    ∀ place, seats.count place = slots / candidates.length ∨
      seats.count place = slots / candidates.length + 1

theorem evenlySeated_fillSlots {candidates : List Delegation} (hne : candidates ≠ [])
    {stream : Stream} {limit : Nat} {shuffled : List Delegation}
    (h : shuffle stream limit (Delegation.byRank candidates) = some shuffled) (slots : Nat) :
    EvenlySeated candidates slots (fillSlots slots shuffled) := by
  have hperm : shuffled.Perm candidates :=
    (shuffle_perm h).trans (Delegation.byRank_perm candidates)
  have hlength := hperm.length_eq
  have hshuffled : shuffled ≠ [] := fun hnil => hne (hnil ▸ hperm).symm.eq_nil
  obtain ⟨ranks, hranks, heq⟩ := Delegation.exists_byRank_eq_map candidates
  rw [heq, shuffle_map] at h
  obtain ⟨order, horder, hmap⟩ := Option.map_eq_some_iff.mp h
  refine ⟨length_fillSlots hshuffled slots, ?_, ?_, fillSlots slots order, ?_, ?_⟩
  · intro i _ hi
    rw [getElem?_fillSlots hshuffled hi, getElem?_fillSlots hshuffled
      (Nat.lt_of_le_of_lt (Nat.mod_le ..) hi), hlength, Nat.mod_mod]
  · intro round hfits
    rw [← hlength, round_fillSlots hshuffled (by rwa [hlength])]
    exact hperm
  · rw [← hmap, fillSlots_map]
  · exact count_fillSlots ((shuffle_perm horder).trans hranks) slots

theorem electWithin_nil (limit slots : Nat) (seed : UInt64) :
    electWithin limit [] slots seed = .error (.error .noCandidates) := rfl

theorem electWithin_crowded {candidates : List Delegation} (hne : candidates ≠ []) {slots : Nat}
    (hcrowded : maxSeats < slots + candidates.length) (limit : Nat) (seed : UInt64) :
    electWithin limit candidates slots seed = .error (.fault .overflow) := by
  rw [electWithin, if_neg (by simpa using hne), if_pos hcrowded]

theorem electWithin_of_shuffle {candidates : List Delegation} (hne : candidates ≠ [])
    {slots : Nat} (hroom : slots + candidates.length ≤ maxSeats) {limit : Nat} {seed : UInt64}
    {shuffled : List Delegation}
    (h : shuffle (streamWord (keyOfSeed seed)) limit (Delegation.byRank candidates) =
      some shuffled) :
    electWithin limit candidates slots seed = .ok (fillSlots slots shuffled) := by
  rw [electWithin, if_neg (by simpa using hne), if_neg (Nat.not_lt.mpr hroom), h]

/-- As long as the draws end, a tick without candidates is an error and no other tick is one, and
every tick that a table can hold has its slots filled evenly.  How many numbers a draw may try
does not show. -/
theorem producers_seated {candidates : List Delegation} {seed : UInt64} {limit : Nat}
    (hends : DrawsEnd (streamWord (keyOfSeed seed)) limit candidates.length) (slots : Nat) :
    ∃ result, (∀ more, limit ≤ more → electWithin more candidates slots seed = result) ∧
      (∀ e, result = .error (.error e) ↔ candidates = [] ∧ e = .noCandidates) ∧
      (∀ f, result = .error (.fault f) ↔
        candidates ≠ [] ∧ maxSeats < slots + candidates.length ∧ f = .overflow) ∧
      (candidates ≠ [] → slots + candidates.length ≤ maxSeats →
        ∃ elected, result = .ok elected ∧ EvenlySeated candidates slots elected) := by
  by_cases hnil : candidates = []
  · subst hnil
    refine ⟨_, fun more _ => electWithin_nil more slots seed, ?_, ?_, ?_⟩
    · intro e
      simp [eq_comm]
    · simp
    · intro hne
      exact absurd rfl hne
  · by_cases hroom : slots + candidates.length ≤ maxSeats
    · rw [← (Delegation.byRank_perm candidates).length_eq] at hends
      obtain ⟨shuffled, hshuffled⟩ := hends.exists_shuffle
      refine ⟨_, fun more hle => electWithin_of_shuffle hnil hroom (shuffle_mono hle hshuffled),
        ?_, ?_, ?_⟩
      · simp [hnil]
      · simp [Nat.not_lt.mpr hroom]
      · intro _ _
        exact ⟨_, rfl, evenlySeated_fillSlots hnil hshuffled slots⟩
    · have hcrowded := Nat.not_le.mp hroom
      refine ⟨_, fun more _ => electWithin_crowded hnil hcrowded more seed, ?_, ?_, ?_⟩
      · simp [hnil]
      · intro f
        simp [hnil, hcrowded, eq_comm]
      · intro _ hfits
        exact absurd hfits hroom

/-! ## A tick of three candidates -/

/-- Three candidates, two of them of one weight. -/
def trio : List Delegation := [.numbered "c" 1 1, .numbered "b" 2 2, .numbered "a" 2 3]

/-- A draw of this seed rejects three numbers. -/
theorem drawsEnd_trio : DrawsEnd (streamWord (keyOfSeed 19)) 4 trio.length :=
  show DrawsEnd _ 4 3 from ⟨[1, 2, 0], by decide +kernel⟩

/-- Seven slots for three candidates. -/
theorem producers_seated_trio :
    DrawsEnd (streamWord (keyOfSeed 19)) 4 trio.length ∧
      ∃ elected, elect trio 7 19 = .ok elected ∧
        EvenlySeated trio 7 elected := by
  obtain ⟨result, hresult, _, _, hseated⟩ := producers_seated drawsEnd_trio 7
  obtain ⟨elected, hok, hseats⟩ := hseated (by decide) (by decide)
  exact ⟨drawsEnd_trio, elected, hok ▸ hresult drawLimit (by decide), hseats⟩

/-! ## A tick of too many slots -/

/-- One candidate and as many slots as a word of 64 bits can count: no number is drawn, and still
there are no producers. -/
theorem vast_tick_faults :
    DrawsEnd (streamWord (keyOfSeed 1)) drawLimit 1 ∧
      elect [.numbered "a" 0 1] 18446744073709551615 1 = .error (.fault .overflow) :=
  ⟨⟨_, rfl⟩, electWithin_crowded (by decide) (by decide) drawLimit 1⟩

end MomentumChain.Election
