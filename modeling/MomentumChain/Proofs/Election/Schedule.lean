import MomentumChain.Election.Schedule
import MomentumChain.Proofs.Election.Rank
import Mathlib.Data.List.Chain
import Mathlib.Data.Nat.Basic

/-!
# The slots of a tick

A slot is laid out from its place alone, and a product and two sums saturate on the way.  Its
start is still the exact one as long as that is a time, and the last time if not
(`toNat_slotStart`).  So a slot stops where the slot of the next place starts
(`satAdd_slotStart`), be that at the last time.

The last time lies in no slot.  Any other time lies in the slot of a place exactly if the place
is the number of whole block times that have passed since the start of the tick
(`covers_slotOf_iff`).  Hence the slots tile the tick (`schedule_tiles`).
-/

namespace MomentumChain.Election

/-! ## Slots by their places -/

section

variable {tickStart blockTime : UInt64} {place : Nat}

theorem toNat_slotStart (h : place < UInt64.size) :
    (slotStart tickStart blockTime place).toNat =
      min (tickStart.toNat + place * blockTime.toNat) (UInt64.size - 1) := by
  have hplace : (UInt64.ofNat place).toNat = place := UInt64.toNat_ofNat_of_lt' h
  rw [slotStart, Word.toNat_satAdd, Word.toNat_satMul, hplace]
  omega

theorem slotStart_zero : slotStart tickStart blockTime 0 = tickStart := by
  have hle : tickStart.toNat < UInt64.size := tickStart.toNat_lt
  rw [← UInt64.toNat_inj, toNat_slotStart (by decide), Nat.zero_mul]
  omega

theorem slotStart_mono {later : Nat} (hle : place ≤ later) (h : later < UInt64.size) :
    slotStart tickStart blockTime place ≤ slotStart tickStart blockTime later := by
  have htimes : place * blockTime.toNat ≤ later * blockTime.toNat := Nat.mul_le_mul_right _ hle
  rw [UInt64.le_iff_toNat_le, toNat_slotStart (Nat.lt_of_le_of_lt hle h), toNat_slotStart h]
  omega

theorem toNat_satAdd_slotStart (h : place < UInt64.size) :
    (Word.satAdd (slotStart tickStart blockTime place) blockTime).toNat =
      min (tickStart.toNat + (place + 1) * blockTime.toNat) (UInt64.size - 1) := by
  rw [Word.toNat_satAdd, toNat_slotStart h, Nat.succ_mul]
  omega

/-- A block time after the start of a slot is the start of the next one. -/
theorem satAdd_slotStart (h : place + 1 < UInt64.size) :
    Word.satAdd (slotStart tickStart blockTime place) blockTime =
      slotStart tickStart blockTime (place + 1) := by
  rw [← UInt64.toNat_inj, toNat_satAdd_slotStart (Nat.lt_of_succ_lt h), toNat_slotStart h]

end

/-- The slot of a delegation at a place. -/
def slotOf (tickStart blockTime : UInt64) (place : Nat) (delegation : Delegation) : Slot :=
  ⟨delegation.name, delegation.producer, slotStart tickStart blockTime place,
    Word.satAdd (slotStart tickStart blockTime place) blockTime⟩

theorem schedule_eq_mapIdx (elected : List Delegation) (tickStart blockTime : UInt64) :
    schedule elected tickStart blockTime = elected.mapIdx (slotOf tickStart blockTime) := by
  rw [List.mapIdx_eq_zipIdx_map]
  rfl

/-! ## Times in slots -/

/-- A time lies in a slot from its first second on, until the first second after it. -/
def Slot.Covers (slot : Slot) (time : UInt64) : Prop := slot.start ≤ time ∧ time < slot.stop

/-- A time before the last one lies in the slot of a place if so many block times have passed. -/
theorem covers_slotOf_iff {tickStart blockTime time : UInt64} {place : Nat}
    {delegation : Delegation} (hplace : place < UInt64.size) (hstart : tickStart ≤ time)
    (hlast : time < Word.max64) :
    (slotOf tickStart blockTime place delegation).Covers time ↔
      0 < blockTime.toNat ∧ place = (time.toNat - tickStart.toNat) / blockTime.toNat := by
  have hmax : Word.max64.toNat = UInt64.size - 1 := rfl
  rw [UInt64.le_iff_toNat_le] at hstart
  rw [UInt64.lt_iff_toNat_lt, hmax] at hlast
  have hcovers : (slotOf tickStart blockTime place delegation).Covers time ↔
      place * blockTime.toNat ≤ time.toNat - tickStart.toNat ∧
        time.toNat - tickStart.toNat < (place + 1) * blockTime.toNat := by
    rw [Slot.Covers, slotOf, UInt64.le_iff_toNat_le, UInt64.lt_iff_toNat_lt,
      toNat_slotStart hplace, toNat_satAdd_slotStart hplace]
    omega
  rw [hcovers]
  -- without a block time no slot has any time, and the quotient is zero all the same
  rcases Nat.eq_zero_or_pos blockTime.toNat with hzero | hpos
  · simp [hzero]
  · rw [eq_comm, Nat.div_eq_iff hpos, Nat.succ_mul]
    omega

/-! ## The schedule -/

/-- Slots that follow one another from a start. -/
structure Tiles (start : UInt64) (slots : List Slot) : Prop where
  first : ∀ slot ∈ slots.head?, slot.start = start
  /-- Each slot stops where the next one starts. -/
  meet : slots.IsChain fun slot next => slot.stop = next.start
  ascend : slots.Pairwise fun slot later => slot.start ≤ later.start

theorem tiles_schedule {elected : List Delegation} (h : elected.length ≤ UInt64.size)
    (tickStart blockTime : UInt64) : Tiles tickStart (schedule elected tickStart blockTime) := by
  rw [schedule_eq_mapIdx]
  refine ⟨fun slot hslot => ?_, List.isChain_iff_getElem.mpr fun place hplace => ?_,
    List.pairwise_iff_getElem.mpr fun place later hplace hlater hlt => ?_⟩
  · rw [List.head?_eq_getElem?, List.getElem?_mapIdx] at hslot
    obtain ⟨delegation, _, rfl⟩ := Option.map_eq_some_iff.mp hslot
    exact slotStart_zero
  · rw [List.length_mapIdx] at hplace
    rw [List.getElem_mapIdx, List.getElem_mapIdx]
    exact satAdd_slotStart (Nat.lt_of_lt_of_le hplace h)
  · rw [List.length_mapIdx] at hlater
    rw [List.getElem_mapIdx, List.getElem_mapIdx]
    exact slotStart_mono (Nat.le_of_lt hlt) (Nat.lt_of_lt_of_le hlater h)

theorem schedule_names (elected : List Delegation) (tickStart blockTime : UInt64) :
    (schedule elected tickStart blockTime).map (fun slot => (slot.name, slot.producer)) =
      elected.map fun delegation => (delegation.name, delegation.producer) := by
  refine List.ext_getElem? fun place => ?_
  rw [schedule_eq_mapIdx, List.getElem?_map, List.getElem?_mapIdx, Option.map_map,
    List.getElem?_map]
  rfl

/-- A time of the tick before the last one lies in one slot. -/
theorem covered_once {elected : List Delegation} (h : elected.length ≤ UInt64.size)
    {tickStart blockTime time : UInt64} (hstart : tickStart ≤ time) (hlast : time < Word.max64)
    (hend : time.toNat < tickStart.toNat + elected.length * blockTime.toNat) (place : Nat) :
    (∃ slot ∈ (schedule elected tickStart blockTime)[place]?, slot.Covers time) ↔
      place = (time.toNat - tickStart.toNat) / blockTime.toNat := by
  rw [schedule_eq_mapIdx, List.getElem?_mapIdx]
  constructor
  · rintro ⟨slot, hslot, hcovers⟩
    obtain ⟨delegation, hdelegation, rfl⟩ := Option.map_eq_some_iff.mp hslot
    have hplace : place < elected.length := (List.getElem?_eq_some_iff.mp hdelegation).1
    exact ((covers_slotOf_iff (Nat.lt_of_lt_of_le hplace h) hstart hlast).mp hcovers).2
  · intro heq
    have hpassed : time.toNat - tickStart.toNat < blockTime.toNat * elected.length := by
      rw [UInt64.le_iff_toNat_le] at hstart
      rw [Nat.mul_comm]
      omega
    have hpos : 0 < blockTime.toNat :=
      Nat.pos_of_mul_pos_right (Nat.lt_of_le_of_lt (Nat.zero_le _) hpassed)
    have hplace : place < elected.length := heq ▸ Nat.div_lt_of_lt_mul hpassed
    exact ⟨_, Option.map_eq_some_iff.mpr ⟨_, List.getElem?_eq_getElem hplace, rfl⟩,
      (covers_slotOf_iff (Nat.lt_of_lt_of_le hplace h) hstart hlast).mpr ⟨hpos, heq⟩⟩

/-- The elected producers have one slot each, in their order, and the slots tile the tick.  If the
tick ends before time does, each of its times lies in the slot of one place and in no other.  No
list has more places than a word can count. -/
theorem schedule_tiles {elected : List Delegation} (h : elected.length ≤ UInt64.size)
    (tickStart blockTime : UInt64) :
    (schedule elected tickStart blockTime).map (fun slot => (slot.name, slot.producer)) =
        elected.map (fun delegation => (delegation.name, delegation.producer)) ∧
      Tiles tickStart (schedule elected tickStart blockTime) ∧
      (tickStart.toNat + elected.length * blockTime.toNat ≤ Word.max64.toNat →
        ∀ time, tickStart ≤ time →
          time.toNat < tickStart.toNat + elected.length * blockTime.toNat →
          ∀ place, (∃ slot ∈ (schedule elected tickStart blockTime)[place]?, slot.Covers time) ↔
            place = (time.toNat - tickStart.toNat) / blockTime.toNat) := by
  refine ⟨schedule_names elected tickStart blockTime, tiles_schedule h tickStart blockTime, ?_⟩
  intro hfits time hstart hend place
  have hlast : time < Word.max64 := UInt64.lt_iff_toNat_lt.mpr (Nat.lt_of_lt_of_le hend hfits)
  exact covered_once h hstart hlast hend place

/-- Three seats of two pillars. -/
def shared : List Delegation := [.numbered "a" 1 1, .numbered "b" 1 2, .numbered "a" 1 1]

/-- A tick that ends with the last time, at the second before it. -/
theorem schedule_tiles_last :
    shared.length ≤ UInt64.size ∧ (18446744073709551585 : UInt64) ≤ 18446744073709551614 ∧
      ∀ place, (∃ slot ∈ (schedule shared 18446744073709551585 10)[place]?,
        slot.Covers 18446744073709551614) ↔ place = 2 := by
  have hcount : shared.length ≤ UInt64.size := by decide
  obtain ⟨_, _, hcovered⟩ := schedule_tiles hcount 18446744073709551585 10
  exact ⟨hcount, by decide, hcovered (by decide) 18446744073709551614 (by decide) (by decide)⟩

-- the second slot starts and stops with the last time
example : schedule (shared.take 2) 5 Word.max64 =
    [⟨"a", (Delegation.numbered "a" 1 1).producer, 5, Word.max64⟩,
     ⟨"b", (Delegation.numbered "b" 1 2).producer, Word.max64, Word.max64⟩] := by decide

end MomentumChain.Election
