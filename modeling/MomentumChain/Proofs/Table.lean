import MomentumChain.Table
import Mathlib.Data.List.Perm.Basic

/-!
# The values of a table

A table has the value of a key apart from all its other values (`values_perm`).  A total over
the values of a table is therefore the share of any one key plus the total of what is left once
that key is erased, and an entry that is written or erased changes the total by its own share.
-/

namespace MomentumChain.Table

variable {κ α : Type} [DecidableEq κ]

/-! ## Values and keys -/

theorem mem_entries_iff (table : Table κ α) (key : κ) (value : α) :
    (key, value) ∈ table.entries ↔ table.get? key = some value := by
  constructor
  · intro hmem
    obtain ⟨before, after, hentries⟩ := List.append_of_mem hmem
    have hdistinct := table.distinct
    rw [hentries, List.map_append, List.map_cons, List.nodup_append] at hdistinct
    -- no entry before the first one found has the key
    have hbefore : before.find? (fun entry => entry.1 = key) = none := by
      rw [List.find?_eq_none]
      intro entry hentry
      simpa using hdistinct.2.2 entry.1 (List.mem_map_of_mem hentry) key (by simp)
    simp [get?, hentries, List.find?_append, hbefore]
  · intro hget
    obtain ⟨entry, hfound, hvalue⟩ := Option.map_eq_some_iff.mp hget
    have hkey : entry.1 = key := by simpa using List.find?_some hfound
    rw [← hkey, ← hvalue]
    exact List.mem_of_find?_eq_some hfound

theorem mem_values_iff (table : Table κ α) (value : α) :
    value ∈ table.values ↔ ∃ key, table.get? key = some value := by
  simp only [values, List.mem_map, Prod.exists, ← mem_entries_iff]
  constructor
  · rintro ⟨key, found, hmem, rfl⟩
    exact ⟨key, hmem⟩
  · rintro ⟨key, hmem⟩
    exact ⟨key, value, hmem, rfl⟩

/-! ## One key apart from the others -/

/-- The entries of the other keys are all entries if the key is not listed. -/
theorem without_of_notMem {key : κ} {entries : List (κ × α)}
    (h : key ∉ entries.map Prod.fst) : without key entries = entries := by
  rw [without, List.filter_eq_self]
  intro entry hentry
  have hne : entry.1 ≠ key := fun heq => h (heq ▸ List.mem_map_of_mem hentry)
  simpa using hne

theorem entries_perm (key : κ) {entries : List (κ × α)} (h : (entries.map Prod.fst).Nodup) :
    entries.Perm
      ((entries.find? fun entry => entry.1 = key).toList ++ without key entries) := by
  induction entries with
  | nil => rfl
  | cons entry entries ih =>
      obtain ⟨hnew, htail⟩ := List.nodup_cons.mp h
      by_cases hkey : entry.1 = key
      · have hrest : without key (entry :: entries) = entries := by
          rw [without, List.filter_cons_of_neg (by simpa using hkey)]
          exact without_of_notMem (hkey ▸ hnew)
        simp [hkey, hrest]
      · have hrest : without key (entry :: entries) = entry :: without key entries :=
          List.filter_cons_of_pos (by simpa using hkey)
        rw [hrest, List.find?_cons_of_neg (by simpa using hkey)]
        exact ((ih htail).cons entry).trans List.perm_middle.symm

/-- The values are the value of a key and the values that are left once it is erased. -/
theorem values_perm (table : Table κ α) (key : κ) :
    table.values.Perm ((table.get? key).toList ++ (table.erase key).values) := by
  have h := (entries_perm key table.distinct).map Prod.snd
  rw [List.map_append, ← Option.toList_map] at h
  exact h

@[simp] theorem values_insert (table : Table κ α) (key : κ) (value : α) :
    (table.insert key value).values = value :: (table.erase key).values := rfl

end MomentumChain.Table
