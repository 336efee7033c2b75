/-!
# Tables

A table holds one value for each of finitely many keys.  Its entries are listed
without an order that matters: two tables are used alike if every key has the
same value in both.  `get?_insert` and `get?_erase` say what the operations do.
-/

namespace MomentumChain

/-- Values by distinct keys. -/
structure Table (κ α : Type) where
  /-- The keys with their values. -/
  entries : List (κ × α)
  /-- No key is listed twice. -/
  distinct : (entries.map Prod.fst).Nodup

namespace Table

variable {κ α : Type} [DecidableEq κ]

def empty : Table κ α := ⟨[], .nil⟩

instance : Inhabited (Table κ α) := ⟨empty⟩

/-- The entries of the other keys. -/
def without (key : κ) (entries : List (κ × α)) : List (κ × α) :=
  entries.filter fun entry => entry.1 ≠ key

theorem nodup_without {key : κ} {entries : List (κ × α)}
    (h : (entries.map Prod.fst).Nodup) : ((without key entries).map Prod.fst).Nodup :=
  h.sublist ((List.filter_sublist).map Prod.fst)

theorem notMem_without (key : κ) (entries : List (κ × α)) :
    key ∉ (without key entries).map Prod.fst := by
  intro h
  obtain ⟨entry, hmem, heq⟩ := List.mem_map.mp h
  have hne := (List.mem_filter.mp hmem).2
  simp [heq] at hne

def get? (table : Table κ α) (key : κ) : Option α :=
  (table.entries.find? fun entry => entry.1 = key).map Prod.snd

/-- The table with a value for a key. -/
def insert (key : κ) (value : α) (table : Table κ α) : Table κ α :=
  ⟨(key, value) :: without key table.entries,
    List.nodup_cons.mpr ⟨notMem_without key table.entries, nodup_without table.distinct⟩⟩

def erase (key : κ) (table : Table κ α) : Table κ α :=
  ⟨without key table.entries, nodup_without table.distinct⟩

def values (table : Table κ α) : List α := table.entries.map Prod.snd

/-! ## What the operations do -/

theorem find?_without {key other : κ} (h : other ≠ key) (entries : List (κ × α)) :
    (without key entries).find? (fun entry => entry.1 = other) =
      entries.find? (fun entry => entry.1 = other) := by
  induction entries with
  | nil => rfl
  | cons entry entries ih =>
      by_cases hkey : entry.1 = key
      · have hother : entry.1 ≠ other := fun ho => h (ho.symm.trans hkey)
        simp [without, hkey, Ne.symm h] at ih ⊢
        exact ih
      · by_cases hother : entry.1 = other
        · simp [without, h, hother]
        · simp [without, hkey, hother] at ih ⊢
          exact ih

theorem find?_without_self (key : κ) (entries : List (κ × α)) :
    (without key entries).find? (fun entry => entry.1 = key) = none := by
  rw [List.find?_eq_none]
  intro entry hmem
  simpa using (List.mem_filter.mp hmem).2

theorem get?_insert (table : Table κ α) (key other : κ) (value : α) :
    (table.insert key value).get? other =
      if other = key then some value else table.get? other := by
  by_cases h : other = key
  · subst h
    simp [get?, insert]
  · have hne : ¬ key = other := fun he => h he.symm
    simp [get?, insert, h, hne, find?_without h]

theorem get?_erase (table : Table κ α) (key other : κ) :
    (table.erase key).get? other = if other = key then none else table.get? other := by
  by_cases h : other = key
  · subst h
    simp [get?, erase, find?_without_self]
  · simp [get?, erase, h, find?_without h]

end Table

end MomentumChain
