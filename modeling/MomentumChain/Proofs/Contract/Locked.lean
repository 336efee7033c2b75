import Mathlib
import MomentumChain.Proofs.Contract.Receive
import MomentumChain.Proofs.Table

/-!
# Locked coins

The storage keeps each fusion under its owner and number, and apart from them a total for each
beneficiary.  This module says what a `Storage.fuse` and a `Storage.cancel` do to both: to a
single fusion (`fusion?_fuse`, `fusion?_cancel`), to a total (`fusedFor_fuse`,
`fusedFor_cancel`), and to the coins locked by all the fusions of a kind (`locked_fuse`,
`locked_cancel`).
-/

namespace MomentumChain.Contract

namespace Fusion

/-- The coins of a fusion that count for a kind of fusions. -/
def share (p : Fusion → Bool) (fusion : Fusion) : Nat :=
  if p fusion then fusion.amount.toNat else 0

theorem share_all (fusion : Fusion) : fusion.share (fun _ => true) = fusion.amount.toNat := rfl

end Fusion

namespace Storage

/-- The coins locked by the stored fusions of a kind. -/
def locked (storage : Storage) (p : Fusion → Bool) : Nat :=
  ((storage.fusions.values.filter p).map (·.amount.toNat)).sum

variable {storage : Storage}

/-! ## One fusion -/

@[simp] theorem fusion?_fuse (send : Block) (beneficiary : Address) (expirationHeight : UInt64)
    (owner : Address) (id : Hash) :
    (storage.fuse send beneficiary expirationHeight).fusion? owner id =
      if (owner, id) = (send.address, send.hash) then
        some ⟨send.address, send.hash, send.amount, beneficiary, expirationHeight⟩
      else storage.fusion? owner id :=
  Table.get?_insert storage.fusions (send.address, send.hash) (owner, id) _

@[simp] theorem fusion?_cancel (owner : Address) (id : Hash) (fusion : Fusion)
    (owner' : Address) (id' : Hash) :
    (storage.cancel owner id fusion).fusion? owner' id' =
      if (owner', id') = (owner, id) then none else storage.fusion? owner' id' :=
  Table.get?_erase storage.fusions (owner, id) (owner', id')

/-! ## The total of a beneficiary -/

theorem fusedFor_setFused (beneficiary : Address) (total : Amount) (other : Address) :
    (storage.setFused beneficiary total).fusedFor other =
      if other = beneficiary then total else storage.fusedFor other := by
  by_cases hzero : total = .zero <;> by_cases hother : other = beneficiary <;>
    simp [setFused, fusedFor, hzero, hother, Table.get?_insert, Table.get?_erase]

/-- A total of zero is not stored. -/
theorem get?_setFused_ne_zero {other : Address} (h : storage.fused.get? other ≠ some .zero)
    (beneficiary : Address) (total : Amount) :
    (storage.setFused beneficiary total).fused.get? other ≠ some .zero := by
  by_cases hzero : total = .zero <;> by_cases hother : other = beneficiary <;>
    simp [setFused, hzero, hother, Table.get?_insert, Table.get?_erase, h]

@[simp] theorem fusedFor_fuse (send : Block) (beneficiary : Address) (expirationHeight : UInt64)
    (other : Address) :
    (storage.fuse send beneficiary expirationHeight).fusedFor other =
      if other = beneficiary then (storage.fusedFor beneficiary).satAdd send.amount
      else storage.fusedFor other :=
  fusedFor_setFused beneficiary _ other

@[simp] theorem fusedFor_cancel (owner : Address) (id : Hash) (fusion : Fusion)
    (other : Address) :
    (storage.cancel owner id fusion).fusedFor other =
      if other = fusion.beneficiary then
        (storage.fusedFor fusion.beneficiary).satSub fusion.amount
      else storage.fusedFor other :=
  fusedFor_setFused fusion.beneficiary _ other

/-! ## All fusions of a kind -/

/-- The fusion stored under a key apart from all others. -/
theorem locked_deleteFusion (p : Fusion → Bool) (owner : Address) (id : Hash) :
    storage.locked p =
      (storage.fusion? owner id).elim 0 (Fusion.share p) +
        (storage.deleteFusion owner id).locked p := by
  have hperm := ((storage.fusions.values_perm (owner, id)).filter p).map (·.amount.toNat)
  have hsum := hperm.sum_nat
  rw [List.filter_append, List.map_append, List.sum_append_nat] at hsum
  rw [locked, hsum, fusion?, locked, deleteFusion]
  cases storage.fusions.get? (owner, id) with
  | none => rfl
  | some fusion => by_cases hp : p fusion <;> simp [Fusion.share, hp]

theorem locked_saveFusion (p : Fusion → Bool) (fusion : Fusion) :
    (storage.saveFusion fusion).locked p =
      fusion.share p + (storage.deleteFusion fusion.owner fusion.id).locked p := by
  rw [locked, saveFusion, Table.values_insert, List.filter_cons]
  by_cases hp : p fusion <;> simp [Fusion.share, hp, locked, deleteFusion]

/-- What is written and what was there before balance what is replaced and what is there now. -/
theorem locked_fuse (p : Fusion → Bool) (send : Block) (beneficiary : Address)
    (expirationHeight : UInt64) :
    (storage.fuse send beneficiary expirationHeight).locked p +
        (storage.fusion? send.address send.hash).elim 0 (Fusion.share p) =
      storage.locked p +
        Fusion.share p ⟨send.address, send.hash, send.amount, beneficiary, expirationHeight⟩ := by
  have hbefore := storage.locked_deleteFusion p send.address send.hash
  rw [fuse, locked_saveFusion, hbefore]
  simp only [locked, deleteFusion, setFused]
  omega

theorem locked_cancel (p : Fusion → Bool) {owner : Address} {id : Hash} {fusion : Fusion}
    (finds : storage.fusion? owner id = some fusion) :
    storage.locked p = fusion.share p + (storage.cancel owner id fusion).locked p := by
  rw [locked_deleteFusion p owner id, finds]
  rfl

/-- No fusion of a kind has more coins than all together. -/
theorem locked_le (p : Fusion → Bool) :
    storage.locked p ≤ storage.locked fun _ => true := by
  rw [locked, locked, List.filter_true]
  exact (List.filter_sublist.map _).sum_le_sum fun _ _ => Nat.zero_le _

end Storage

end MomentumChain.Contract
