import MomentumChain.Proofs.Contract.Receive

/-!
# All or nothing

A call either fails and leaves the storage as it is, or succeeds and changes the few cells that
are its own (`receive_all_or_nothing`).

* A send that is refused by the check of a method is refused by the run with the same error.
* A send that passes the check can fail for what the run looks up, and for a height that does not
  fit.  `Method.FailsLate` lists these failures.
* The storage is made of cells (`Cell`).  A method writes one or two of them (`Method.Writes`),
  and every other cell holds after the call what it held before (`Frame`).
-/

namespace MomentumChain

theorem Word.add64_eq_error_iff {a b : UInt64} {fault : ArithmeticFault} :
    add64 a b = .error fault ↔ UInt64.size ≤ a.toNat + b.toNat ∧ fault = .overflow := by
  rw [add64]
  split
  · case isTrue hlt =>
      constructor
      · intro h
        cases h
      · rintro ⟨hle, _⟩
        omega
  · case isFalse hle =>
      constructor
      · intro h
        cases h
        exact ⟨Nat.not_lt.mp hle, rfl⟩
      · rintro ⟨_, rfl⟩
        rfl

namespace Contract

/-! ## Cells -/

/-- A part of the storage that can change by itself. -/
inductive Cell where
  | frontier
  | vars
  | fusion (owner : Address) (id : Hash)
  /-- The total fused for a beneficiary. -/
  | total (beneficiary : Address)
  | spork (id : Hash)
  | balance (account : Address) (token : Token)

/-- Two storages hold the same in a cell. -/
def Cell.Agrees (before after : Storage) : Cell → Prop
  | .frontier => after.frontier = before.frontier
  | .vars => after.vars = before.vars
  | .fusion owner id => after.fusions.get? (owner, id) = before.fusions.get? (owner, id)
  | .total beneficiary => after.fused.get? beneficiary = before.fused.get? beneficiary
  | .spork id => after.sporks.get? id = before.sporks.get? id
  | .balance account token =>
      after.balances.get? (account, token) = before.balances.get? (account, token)

/-- Two storages differ in some cells at most. -/
def Frame (cells : List Cell) (before after : Storage) : Prop :=
  ∀ cell, cell ∉ cells → cell.Agrees before after

namespace Frame

variable {cells more : List Cell} {s t u : Storage}

theorem trans (hst : Frame cells s t) (htu : Frame more t u) : Frame (cells ++ more) s u := by
  intro cell hcell
  rw [List.mem_append, not_or] at hcell
  have hs := hst cell hcell.1
  have ht := htu cell hcell.2
  cases cell with
  | frontier | vars | fusion | total | spork | balance => exact ht.trans hs

/-! ## One frame for each setter -/

theorem vars (s : Storage) (vars : Plasma.Variables) : Frame [.vars] s { s with vars } := by
  intro cell hcell
  cases cell with
  | vars => simp at hcell
  | frontier | fusion | total | spork | balance => rfl

theorem saveFusion (s : Storage) (fusion : Fusion) :
    Frame [.fusion fusion.owner fusion.id] s (s.saveFusion fusion) := by
  intro cell hcell
  cases cell with
  | fusion owner id =>
      have hkey : (owner, id) ≠ (fusion.owner, fusion.id) := by simpa using hcell
      exact (Table.get?_insert ..).trans (if_neg hkey)
  | frontier | vars | total | spork | balance => rfl

theorem deleteFusion (s : Storage) (owner : Address) (id : Hash) :
    Frame [.fusion owner id] s (s.deleteFusion owner id) := by
  intro cell hcell
  cases cell with
  | fusion owner' id' =>
      have hkey : (owner', id') ≠ (owner, id) := by simpa using hcell
      exact (Table.get?_erase ..).trans (if_neg hkey)
  | frontier | vars | total | spork | balance => rfl

theorem setFused (s : Storage) (beneficiary : Address) (total : Amount) :
    Frame [.total beneficiary] s (s.setFused beneficiary total) := by
  intro cell hcell
  cases cell with
  | total other =>
      have hkey : other ≠ beneficiary := by simpa using hcell
      by_cases hzero : total = .zero <;>
        simp [Cell.Agrees, Storage.setFused, hzero, Table.get?_insert, Table.get?_erase, hkey]
  | frontier | vars | fusion | spork | balance => rfl

theorem saveSpork (s : Storage) (record : SporkRecord) :
    Frame [.spork record.id] s (s.saveSpork record) := by
  intro cell hcell
  cases cell with
  | spork id =>
      have hkey : id ≠ record.id := by simpa using hcell
      exact (Table.get?_insert ..).trans (if_neg hkey)
  | frontier | vars | fusion | total | balance => rfl

theorem addBalance (s : Storage) (account : Address) (token : Token) (amount : Amount) :
    Frame [.balance account token] s (s.addBalance account token amount) := by
  intro cell hcell
  cases cell with
  | balance account' token' =>
      have hkey : (account', token') ≠ (account, token) := by simpa using hcell
      exact (Table.get?_insert ..).trans (if_neg hkey)
  | frontier | vars | fusion | total | spork => rfl

theorem fuse (s : Storage) (send : Block) (beneficiary : Address) (expirationHeight : UInt64) :
    Frame [.total beneficiary, .fusion send.address send.hash] s
      (s.fuse send beneficiary expirationHeight) := by
  have htotal := setFused s beneficiary ((s.fusedFor beneficiary).satAdd send.amount)
  exact htotal.trans
    (saveFusion _ ⟨send.address, send.hash, send.amount, beneficiary, expirationHeight⟩)

theorem cancel (s : Storage) (owner : Address) (id : Hash) (fusion : Fusion) :
    Frame [.total fusion.beneficiary, .fusion owner id] s (s.cancel owner id fusion) := by
  have htotal :=
    setFused s fusion.beneficiary ((s.fusedFor fusion.beneficiary).satSub fusion.amount)
  exact htotal.trans (deleteFusion _ owner id)

end Frame

/-! ## What a method may do -/

namespace Method

/-- The failures of a send that passes the check of a method. -/
inductive FailsLate (protocol : Protocol) (height : UInt64) : Method → Failure Error → Prop where
  | lockOverflow (overflow : UInt64.size ≤ height.toNat + protocol.fusionLock.toNat) :
      FailsLate protocol height .fuse (.fault .overflow)
  | noFusion : FailsLate protocol height .cancelFuse (.error .noEntry)
  | locked : FailsLate protocol height .cancelFuse (.error .fusionLocked)
  | noSpork : FailsLate protocol height .activateSpork (.error .noEntry)
  | alreadyActive : FailsLate protocol height .activateSpork (.error .alreadyActive)
  | delayOverflow (overflow : UInt64.size ≤ height.toNat + sporkDelay.toNat) :
      FailsLate protocol height .activateSpork (.fault .overflow)

/-- The cells that a method writes. -/
inductive Writes (storage : Storage) (send : Block) : Method → List Cell → Prop where
  | fuse {beneficiary : Address} (reads : parameters .address .fuse send = .ok beneficiary) :
      Writes storage send .fuse [.total beneficiary, .fusion send.address send.hash]
  | cancelFuse {id : Hash} {fusion : Fusion} (reads : parameters .hash .cancelFuse send = .ok id)
      (finds : storage.fusion? send.address id = some fusion) :
      Writes storage send .cancelFuse [.total fusion.beneficiary, .fusion send.address id]
  | setVariables : Writes storage send .setVariables [.vars]
  | createSpork : Writes storage send .createSpork [.spork send.hash]
  | activateSpork {id : Hash} {record : SporkRecord}
      (reads : parameters .hash .activateSpork send = .ok id)
      (finds : storage.spork? id = some record) :
      Writes storage send .activateSpork [.spork record.id]
  | donate : Writes storage send .donate [.balance send.recipient send.token]

end Method

namespace Receives

variable {protocol : Protocol} {storage next : Storage} {send : Block} {method : Method}

theorem eq_refusal {outcome : Except (Failure Error) (List Block)} {error : Error}
    (h : Receives protocol storage send method (outcome, next))
    (refusal : method.validate protocol send = .error error) : outcome = .error (.error error) := by
  cases h with
  | refused refusal' =>
      rw [refusal] at refusal'
      cases refusal'
      rfl
  | fuseFault valid | fused valid | noFusion valid | locked valid | cancelled valid
  | configured valid | created valid | noSpork valid | alreadyActive valid
  | activationFault valid | activated valid | donated valid =>
      rw [refusal] at valid
      cases valid

theorem failsLate {failure : Failure Error}
    (h : Receives protocol storage send method (.error failure, next))
    (valid : method.validate protocol send = .ok ()) :
    method.FailsLate protocol storage.frontier.height failure := by
  cases h with
  | refused refusal =>
      rw [valid] at refusal
      cases refusal
  | fuseFault _ _ expires =>
      obtain ⟨hoverflow, rfl⟩ := Word.add64_eq_error_iff.mp expires
      exact .lockOverflow hoverflow
  | noFusion => exact .noFusion
  | locked => exact .locked
  | noSpork => exact .noSpork
  | alreadyActive => exact .alreadyActive
  | activationFault _ _ _ _ enforced =>
      obtain ⟨hoverflow, rfl⟩ := Word.add64_eq_error_iff.mp enforced
      exact .delayOverflow hoverflow

theorem frame {sent : List Block} (h : Receives protocol storage send method (.ok sent, next)) :
    ∃ cells, method.Writes storage send cells ∧ Frame cells storage next := by
  cases h with
  | fused _ reads => exact ⟨_, .fuse reads, .fuse storage send _ _⟩
  | cancelled _ reads finds => exact ⟨_, .cancelFuse reads finds, .cancel storage _ _ _⟩
  | configured => exact ⟨_, .setVariables, .vars storage _⟩
  | created => exact ⟨_, .createSpork, .saveSpork storage ⟨send.hash, _, _, false, 0⟩⟩
  | @activated _ record enforcementHeight _ reads finds =>
      exact ⟨_, .activateSpork reads finds,
        .saveSpork storage { record with activated := true, enforcementHeight }⟩
  | donated => exact ⟨_, .donate, .addBalance storage _ _ _⟩

end Receives

/-- Every call of a method:

* leaves the storage as it is if it fails;
* is refused with the error of the check if the check refuses the send;
* fails in no way but those of `Method.FailsLate` if the check passes the send;
* leaves all cells but those of `Method.Writes` as they are if it succeeds. -/
theorem receive_all_or_nothing (protocol : Protocol) (storage : Storage) (method : Method)
    (send : Block) :
    let ending := storage.receive protocol method send
    (∀ failure, ending.1 = .error failure → ending.2 = storage) ∧
      (∀ error, method.validate protocol send = .error error →
        ending.1 = .error (.error error)) ∧
      (method.validate protocol send = .ok () → ∀ failure, ending.1 = .error failure →
        method.FailsLate protocol storage.frontier.height failure) ∧
      ∀ sent, ending.1 = .ok sent →
        ∃ cells, method.Writes storage send cells ∧ Frame cells storage ending.2 := by
  intro ending
  have hreceives := receive_receives protocol storage method send
  change Receives protocol storage send method ending at hreceives
  obtain ⟨outcome, next⟩ := ending
  refine ⟨?_, ?_, ?_, ?_⟩
  · rintro failure rfl
    exact hreceives.eq_of_failed
  · intro error refusal
    exact hreceives.eq_refusal refusal
  · rintro valid failure rfl
    exact hreceives.failsLate valid
  · rintro sent rfl
    exact hreceives.frame

end Contract

end MomentumChain
