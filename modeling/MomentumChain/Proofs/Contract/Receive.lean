import MomentumChain.Contract.Receive
import MomentumChain.Proofs.Contract.Validate

/-!
# What a call does

A contract receives a send by running a method on the storage.  `Receives` lists all ends of
such a run, each with the checks and look-ups that lead to it, the outcome, and the storage
that it leaves behind.  `receive_receives` says that the list is complete.  Statements on calls
and on runs are read off the list, and none of them looks at the program of a method again.

Two things stand out in the list.

* A method that succeeds changes one part of the storage (`Storage.fuse`, `Storage.cancel` and
  the setters of the storage).
* A method that fails changes nothing, be it by an error or by a height that does not fit.
-/

namespace MomentumChain

/-- A sum that fits is exact. -/
theorem Word.toNat_of_add64 {a b c : UInt64} (h : add64 a b = .ok c) :
    c.toNat = a.toNat + b.toNat := by
  simp only [add64] at h
  split at h
  · case isTrue hlt =>
      cases h
      rw [UInt64.toNat_add]
      exact Nat.mod_eq_of_lt hlt
  · cases h

namespace Contract

/-! ## Parts of a run -/

namespace Run

/-- What a part of a run does from a storage. -/
def runOn {α : Type} (run : Run α) (storage : Storage) : Except (Failure Error) α × Storage :=
  run.run.run storage

variable {α β : Type} {storage : Storage}

@[simp] theorem runOn_pure (a : α) : runOn (pure a) storage = (.ok a, storage) := rfl

@[simp] theorem runOn_get : runOn get storage = (.ok storage, storage) := rfl

@[simp] theorem runOn_throw (e : Failure Error) :
    runOn (throw e : Run α) storage = (.error e, storage) := rfl

@[simp] theorem runOn_ofExcept (c : Except Error α) :
    runOn (ofExcept c) storage = (Failure.ofExcept c, storage) := rfl

@[simp] theorem runOn_ofChecked (c : Checked α) :
    runOn (ofChecked c) storage = (Failure.ofChecked c, storage) := rfl

@[simp] theorem runOn_modify (change : Storage → Storage) :
    runOn (modify change) storage = (.ok (), change storage) := rfl

/-- A failure ends the run, and what was written before stays written. -/
@[simp] theorem runOn_bind (x : Run α) (f : α → Run β) :
    runOn (x >>= f) storage =
      match runOn x storage with
      | (.ok a, next) => runOn (f a) next
      | (.error e, next) => (.error e, next) := by
  show (ExceptT.bindCont f (runOn x storage).1 : StateM Storage _) (runOn x storage).2 = _
  cases runOn x storage with
  | mk outcome next => cases outcome <;> rfl

@[simp] theorem runOn_map (f : α → β) (x : Run α) :
    runOn (f <$> x) storage =
      match runOn x storage with
      | (.ok a, next) => (.ok (f a), next)
      | (.error e, next) => (.error e, next) := by
  rw [map_eq_pure_bind, runOn_bind]
  rfl

end Run

/-! ## Storage after a call -/

namespace Storage

/-- The storage after coins are locked. -/
def fuse (storage : Storage) (send : Block) (beneficiary : Address) (expirationHeight : UInt64) :
    Storage :=
  (storage.setFused beneficiary ((storage.fusedFor beneficiary).satAdd send.amount)).saveFusion
    ⟨send.address, send.hash, send.amount, beneficiary, expirationHeight⟩

/-- The storage after a fusion of an owner is cancelled. -/
def cancel (storage : Storage) (owner : Address) (id : Hash) (fusion : Fusion) : Storage :=
  (storage.setFused fusion.beneficiary
    ((storage.fusedFor fusion.beneficiary).satSub fusion.amount)).deleteFusion owner id

/-- What a contract does with a send that calls a method. -/
def receive (protocol : Protocol) (storage : Storage) (method : Method) (send : Block) :
    Except (Failure Error) (List Block) × Storage :=
  Run.runOn (method.receive protocol send) storage

end Storage

/-! ## The ends of a call -/

/-- The ends of a call. -/
inductive Receives (protocol : Protocol) (storage : Storage) (send : Block) :
    Method → Except (Failure Error) (List Block) × Storage → Prop where
  | refused {method : Method} {error : Error}
      (refusal : method.validate protocol send = .error error) :
      Receives protocol storage send method (.error (.error error), storage)
  | fuseFault {beneficiary : Address} {fault : ArithmeticFault}
      (valid : Method.validate protocol .fuse send = .ok ())
      (reads : Method.parameters .address .fuse send = .ok beneficiary)
      (expires : Word.add64 storage.frontier.height protocol.fusionLock = .error fault) :
      Receives protocol storage send .fuse (.error (.fault fault), storage)
  | fused {beneficiary : Address} {expirationHeight : UInt64}
      (valid : Method.validate protocol .fuse send = .ok ())
      (reads : Method.parameters .address .fuse send = .ok beneficiary)
      (expires : Word.add64 storage.frontier.height protocol.fusionLock = .ok expirationHeight) :
      Receives protocol storage send .fuse
        (.ok [], storage.fuse send beneficiary expirationHeight)
  | noFusion {id : Hash} (valid : Method.validate protocol .cancelFuse send = .ok ())
      (reads : Method.parameters .hash .cancelFuse send = .ok id)
      (finds : storage.fusion? send.address id = none) :
      Receives protocol storage send .cancelFuse (.error (.error .noEntry), storage)
  | locked {id : Hash} {fusion : Fusion}
      (valid : Method.validate protocol .cancelFuse send = .ok ())
      (reads : Method.parameters .hash .cancelFuse send = .ok id)
      (finds : storage.fusion? send.address id = some fusion)
      (early : storage.frontier.height < fusion.expirationHeight) :
      Receives protocol storage send .cancelFuse (.error (.error .fusionLocked), storage)
  | cancelled {id : Hash} {fusion : Fusion}
      (valid : Method.validate protocol .cancelFuse send = .ok ())
      (reads : Method.parameters .hash .cancelFuse send = .ok id)
      (finds : storage.fusion? send.address id = some fusion)
      (due : fusion.expirationHeight ≤ storage.frontier.height) :
      Receives protocol storage send .cancelFuse
        (.ok [Method.refund protocol fusion send.address], storage.cancel send.address id fusion)
  | configured {vars : Plasma.Variables}
      (valid : Method.validate protocol .setVariables send = .ok ())
      (reads : Method.parameters .plasmaVariables .setVariables send = .ok vars) :
      Receives protocol storage send .setVariables (.ok [], { storage with vars })
  | created {name description : String}
      (valid : Method.validate protocol .createSpork send = .ok ())
      (reads : Method.parameters (.pair .text .text) .createSpork send = .ok (name, description)) :
      Receives protocol storage send .createSpork
        (.ok [], storage.saveSpork ⟨send.hash, name, description, false, 0⟩)
  | noSpork {id : Hash} (valid : Method.validate protocol .activateSpork send = .ok ())
      (reads : Method.parameters .hash .activateSpork send = .ok id)
      (finds : storage.spork? id = none) :
      Receives protocol storage send .activateSpork (.error (.error .noEntry), storage)
  | alreadyActive {id : Hash} {record : SporkRecord}
      (valid : Method.validate protocol .activateSpork send = .ok ())
      (reads : Method.parameters .hash .activateSpork send = .ok id)
      (finds : storage.spork? id = some record) (active : record.activated = true) :
      Receives protocol storage send .activateSpork (.error (.error .alreadyActive), storage)
  | activationFault {id : Hash} {record : SporkRecord} {fault : ArithmeticFault}
      (valid : Method.validate protocol .activateSpork send = .ok ())
      (reads : Method.parameters .hash .activateSpork send = .ok id)
      (finds : storage.spork? id = some record) (inactive : record.activated = false)
      (enforced : Word.add64 storage.frontier.height sporkDelay = .error fault) :
      Receives protocol storage send .activateSpork (.error (.fault fault), storage)
  | activated {id : Hash} {record : SporkRecord} {enforcementHeight : UInt64}
      (valid : Method.validate protocol .activateSpork send = .ok ())
      (reads : Method.parameters .hash .activateSpork send = .ok id)
      (finds : storage.spork? id = some record) (inactive : record.activated = false)
      (enforced : Word.add64 storage.frontier.height sporkDelay = .ok enforcementHeight) :
      Receives protocol storage send .activateSpork
        (.ok [], storage.saveSpork { record with activated := true, enforcementHeight })
  | donated (valid : Method.validate protocol .donate send = .ok ()) :
      Receives protocol storage send .donate
        (.ok [], storage.addBalance send.recipient send.token send.amount)

/-! ## Calls that succeed -/

section

variable {protocol : Protocol} {storage : Storage} {send : Block}

theorem receive_fuse {beneficiary : Address} {expirationHeight : UInt64}
    (valid : Method.validate protocol .fuse send = .ok ())
    (reads : Method.parameters .address .fuse send = .ok beneficiary)
    (expires : Word.add64 storage.frontier.height protocol.fusionLock = .ok expirationHeight) :
    storage.receive protocol .fuse send =
      (.ok [], storage.fuse send beneficiary expirationHeight) := by
  simp [Storage.receive, Method.receive, Method.receiveFuse, valid, reads, expires,
    Failure.ofExcept, Failure.ofChecked, Storage.fuse]

theorem receive_cancelFuse {id : Hash} {fusion : Fusion}
    (valid : Method.validate protocol .cancelFuse send = .ok ())
    (reads : Method.parameters .hash .cancelFuse send = .ok id)
    (finds : storage.fusion? send.address id = some fusion)
    (due : fusion.expirationHeight ≤ storage.frontier.height) :
    storage.receive protocol .cancelFuse send =
      (.ok [Method.refund protocol fusion send.address],
        storage.cancel send.address id fusion) := by
  simp [Storage.receive, Method.receive, Method.receiveCancelFuse, valid, reads, finds,
    UInt64.not_lt.mpr due, Failure.ofExcept, Storage.cancel]

theorem receive_setVariables {vars : Plasma.Variables}
    (valid : Method.validate protocol .setVariables send = .ok ())
    (reads : Method.parameters .plasmaVariables .setVariables send = .ok vars) :
    storage.receive protocol .setVariables send = (.ok [], { storage with vars }) := by
  simp [Storage.receive, Method.receive, Method.receiveSetVariables, valid, reads,
    Failure.ofExcept]

theorem receive_createSpork {name description : String}
    (valid : Method.validate protocol .createSpork send = .ok ())
    (reads : Method.parameters (.pair .text .text) .createSpork send = .ok (name, description)) :
    storage.receive protocol .createSpork send =
      (.ok [], storage.saveSpork ⟨send.hash, name, description, false, 0⟩) := by
  simp [Storage.receive, Method.receive, Method.receiveCreateSpork, valid, reads,
    Failure.ofExcept]

theorem receive_activateSpork {id : Hash} {record : SporkRecord} {enforcementHeight : UInt64}
    (valid : Method.validate protocol .activateSpork send = .ok ())
    (reads : Method.parameters .hash .activateSpork send = .ok id)
    (finds : storage.spork? id = some record) (inactive : record.activated = false)
    (enforced : Word.add64 storage.frontier.height sporkDelay = .ok enforcementHeight) :
    storage.receive protocol .activateSpork send =
      (.ok [], storage.saveSpork { record with activated := true, enforcementHeight }) := by
  simp [Storage.receive, Method.receive, Method.receiveActivateSpork, valid, reads, finds,
    inactive, enforced, Failure.ofExcept, Failure.ofChecked]

theorem receive_donate (valid : Method.validate protocol .donate send = .ok ()) :
    storage.receive protocol .donate send =
      (.ok [], storage.addBalance send.recipient send.token send.amount) := by
  simp [Storage.receive, Method.receive, Method.receiveDonate, valid, Failure.ofExcept]

/-! ## The list is complete -/

theorem fuse_receives (valid : Method.validate protocol .fuse send = .ok ()) :
    Receives protocol storage send .fuse (storage.receive protocol .fuse send) := by
  obtain ⟨⟨beneficiary, hreads⟩, _⟩ := Method.validate_fuse_iff.mp valid
  cases hexpires : Word.add64 storage.frontier.height protocol.fusionLock with
  | error fault =>
      have hreceive : storage.receive protocol .fuse send = (.error (.fault fault), storage) := by
        simp [Storage.receive, Method.receive, Method.receiveFuse, valid, hreads, hexpires,
          Failure.ofExcept, Failure.ofChecked]
      rw [hreceive]
      exact .fuseFault valid hreads hexpires
  | ok expirationHeight =>
      rw [receive_fuse valid hreads hexpires]
      exact .fused valid hreads hexpires

theorem cancelFuse_receives (valid : Method.validate protocol .cancelFuse send = .ok ()) :
    Receives protocol storage send .cancelFuse (storage.receive protocol .cancelFuse send) := by
  obtain ⟨⟨id, hreads⟩, _⟩ := Method.validate_cancelFuse_iff.mp valid
  cases hfinds : storage.fusion? send.address id with
  | none =>
      have hreceive : storage.receive protocol .cancelFuse send =
          (.error (.error .noEntry), storage) := by
        simp [Storage.receive, Method.receive, Method.receiveCancelFuse, valid, hreads, hfinds,
          Failure.ofExcept]
      rw [hreceive]
      exact .noFusion valid hreads hfinds
  | some fusion =>
      by_cases hearly : storage.frontier.height < fusion.expirationHeight
      · have hreceive : storage.receive protocol .cancelFuse send =
            (.error (.error .fusionLocked), storage) := by
          simp [Storage.receive, Method.receive, Method.receiveCancelFuse, valid, hreads, hfinds,
            hearly, Failure.ofExcept]
        rw [hreceive]
        exact .locked valid hreads hfinds hearly
      · have hdue := UInt64.not_lt.mp hearly
        rw [receive_cancelFuse valid hreads hfinds hdue]
        exact .cancelled valid hreads hfinds hdue

theorem setVariables_receives (valid : Method.validate protocol .setVariables send = .ok ()) :
    Receives protocol storage send .setVariables (storage.receive protocol .setVariables send) := by
  obtain ⟨_, vars, hreads, _⟩ := Method.validate_setVariables_iff.mp valid
  rw [receive_setVariables valid hreads]
  exact .configured valid hreads

theorem createSpork_receives (valid : Method.validate protocol .createSpork send = .ok ()) :
    Receives protocol storage send .createSpork (storage.receive protocol .createSpork send) := by
  obtain ⟨_, name, description, hreads, _⟩ := Method.validate_createSpork_iff.mp valid
  rw [receive_createSpork valid hreads]
  exact .created valid hreads

theorem activateSpork_receives (valid : Method.validate protocol .activateSpork send = .ok ()) :
    Receives protocol storage send .activateSpork
      (storage.receive protocol .activateSpork send) := by
  obtain ⟨_, id, hreads⟩ := Method.validate_activateSpork_iff.mp valid
  cases hfinds : storage.spork? id with
  | none =>
      have hreceive : storage.receive protocol .activateSpork send =
          (.error (.error .noEntry), storage) := by
        simp [Storage.receive, Method.receive, Method.receiveActivateSpork, valid, hreads, hfinds,
          Failure.ofExcept]
      rw [hreceive]
      exact .noSpork valid hreads hfinds
  | some record =>
      cases hactive : record.activated with
      | true =>
          have hreceive : storage.receive protocol .activateSpork send =
              (.error (.error .alreadyActive), storage) := by
            simp [Storage.receive, Method.receive, Method.receiveActivateSpork, valid, hreads,
              hfinds, hactive, Failure.ofExcept]
          rw [hreceive]
          exact .alreadyActive valid hreads hfinds hactive
      | false =>
          cases henforced : Word.add64 storage.frontier.height sporkDelay with
          | error fault =>
              have hreceive : storage.receive protocol .activateSpork send =
                  (.error (.fault fault), storage) := by
                simp [Storage.receive, Method.receive, Method.receiveActivateSpork, valid, hreads,
                  hfinds, hactive, henforced, Failure.ofExcept, Failure.ofChecked]
              rw [hreceive]
              exact .activationFault valid hreads hfinds hactive henforced
          | ok enforcementHeight =>
              rw [receive_activateSpork valid hreads hfinds hactive henforced]
              exact .activated valid hreads hfinds hactive henforced

theorem donate_receives (valid : Method.validate protocol .donate send = .ok ()) :
    Receives protocol storage send .donate (storage.receive protocol .donate send) := by
  rw [receive_donate valid]
  exact .donated valid

/-- A call that is refused ends before the storage is looked at. -/
theorem refused_receives {method : Method} {error : Error}
    (refusal : method.validate protocol send = .error error) :
    Receives protocol storage send method (storage.receive protocol method send) := by
  have hreceive : storage.receive protocol method send = (.error (.error error), storage) := by
    cases method <;>
      simp [Storage.receive, Method.receive, Method.receiveFuse, Method.receiveCancelFuse,
        Method.receiveSetVariables, Method.receiveCreateSpork, Method.receiveActivateSpork,
        Method.receiveDonate, refusal, Failure.ofExcept]
  rw [hreceive]
  exact .refused refusal

/-- A call ends in one of the ways listed. -/
theorem receive_receives (protocol : Protocol) (storage : Storage) (method : Method)
    (send : Block) :
    Receives protocol storage send method (storage.receive protocol method send) := by
  cases hvalid : method.validate protocol send with
  | error error => exact refused_receives hvalid
  | ok _ =>
      cases method with
      | fuse => exact fuse_receives hvalid
      | cancelFuse => exact cancelFuse_receives hvalid
      | setVariables => exact setVariables_receives hvalid
      | createSpork => exact createSpork_receives hvalid
      | activateSpork => exact activateSpork_receives hvalid
      | donate => exact donate_receives hvalid

/-- A call that fails leaves the storage as it is. -/
theorem Receives.eq_of_failed {method : Method} {failure : Failure Error} {next : Storage}
    (h : Receives protocol storage send method (.error failure, next)) : next = storage := by
  cases h with
  | refused | fuseFault | noFusion | locked | noSpork | alreadyActive | activationFault => rfl

end

end Contract

end MomentumChain
