import MomentumChain.Proofs.Contract.FusionLedger

/-!
# Refunds

A fusion is known under its owner and number.  In the past of a run, such a key is outstanding
if its last fusion has not been cancelled (`Outstanding`).  The storage keeps a fusion exactly
for the keys that are outstanding, with the coins of that last fusion and the height at which
its lock ends (`Tracked`).  This makes refunds due, exact and single: a cancellation that
succeeds finds the fusion, returns its coins and forgets it.

A call acts on a key in one of three ways (`ActsOn`).  It fuses under the key, it cancels the
key, or it leaves the key alone.  Only the owner of the key can do one of the first two.
-/

namespace MomentumChain.Contract

/-! ## Calls on a key -/

/-- The call locks coins under a key. -/
structure Success.Fuses (success : Success) (owner : Address) (id : Hash) : Prop where
  method : success.method = .fuse
  owner : success.send.address = owner
  id : success.send.hash = id

/-- The call cancels the fusion under a key. -/
structure Success.Cancels (success : Success) (owner : Address) (id : Hash) : Prop where
  method : success.method = .cancelFuse
  owner : success.send.address = owner
  names : Method.parameters .hash .cancelFuse success.send = .ok id

/-- The last fusion under a key, if the key has not been cancelled since. -/
def Outstanding (past : List Success) (owner : Address) (id : Hash) (fuse : Success) : Prop :=
  ∃ earlier later, past = earlier ++ fuse :: later ∧ fuse.Fuses owner id ∧
    ∀ success ∈ later, ¬ success.Fuses owner id ∧ ¬ success.Cancels owner id

theorem outstanding_concat_iff {past : List Success} {last : Success} {owner : Address} {id : Hash}
    {fuse : Success} :
    Outstanding (past ++ [last]) owner id fuse ↔
      (last = fuse ∧ last.Fuses owner id) ∨
        ((¬ last.Fuses owner id ∧ ¬ last.Cancels owner id) ∧ Outstanding past owner id fuse) := by
  constructor
  · rintro ⟨earlier, later, hpast, hfuses, hlater⟩
    rcases concat_eq_append_cons_iff.mp hpast with ⟨_, rfl, _⟩ | ⟨rest, rfl, hrest⟩
    · exact .inl ⟨rfl, hfuses⟩
    · have hlast := hlater last (by simp)
      have hbefore : ∀ success ∈ rest, ¬ success.Fuses owner id ∧ ¬ success.Cancels owner id :=
        fun success hmem => hlater success (List.mem_append_left _ hmem)
      exact .inr ⟨hlast, earlier, rest, hrest, hfuses, hbefore⟩
  · rintro (⟨rfl, hfuses⟩ | ⟨hlast, earlier, later, rfl, hfuses, hlater⟩)
    · exact ⟨past, [], rfl, hfuses, nofun⟩
    · refine ⟨earlier, later ++ [last], by simp, hfuses, ?_⟩
      intro success hmem
      rcases List.mem_append.mp hmem with hmem | hmem
      · exact hlater success hmem
      · cases List.mem_singleton.mp hmem
        exact hlast

/-! ## What a call does to a key -/

/-- The fusion that a call stores. -/
structure Success.Stores (protocol : Protocol) (fuse : Success) (fusion : Fusion) : Prop where
  owner : fusion.owner = fuse.send.address
  amount : fusion.amount = fuse.send.amount
  expires : fusion.expirationHeight.toNat = fuse.height.toNat + protocol.fusionLock.toNat

/-- How a call acts on the fusion that is stored under a key. -/
inductive ActsOn (protocol : Protocol) (success : Success) (owner : Address) (id : Hash) :
    Option Fusion → Option Fusion → Prop where
  | fuses {before : Option Fusion} {fusion : Fusion} (fuses : success.Fuses owner id)
      (stores : success.Stores protocol fusion) :
      ActsOn protocol success owner id before (some fusion)
  | cancels {fusion : Fusion} (cancels : success.Cancels owner id)
      (due : fusion.expirationHeight ≤ success.height)
      (sent : success.sent = [Method.refund protocol fusion owner]) :
      ActsOn protocol success owner id (some fusion) none
  | leaves {stored : Option Fusion} (noFuse : ¬ success.Fuses owner id)
      (noCancel : ¬ success.Cancels owner id) :
      ActsOn protocol success owner id stored stored

namespace ActsOn

variable {protocol : Protocol} {success : Success} {owner : Address} {id : Hash}
  {before after : Option Fusion}

theorem of_fuses (h : ActsOn protocol success owner id before after)
    (hfuses : success.Fuses owner id) :
    ∃ fusion, after = some fusion ∧ success.Stores protocol fusion := by
  cases h with
  | fuses _ stores => exact ⟨_, rfl, stores⟩
  | cancels cancels => exact nomatch hfuses.method.symm.trans cancels.method
  | leaves noFuse => exact absurd hfuses noFuse

theorem of_cancels (h : ActsOn protocol success owner id before after)
    (hcancels : success.Cancels owner id) :
    ∃ fusion, before = some fusion ∧ fusion.expirationHeight ≤ success.height ∧
      success.sent = [Method.refund protocol fusion owner] := by
  cases h with
  | fuses fuses => exact nomatch hcancels.method.symm.trans fuses.method
  | cancels _ due sent => exact ⟨_, rfl, due, sent⟩
  | leaves _ noCancel => exact absurd hcancels noCancel

theorem of_leaves (h : ActsOn protocol success owner id before after)
    (noFuse : ¬ success.Fuses owner id) (noCancel : ¬ success.Cancels owner id) :
    after = before := by
  cases h with
  | fuses fuses => exact absurd fuses noFuse
  | cancels cancels => exact absurd cancels noCancel
  | leaves => rfl

/-- A fusion that is stored after a call has been stored by the call or before it. -/
theorem of_some {fusion : Fusion} (h : ActsOn protocol success owner id before (some fusion)) :
    (success.Fuses owner id ∧ success.Stores protocol fusion) ∨
      ((¬ success.Fuses owner id ∧ ¬ success.Cancels owner id) ∧ before = some fusion) := by
  cases h with
  | fuses fuses stores => exact .inl ⟨fuses, stores⟩
  | leaves noFuse noCancel => exact .inr ⟨⟨noFuse, noCancel⟩, rfl⟩

end ActsOn

section

variable {protocol : Protocol}

/-- Each call that succeeds acts on each key in one of the three ways. -/
theorem Receives.actsOn {storage next : Storage} {send : Block} {method : Method}
    {sent : List Block} (received : Receives protocol storage send method (.ok sent, next))
    (owner : Address) (id : Hash) :
    ActsOn protocol ⟨method, send, sent, storage.frontier.height⟩ owner id
      (storage.fusion? owner id) (next.fusion? owner id) := by
  cases received with
  | fused valid reads expires =>
      rw [Storage.fusion?_fuse]
      by_cases hkey : (owner, id) = (send.address, send.hash)
      · cases hkey
        rw [if_pos rfl]
        exact .fuses ⟨rfl, rfl, rfl⟩ ⟨rfl, rfl, Word.toNat_of_add64 expires⟩
      · rw [if_neg hkey]
        exact .leaves (fun h => hkey (Prod.ext h.owner.symm h.id.symm)) (fun h => nomatch h.method)
  | @cancelled called fusion valid reads finds due =>
      rw [Storage.fusion?_cancel]
      by_cases hkey : (owner, id) = (send.address, called)
      · cases hkey
        rw [if_pos rfl, finds]
        exact .cancels ⟨rfl, rfl, reads⟩ due rfl
      · rw [if_neg hkey]
        have hother : ¬ Success.Cancels ⟨.cancelFuse, send,
            [Method.refund protocol fusion send.address], storage.frontier.height⟩ owner id := by
          intro h
          have hid : called = id := by simpa [reads] using h.names
          exact hkey (Prod.ext h.owner.symm hid.symm)
        exact .leaves (fun h => nomatch h.method) hother
  | configured | created | activated | donated =>
      exact .leaves (fun h => nomatch h.method) (fun h => nomatch h.method)

/-! ## The fusions of a run -/

/-- The storage keeps a fusion for each key that is outstanding, and no other. -/
structure Tracked (protocol : Protocol) (s : History) : Prop where
  stored : ∀ {owner id fuse}, Outstanding s.past owner id fuse →
    ∃ fusion, s.storage.fusion? owner id = some fusion ∧ fuse.Stores protocol fusion
  made : ∀ {owner id fusion}, s.storage.fusion? owner id = some fusion →
    ∃ fuse, Outstanding s.past owner id fuse ∧ fuse.Stores protocol fusion

theorem tracked_start (genesis : Momentum) : Tracked protocol (.start genesis) where
  stored := by
    rintro _ _ _ ⟨_, _, h, _⟩
    simp [History.start] at h
  made h := nomatch h

theorem moves_tracked {s t : History} (hmoves : Moves protocol s t) (h : Tracked protocol s) :
    Tracked protocol t := by
  cases hmoves with
  | quiet => exact ⟨h.stored, h.made⟩
  | succeeds received =>
      have hacts := received.actsOn
      constructor
      · intro owner id fuse houtstanding
        rcases outstanding_concat_iff.mp houtstanding with ⟨rfl, hfuses⟩ | ⟨hleaves, hbefore⟩
        · exact (hacts owner id).of_fuses hfuses
        · obtain ⟨fusion, hfinds, hstores⟩ := h.stored hbefore
          exact ⟨fusion, ((hacts owner id).of_leaves hleaves.1 hleaves.2).trans hfinds, hstores⟩
      · intro owner id fusion hfinds
        have hkey := hacts owner id
        rw [hfinds] at hkey
        rcases hkey.of_some with ⟨hfuses, hstores⟩ | ⟨hleaves, hbefore⟩
        · exact ⟨_, outstanding_concat_iff.mpr (.inl ⟨rfl, hfuses⟩), hstores⟩
        · obtain ⟨fuse, houtstanding, hstores⟩ := h.made hbefore
          exact ⟨fuse, outstanding_concat_iff.mpr (.inr ⟨hleaves, houtstanding⟩), hstores⟩

/-! ## Refunds are due and exact -/

/-- The block that returns the coins of a fusion. -/
def refundOf (protocol : Protocol) (fuse : Success) (owner : Address) : Block :=
  { kind := .contractSend
    address := .plasmaContract
    recipient := owner
    amount := fuse.send.amount
    token := protocol.qsr }

/-- Each cancellation of the past returns the coins of a fusion that was outstanding and due. -/
def Justified (protocol : Protocol) (past : List Success) : Prop :=
  ∀ earlier cancel later owner id, past = earlier ++ cancel :: later → cancel.Cancels owner id →
    ∃ fuse, Outstanding earlier owner id fuse ∧
      fuse.height.toNat + protocol.fusionLock.toNat ≤ cancel.height.toNat ∧
      cancel.sent = [refundOf protocol fuse owner]

theorem Tracked.justified_concat {s : History} (h : Tracked protocol s)
    (hjustified : Justified protocol s.past) {success : Success}
    {after : Address → Hash → Option Fusion}
    (hacts : ∀ owner id,
      ActsOn protocol success owner id (s.storage.fusion? owner id) (after owner id)) :
    Justified protocol (s.past ++ [success]) := by
  intro earlier cancel later owner id hpast hcancels
  rcases concat_eq_append_cons_iff.mp hpast with ⟨rfl, rfl, _⟩ | ⟨rest, _, hrest⟩
  · obtain ⟨fusion, hfinds, hdue, hsent⟩ := (hacts owner id).of_cancels hcancels
    obtain ⟨fuse, houtstanding, hstores⟩ := h.made hfinds
    have hlocked := UInt64.le_iff_toNat_le.mp hdue
    rw [hstores.expires] at hlocked
    refine ⟨fuse, houtstanding, hlocked, ?_⟩
    rw [hsent, refundOf, Method.refund, hstores.amount]
  · exact hjustified earlier cancel rest owner id hrest hcancels

/-! ## No owner takes back more than it fused -/

/-- What is locked for an owner and what was refunded to it come from its own fusions. -/
def Covered (s : History) : Prop :=
  ∀ owner, s.storage.locked (·.owner = owner) +
      amounts ((refunds s.past).filter (·.recipient = owner)) ≤
    amounts ((fuses s.past).filter (·.address = owner))

theorem moves_covered {s t : History} (hmoves : Moves protocol s t) (htracked : Tracked protocol s)
    (h : Covered s) : Covered t := by
  cases hmoves with
  | quiet => exact h
  | @succeeds _ send _ _ received =>
      intro owner
      have hbefore := h owner
      simp only [fuses_concat, refunds_concat]
      cases received with
      | @fused beneficiary expirationHeight =>
          have hlocked := s.storage.locked_fuse (·.owner = owner) send beneficiary expirationHeight
          simp only [Fusion.share, Success.fuses, Success.refunds, List.append_nil,
            amounts_filter_concat] at hlocked ⊢
          omega
      | @cancelled id fusion _ _ finds =>
          obtain ⟨fuse, ⟨_, _, _, hfuses, _⟩, hstores⟩ := htracked.made finds
          have hfusion : fusion.owner = send.address := hstores.owner.trans hfuses.owner
          have hlocked := Storage.locked_cancel (·.owner = owner) finds
          simp only [Fusion.share, Success.fuses, Success.refunds, List.append_nil,
            amounts_filter_concat, Method.refund, hfusion] at hlocked ⊢
          omega
      | configured | created | activated | donated =>
          simp only [Success.fuses, Success.refunds, List.append_nil]
          exact hbefore

/-! ## The next call -/

/-- A refund goes to the caller. -/
theorem Receives.recipient_eq {storage next : Storage} {send : Block} {method : Method}
    {sent : List Block} (received : Receives protocol storage send method (.ok sent, next))
    {block : Block} (hblock : block ∈ sent) : block.recipient = send.address := by
  cases received with
  | cancelled =>
      cases List.mem_singleton.mp hblock
      rfl
  | fused | configured | created | activated | donated => exact nomatch hblock

/-- The owner of an outstanding fusion can cancel it from the end of its lock on. -/
theorem Tracked.cancel_iff {s : History} (h : Tracked protocol s) {id : Hash} {fuse : Success}
    {send : Block} (houtstanding : Outstanding s.past send.address id fuse)
    (hreads : Method.parameters .hash .cancelFuse send = .ok id) (hamount : send.amount = .zero) :
    (∃ sent storage, s.storage.receive protocol .cancelFuse send = (.ok sent, storage)) ↔
      fuse.height.toNat + protocol.fusionLock.toNat ≤ s.storage.frontier.height.toNat := by
  obtain ⟨fusion, hfinds, hstores⟩ := h.stored houtstanding
  rw [← hstores.expires, ← UInt64.le_iff_toNat_le]
  constructor
  · rintro ⟨sent, storage, hok⟩
    have hreceives := receive_receives protocol s.storage .cancelFuse send
    rw [hok] at hreceives
    cases hreceives with
    | @cancelled called _ _ reads finds due =>
        have hid : called = id := by simpa [hreads] using reads.symm
        rw [hid, hfinds] at finds
        cases finds
        exact due
  · intro hdue
    have hvalid : Method.validate protocol .cancelFuse send = .ok () :=
      Method.validate_cancelFuse_iff.mpr ⟨⟨id, hreads⟩, hamount⟩
    exact ⟨_, _, receive_cancelFuse hvalid hreads hfinds hdue⟩

/-- A call of another account leaves the fusion where it is and refunds nothing to its owner. -/
theorem receive_of_address_ne {storage : Storage} {method : Method} {send : Block}
    {owner : Address} (hforeign : send.address ≠ owner) (id : Hash) :
    (storage.receive protocol method send).2.fusion? owner id = storage.fusion? owner id ∧
      ∀ sent, (storage.receive protocol method send).1 = .ok sent →
        ∀ block ∈ sent, block.recipient ≠ owner := by
  have hreceives := receive_receives protocol storage method send
  generalize storage.receive protocol method send = ending at hreceives
  obtain ⟨outcome, next⟩ := ending
  cases outcome with
  | error failure =>
      rw [hreceives.eq_of_failed]
      exact ⟨rfl, nofun⟩
  | ok sent =>
      constructor
      · exact (hreceives.actsOn owner id).of_leaves (fun h => hforeign h.owner)
          (fun h => hforeign h.owner)
      · rintro _ ⟨⟩ block hblock
        rw [hreceives.recipient_eq hblock]
        exact hforeign

end

/-! ## Refunds of a run -/

/-- In every run:

* a cancellation that has succeeded was preceded by a fusion of the same owner and number that
  was outstanding and whose lock had ended, and it has sent one block, with the coins of that
  fusion, to that owner;
* an outstanding fusion is stored, its owner can cancel it exactly from the end of its lock on,
  and calls of other accounts neither remove nor refund it;
* no owner is refunded more than it has fused. -/
theorem refunds_due_exact_single (protocol : Protocol) (genesis : Momentum) (steps : List Step) :
    let s := (History.start genesis).run protocol steps
    (∀ earlier cancel later owner id, s.past = earlier ++ cancel :: later →
        cancel.Cancels owner id →
        ∃ fuse, Outstanding earlier owner id fuse ∧
          fuse.height.toNat + protocol.fusionLock.toNat ≤ cancel.height.toNat ∧
          cancel.sent = [refundOf protocol fuse owner]) ∧
      (∀ owner id fuse, Outstanding s.past owner id fuse →
        (∃ fusion, s.storage.fusion? owner id = some fusion ∧ fuse.Stores protocol fusion) ∧
          (∀ send, send.address = owner →
            Method.parameters .hash .cancelFuse send = .ok id → send.amount = .zero →
            ((∃ sent storage,
                s.storage.receive protocol .cancelFuse send = (.ok sent, storage)) ↔
              fuse.height.toNat + protocol.fusionLock.toNat ≤
                s.storage.frontier.height.toNat)) ∧
          ∀ method send, send.address ≠ owner →
            (s.storage.receive protocol method send).2.fusion? owner id =
                s.storage.fusion? owner id ∧
              ∀ sent, (s.storage.receive protocol method send).1 = .ok sent →
                ∀ block ∈ sent, block.recipient ≠ owner) ∧
      ∀ owner, amounts ((refunds s.past).filter (·.recipient = owner)) ≤
        amounts ((fuses s.past).filter (·.address = owner)) := by
  intro s
  have hinvariant : Tracked protocol s ∧ Justified protocol s.past ∧ Covered s := by
    refine History.run_invariant
      (I := fun t => Tracked protocol t ∧ Justified protocol t.past ∧ Covered t) ?_
      ⟨tracked_start genesis, ?_, ?_⟩ steps
    · intro t u hmoves ⟨htracked, hjustified, hcovered⟩
      refine ⟨moves_tracked hmoves htracked, ?_, moves_covered hmoves htracked hcovered⟩
      cases hmoves with
      | quiet => exact hjustified
      | succeeds received => exact htracked.justified_concat hjustified received.actsOn
    · intro earlier cancel later owner id hpast
      simp [History.start] at hpast
    · intro owner
      exact Nat.zero_le _
  obtain ⟨htracked, hjustified, hcovered⟩ := hinvariant
  refine ⟨hjustified, ?_, ?_⟩
  · intro owner id fuse houtstanding
    refine ⟨htracked.stored houtstanding, ?_, ?_⟩
    · rintro send rfl hreads hamount
      exact htracked.cancel_iff houtstanding hreads hamount
    · intro method send hforeign
      exact receive_of_address_ne hforeign id
  · intro owner
    exact Nat.le_trans (Nat.le_add_left _ _) (hcovered owner)

/-- The first of two fusions is outstanding when its coins are returned. -/
theorem refunds_due_exact_single_shared :
    ∃ fuse, Outstanding [⟨.fuse, Shared.given, [], 0⟩, ⟨.fuse, Shared.own, [], 0⟩]
        Shared.owner .zero fuse ∧
      fuse.height.toNat + Protocol.mainnet.fusionLock.toNat ≤ Shared.returned.height.toNat ∧
      Shared.returned.sent = [refundOf .mainnet fuse Shared.owner] :=
  (refunds_due_exact_single .mainnet {} Shared.steps).1 _ Shared.returned [] Shared.owner .zero
    Shared.past_steps ⟨rfl, rfl, Shared.back_reads⟩

end MomentumChain.Contract
