import MomentumChain.Proofs.Contract.History
import MomentumChain.Proofs.Contract.Locked

/-!
# The ledger of fusions

The totals of the beneficiaries and the single fusions are kept apart, and both are written by
arithmetic that stops at the ends of the word.  Over a run the two stay in step, and together
with the refunds they account for all coins that have been locked (`fusion_ledger`).

Two conditions are needed.  No two fusions of the run share owner and number, for the later one
would replace the earlier one in the storage but not in the total.  And all coins locked in the
run fit in a word, so that no sum is cut off.
-/

namespace MomentumChain.Contract

/-! ## What a run locks and refunds -/

/-- The send of a call that locks coins. -/
def Success.fuses (success : Success) : List Block :=
  match success.method with
  | .fuse => [success.send]
  | .cancelFuse | .setVariables | .createSpork | .activateSpork | .donate => []

/-- The refunds of a call that cancels a fusion. -/
def Success.refunds (success : Success) : List Block :=
  match success.method with
  | .cancelFuse => success.sent
  | .fuse | .setVariables | .createSpork | .activateSpork | .donate => []

/-- The sends that have locked coins, in order. -/
def fuses (past : List Success) : List Block := past.flatMap Success.fuses

/-- The refunds sent, in order. -/
def refunds (past : List Success) : List Block := past.flatMap Success.refunds

/-- The coins of some blocks. -/
def amounts (blocks : List Block) : Nat := (blocks.map (·.amount.toNat)).sum

/-- Owner and number of the fusion that a send makes. -/
def fusionKey (send : Block) : Address × Hash := (send.address, send.hash)

theorem fuses_append (past later : List Success) :
    fuses (past ++ later) = fuses past ++ fuses later := List.flatMap_append

theorem fuses_concat (past : List Success) (success : Success) :
    fuses (past ++ [success]) = fuses past ++ success.fuses := by
  simp [fuses]

theorem refunds_concat (past : List Success) (success : Success) :
    refunds (past ++ [success]) = refunds past ++ success.refunds := by
  simp [refunds]

theorem amounts_append (blocks later : List Block) :
    amounts (blocks ++ later) = amounts blocks + amounts later := by
  simp [amounts]

theorem amounts_concat (blocks : List Block) (block : Block) :
    amounts (blocks ++ [block]) = amounts blocks + block.amount.toNat := by
  simp [amounts]

theorem amounts_filter_concat (p : Block → Bool) (blocks : List Block) (block : Block) :
    amounts ((blocks ++ [block]).filter p) =
      amounts (blocks.filter p) + if p block then block.amount.toNat else 0 := by
  by_cases hp : p block <;> simp [amounts, hp]

/-! ## The invariant -/

/-- No fusion replaces another, and no sum is cut off. -/
structure Countable (past : List Success) : Prop where
  distinct : ((fuses past).map fusionKey).Nodup
  bounded : amounts (fuses past) < Word.radix 256

theorem Countable.of_append {past later : List Success} (h : Countable (past ++ later)) :
    Countable past where
  distinct := by
    have hdistinct := h.distinct
    rw [fuses_append, List.map_append] at hdistinct
    exact (List.nodup_append.mp hdistinct).1
  bounded := by
    have hbounded := h.bounded
    rw [fuses_append, amounts_append] at hbounded
    omega

/-- The storage accounts for all coins that have been locked. -/
structure Ledger (s : History) : Prop where
  /-- What is stored has been made by a fusion of the past. -/
  known : ∀ {owner id}, s.storage.fusion? owner id ≠ none →
    (owner, id) ∈ (fuses s.past).map fusionKey
  total : ∀ beneficiary,
    (s.storage.fusedFor beneficiary).toNat = s.storage.locked (·.beneficiary = beneficiary)
  nonzero : ∀ beneficiary, s.storage.fused.get? beneficiary ≠ some .zero
  balanced : s.storage.locked (fun _ => true) + amounts (refunds s.past) = amounts (fuses s.past)

theorem ledger_start (genesis : Momentum) : Ledger (.start genesis) where
  known h := absurd rfl h
  total _ := rfl
  nonzero _ := nofun
  balanced := rfl

section

variable {protocol : Protocol} {s : History} {send : Block}

/-- A new fusion replaces none. -/
theorem Ledger.fresh (h : Ledger s) {height : UInt64}
    (hnew : Countable (s.past ++ [⟨.fuse, send, [], height⟩])) :
    s.storage.fusion? send.address send.hash = none := by
  have hdistinct := hnew.distinct
  rw [fuses_append, List.map_append, List.nodup_append] at hdistinct
  by_contra hfinds
  exact hdistinct.2.2 _ (h.known hfinds) (fusionKey send) (List.mem_singleton_self _) rfl

/-- What a beneficiary has and what a new fusion adds fit in a word together. -/
theorem Ledger.sum_le (h : Ledger s) {height : UInt64}
    (hnew : Countable (s.past ++ [⟨.fuse, send, [], height⟩])) (beneficiary : Address) :
    (s.storage.fusedFor beneficiary).toNat + send.amount.toNat ≤ Amount.maxNat := by
  have hle := s.storage.locked_le (·.beneficiary = beneficiary)
  have hbounded : amounts (fuses s.past ++ [send]) < Word.radix 256 := by
    have hfuses := fuses_concat s.past ⟨.fuse, send, [], height⟩
    exact lt_of_eq_of_lt (congrArg amounts hfuses.symm) hnew.bounded
  rw [amounts_concat, ← h.balanced] at hbounded
  rw [h.total, Amount.maxNat]
  omega

theorem Ledger.fuse (h : Ledger s) {height : UInt64}
    (hnew : Countable (s.past ++ [⟨.fuse, send, [], height⟩])) (beneficiary : Address)
    (expirationHeight : UInt64) :
    Ledger ⟨s.past ++ [⟨.fuse, send, [], height⟩],
      s.storage.fuse send beneficiary expirationHeight⟩ := by
  have hfuses : fuses (s.past ++ [⟨.fuse, send, [], height⟩]) = fuses s.past ++ [send] :=
    fuses_concat s.past _
  have hrefunds : refunds (s.past ++ [⟨.fuse, send, [], height⟩]) = refunds s.past :=
    (refunds_concat s.past _).trans (List.append_nil _)
  -- without a replaced fusion, each kind of fusions gains the share of the new one
  have hlocked : ∀ p : Fusion → Bool,
      (s.storage.fuse send beneficiary expirationHeight).locked p = s.storage.locked p +
        Fusion.share p
          ⟨send.address, send.hash, send.amount, beneficiary, expirationHeight⟩ := by
    intro p
    have hfuse := s.storage.locked_fuse p send beneficiary expirationHeight
    rwa [h.fresh hnew, Option.elim_none, Nat.add_zero] at hfuse
  constructor
  · intro owner id hfinds
    rw [hfuses, List.map_append, List.mem_append]
    by_cases hkey : (owner, id) = (send.address, send.hash)
    · exact .inr (List.mem_singleton.mpr hkey)
    · rw [Storage.fusion?_fuse, if_neg hkey] at hfinds
      exact .inl (h.known hfinds)
  · intro other
    rw [Storage.fusedFor_fuse, hlocked, ← h.total]
    by_cases hother : other = beneficiary
    · rw [if_pos hother, Amount.toNat_satAdd, Nat.min_eq_left (h.sum_le hnew beneficiary)]
      simp [hother, Fusion.share]
    · simp [hother, Ne.symm hother, Fusion.share]
  · intro other
    exact Storage.get?_setFused_ne_zero (h.nonzero other) _ _
  · rw [hfuses, hrefunds, amounts_concat, hlocked, Fusion.share_all, ← h.balanced]
    exact Nat.add_right_comm _ _ _

theorem Ledger.cancel (h : Ledger s) {id : Hash} {fusion : Fusion} {height : UInt64}
    (finds : s.storage.fusion? send.address id = some fusion) :
    Ledger ⟨s.past ++ [⟨.cancelFuse, send, [Method.refund protocol fusion send.address], height⟩],
      s.storage.cancel send.address id fusion⟩ := by
  have hfuses := (fuses_concat s.past ⟨.cancelFuse, send,
    [Method.refund protocol fusion send.address], height⟩).trans (List.append_nil _)
  have hrefunds := refunds_concat s.past ⟨.cancelFuse, send,
    [Method.refund protocol fusion send.address], height⟩
  have hlocked := fun p => Storage.locked_cancel p finds
  constructor
  · intro owner id hfinds
    rw [Storage.fusion?_cancel] at hfinds
    split at hfinds
    · exact absurd rfl hfinds
    · rw [hfuses]
      exact h.known hfinds
  · intro other
    simp only [Storage.fusedFor_cancel]
    by_cases hother : other = fusion.beneficiary
    · have htotal := h.total fusion.beneficiary
      rw [hlocked, Fusion.share, if_pos (by simp)] at htotal
      rw [if_pos hother, Amount.toNat_satSub, hother]
      omega
    · have htotal := h.total other
      rw [hlocked, Fusion.share, if_neg (by simpa using Ne.symm hother)] at htotal
      rw [if_neg hother]
      omega
  · intro other
    exact Storage.get?_setFused_ne_zero (h.nonzero other) _ _
  · have hbalanced := h.balanced
    rw [hlocked, Fusion.share_all] at hbalanced
    have hamounts : amounts (refunds s.past ++ [Method.refund protocol fusion send.address]) =
        amounts (refunds s.past) + fusion.amount.toNat := amounts_concat _ _
    rw [hfuses, hrefunds, ← hbalanced]
    show (s.storage.cancel send.address id fusion).locked _ +
      amounts (refunds s.past ++ [Method.refund protocol fusion send.address]) = _
    rw [hamounts]
    omega

/-- A call of another method touches no fusion and no total. -/
theorem Ledger.keep (h : Ledger s) {success : Success} {storage : Storage}
    (hfuses : success.fuses = []) (hrefunds : success.refunds = [])
    (hfusions : storage.fusions = s.storage.fusions) (hfused : storage.fused = s.storage.fused) :
    Ledger ⟨s.past ++ [success], storage⟩ := by
  obtain ⟨hknown, htotal, hnonzero, hbalanced⟩ := h
  simp only [Storage.fusion?, Storage.fusedFor, Storage.locked] at hknown htotal hbalanced
  constructor <;>
    simp only [Storage.fusion?, Storage.fusedFor, Storage.locked, fuses_concat, refunds_concat,
      hfuses, hrefunds, List.append_nil, hfusions, hfused]
  · exact hknown
  · exact htotal
  · exact hnonzero
  · exact hbalanced

theorem moves_ledger {t : History} (hmoves : Moves protocol s t)
    (h : Countable s.past → Ledger s) (hcountable : Countable t.past) : Ledger t := by
  cases hmoves with
  | quiet frontier =>
      obtain ⟨hknown, htotal, hnonzero, hbalanced⟩ := h hcountable
      exact ⟨hknown, htotal, hnonzero, hbalanced⟩
  | succeeds received =>
      have hledger := h hcountable.of_append
      cases received with
      | fused => exact hledger.fuse hcountable _ _
      | cancelled _ _ finds _ => exact hledger.cancel finds
      | configured | created | activated | donated => exact hledger.keep rfl rfl rfl rfl

end

/-! ## The ledger of a run -/

/-- At every point of a run the total of a beneficiary is what the stored fusions lock for it,
no total of zero is stored, and what is locked and what is refunded is what was fused. -/
theorem fusion_ledger (protocol : Protocol) (genesis : Momentum) {done steps : List Step}
    (hdone : done <+: steps)
    (distinct : ((fuses ((History.start genesis).run protocol steps).past).map fusionKey).Nodup)
    (bounded : amounts (fuses ((History.start genesis).run protocol steps).past) < 2 ^ 256) :
    let s := (History.start genesis).run protocol done
    (∀ beneficiary,
      (s.storage.fusedFor beneficiary).toNat = s.storage.locked (·.beneficiary = beneficiary)) ∧
      (∀ beneficiary, s.storage.fused.get? beneficiary ≠ some .zero) ∧
      s.storage.locked (fun _ => true) + amounts (refunds s.past) = amounts (fuses s.past) := by
  intro s
  obtain ⟨later, rfl⟩ := hdone
  rw [History.run_append] at distinct bounded
  have hgrows : s.past <+: (s.run protocol later).past := History.past_run later
  obtain ⟨rest, hpast⟩ := hgrows
  rw [← hpast] at distinct bounded
  have hall : Countable (s.past ++ rest) := ⟨distinct, bounded⟩
  have hcountable : Countable s.past := hall.of_append
  have hledger : Countable s.past → Ledger s :=
    History.run_invariant (I := fun t => Countable t.past → Ledger t) moves_ledger
      (fun _ => ledger_start genesis) done
  obtain ⟨_, htotal, hnonzero, hbalanced⟩ := hledger hcountable
  exact ⟨htotal, hnonzero, hbalanced⟩

/-! ## Two owners and one beneficiary -/

namespace Shared

def owner : Address := ⟨Vector.replicate 20 1⟩

def beneficiary : Address := ⟨Vector.replicate 20 2⟩

/-- The owner fuses ten coins for the beneficiary. -/
def given : Block :=
  Method.fuse.call .address beneficiary
    { address := owner, amount := .ofNat 1000000000, token := .qsr }

/-- The beneficiary fuses twelve coins for itself. -/
def own : Block :=
  Method.fuse.call .address beneficiary
    { address := beneficiary, amount := .ofNat 1200000000, token := .qsr }

/-- The owner takes its coins back. -/
def back : Block := Method.cancelFuse.call .hash .zero { address := owner }

def steps : List Step :=
  [.call .fuse given, .call .fuse own, .frontier { height := 3600 }, .call .cancelFuse back]

theorem given_reads : Method.parameters .address .fuse given = .ok beneficiary :=
  Method.parameters_call (Format.address_readsBack beneficiary) _ _

theorem own_reads : Method.parameters .address .fuse own = .ok beneficiary :=
  Method.parameters_call (Format.address_readsBack beneficiary) _ _

theorem back_reads : Method.parameters .hash .cancelFuse back = .ok .zero :=
  Method.parameters_call (Format.hash_readsBack .zero) _ _

theorem receive_at_start {s : History} {send : Block} (hstart : s.storage.frontier.height = 0)
    (hreads : Method.parameters .address .fuse send = .ok beneficiary)
    (hcoins : (send.token = Protocol.mainnet.qsr ∧
      Plasma.minFusionAmount.toNat ≤ send.amount.toNat) ∧
        send.amount.toNat % Plasma.fusionUnitCost.toNat = 0) :
    s.receive .mainnet .fuse send =
      ⟨s.past ++ [⟨.fuse, send, [], 0⟩], s.storage.fuse send beneficiary 3600⟩ := by
  have hvalid : Method.validate .mainnet .fuse send = .ok () :=
    Method.validate_fuse_iff.mpr ⟨⟨_, hreads⟩, hcoins⟩
  have hexpires : Word.add64 s.storage.frontier.height Protocol.mainnet.fusionLock = .ok 3600 := by
    rw [hstart]
    rfl
  rw [History.receive_of_ok (receive_fuse hvalid hreads hexpires), hstart]

/-- The call that returns the coins of the owner. -/
def returned : Success where
  method := .cancelFuse
  send := back
  sent := [Method.refund .mainnet ⟨owner, .zero, .ofNat 1000000000, beneficiary, 3600⟩ owner]
  height := 3600

/-- All three calls succeed. -/
theorem past_steps : ((History.start {}).run .mainnet steps).past =
    [⟨.fuse, given, [], 0⟩, ⟨.fuse, own, [], 0⟩, returned] := by
  have hback : Method.validate .mainnet .cancelFuse back = .ok () :=
    Method.validate_cancelFuse_iff.mpr ⟨⟨_, back_reads⟩, by decide⟩
  rw [History.run, steps, List.foldl_cons, History.next,
    receive_at_start rfl given_reads (by decide), List.foldl_cons, History.next,
    receive_at_start rfl own_reads (by decide), List.foldl_cons, History.next,
    List.foldl_cons, History.next,
    History.receive_of_ok (receive_cancelFuse hback back_reads rfl (by decide))]
  rfl

end Shared

theorem fusion_ledger_shared :
    let s := (History.start {}).run .mainnet Shared.steps
    (s.storage.fusedFor Shared.beneficiary).toNat =
        s.storage.locked (·.beneficiary = Shared.beneficiary) ∧
      s.storage.locked (fun _ => true) + amounts (refunds s.past) = amounts (fuses s.past) := by
  have hdone : Shared.steps <+: Shared.steps := List.prefix_rfl
  have hcoins :
      amounts (fuses ((History.start {}).run .mainnet Shared.steps).past) = 2200000000 := by
    rw [Shared.past_steps]
    rfl
  have h := fusion_ledger .mainnet {} hdone
    (by rw [Shared.past_steps]; decide) (by rw [hcoins]; decide)
  exact ⟨h.1 Shared.beneficiary, h.2.2⟩

end MomentumChain.Contract
