import Mathlib
import MomentumChain.Proofs.Selection.Heights

/-!
# Sends of contracts and their receives

A contract sends as the effect of a receive.  The receive of a send is the lowest
block of the account above it that is no send (`IsReceiveOf`), and a momentum is
meant to commit both or none (`PairsKept`).

The selection holds the sends of all contracts back in one batch, which ends with
the next block that is no send, whatever its contract.  A send of the contract that
ends its batch goes with its receive (`isReceiveOf_of_batch`).  A send of another
contract does not: its receive ends a later batch, and either batch can fit under
the cap without the other.  `pairsKept_content_iff` says that pairs break in no
other way.
-/

namespace MomentumChain.Selection

/-- A contract sends. -/
def IsContractSend (b : Block) : Prop := b.isContract = true ∧ b.kind = .contractSend

/-- The receive of a send: the lowest block of the account above the send that is
no send. -/
structure IsReceiveOf (blocks : List Block) (s r : Block) : Prop where
  mem : r ∈ blocks
  address_eq : r.address = s.address
  above : s.height < r.height
  kind_ne : r.kind ≠ .contractSend
  lowest : ∀ r' ∈ blocks, r'.address = s.address → s.height < r'.height →
    r'.kind ≠ .contractSend → r.height ≤ r'.height

/-- Sends of contracts are committed with their receives, and receives with their
sends. -/
structure PairsKept (pool blocks : List Block) : Prop where
  receive_mem : ∀ s ∈ blocks, IsContractSend s → ∃ r ∈ blocks, IsReceiveOf pool s r
  send_mem : ∀ r ∈ blocks, ∀ s ∈ pool, IsContractSend s → IsReceiveOf pool s r → s ∈ blocks

/-! ## The receive of a send -/

section

variable {blocks : List Block} {s r : Block}

theorem IsReceiveOf.contract (h : IsReceiveOf blocks s r) (hsend : IsContractSend s) :
    r.isContract = true := (isContract_congr h.address_eq).trans hsend.1

/-- Only blocks of the account matter. -/
theorem IsReceiveOf.of_mem_iff {blocks' : List Block} (h : IsReceiveOf blocks s r)
    (hmem : ∀ b, b.address = s.address → (b ∈ blocks' ↔ b ∈ blocks)) : IsReceiveOf blocks' s r where
  mem := (hmem r h.address_eq).mpr h.mem
  address_eq := h.address_eq
  above := h.above
  kind_ne := h.kind_ne
  lowest r' hr' haddress := h.lowest r' ((hmem r' haddress).mp hr') haddress

theorem StrictlyAscends.nodup (h : StrictlyAscends blocks) : blocks.Nodup := by
  refine h.imp fun {b c} hlt heq => ?_
  rw [heq] at hlt
  exact UInt64.lt_irrefl _ (hlt rfl)

/-- Where all places differ, two blocks for one place are one. -/
theorem DistinctPlaces.eq (h : DistinctPlaces blocks) {b c : Block}
    (hb : b ∈ blocks) (hc : c ∈ blocks) (haddress : b.address = c.address)
    (hheight : b.height = c.height) : b = c := by
  induction blocks with
  | nil => exact absurd hb List.not_mem_nil
  | cons d rest ih =>
      obtain ⟨hlater, hrest⟩ := List.nodup_cons.mp h
      have hnone : ∀ e ∈ rest, ¬ (d.address = e.address ∧ d.height = e.height) := by
        rintro e he ⟨haddress, hheight⟩
        exact hlater (List.mem_map.mpr ⟨e, he, by simp only [haddress, hheight]⟩)
      rcases List.mem_cons.mp hb with hbd | hb'
      · rcases List.mem_cons.mp hc with hcd | hc'
        · rw [hbd, hcd]
        · exact absurd (hbd ▸ ⟨haddress, hheight⟩) (hnone c hc')
      · rcases List.mem_cons.mp hc with hcd | hc'
        · exact absurd (hcd ▸ ⟨haddress.symm, hheight.symm⟩) (hnone b hb')
        · exact ih hrest hb' hc'

theorem IsReceiveOf.height_eq {r' : Block} (h : IsReceiveOf blocks s r)
    (h' : IsReceiveOf blocks s r') : r.height = r'.height := by
  refine UInt64.le_antisymm ?_ ?_
  · exact h.lowest r' h'.mem h'.address_eq h'.above h'.kind_ne
  · exact h'.lowest r h.mem h.address_eq h.above h.kind_ne

/-- Behind a send, the first block of its account that is no send is its receive. -/
theorem isReceiveOf_of_split {front sends back : List Block}
    (hasc : StrictlyAscends (front ++ s :: (sends ++ r :: back)))
    (hsends : ∀ b ∈ sends, b.kind = .contractSend) (hkind : r.kind ≠ .contractSend)
    (haddress : r.address = s.address) :
    IsReceiveOf (front ++ s :: (sends ++ r :: back)) s r := by
  obtain ⟨_, hback, hfront⟩ := List.pairwise_append.mp hasc
  obtain ⟨hlater, hback⟩ := List.pairwise_cons.mp hback
  obtain ⟨_, hback, _⟩ := List.pairwise_append.mp hback
  obtain ⟨hlast, _⟩ := List.pairwise_cons.mp hback
  refine ⟨by simp, haddress, hlater r (by simp) haddress.symm, hkind, ?_⟩
  intro r' hr' haddress' habove hkind'
  rcases List.mem_append.mp hr' with hr' | hr'
  · exact absurd habove (UInt64.lt_asymm (hfront r' hr' s (List.mem_cons_self ..) haddress'))
  rcases List.mem_cons.mp hr' with rfl | hr'
  · exact absurd habove (UInt64.lt_irrefl _)
  rcases List.mem_append.mp hr' with hr' | hr'
  · exact absurd (hsends r' hr') hkind'
  rcases List.mem_cons.mp hr' with rfl | hr'
  · exact UInt64.le_refl _
  · exact UInt64.le_of_lt (hlast r' hr' (haddress.trans haddress'.symm))

end

/-! ## Pairs in a content -/

/-- A list with no block twice has no block in two batches. -/
theorem batch_unique {bs : List (List Block)} (h : bs.flatten.Nodup) {batch batch' : List Block}
    (hbatch : batch ∈ bs) (hbatch' : batch' ∈ bs) {b : Block} (hb : b ∈ batch)
    (hb' : b ∈ batch') : batch = batch' := by
  induction bs with
  | nil => exact absurd hbatch List.not_mem_nil
  | cons first rest ih =>
      rw [List.flatten_cons] at h
      obtain ⟨_, hrest, hdisjoint⟩ := List.nodup_append.mp h
      have hapart : ∀ {b batch}, b ∈ first → batch ∈ rest → b ∉ batch := by
        intro b batch hfirst hbatch hb
        exact hdisjoint b hfirst b (List.mem_flatten_of_mem hbatch hb) rfl
      rcases List.mem_cons.mp hbatch with hfirst | hrest'
      · rcases List.mem_cons.mp hbatch' with hfirst' | hrest''
        · rw [hfirst, hfirst']
        · exact absurd hb' (hapart (hfirst ▸ hb) hrest'')
      · rcases List.mem_cons.mp hbatch' with hfirst' | hrest''
        · exact absurd hb (hapart (hfirst' ▸ hb') hrest')
        · exact ih hrest hrest' hrest''

namespace Rules

variable {rules : Rules} {pool blocks : List Block}

theorem mem_contracts_order {b : Block} (h : b.isContract = true) :
    b ∈ contracts (rules.order pool) ↔ b ∈ pool := by
  rw [mem_contracts, (rules.order_perm pool).mem_iff, and_iff_left h]

/-- Contract blocks for different places ascend strictly in the order of priority. -/
theorem contracts_order_strictlyAscends (rules : Rules) (h : DistinctPlaces (contracts pool)) :
    StrictlyAscends (contracts (rules.order pool)) := by
  have hperm : (contracts (rules.order pool)).Perm (contracts pool) :=
    (rules.order_perm pool).filter _
  refine (strictlyAscends_iff ((rules.order_ascends pool).sublist List.filter_sublist)).mpr ?_
  exact (hperm.map _).nodup_iff.mpr h

theorem contract_of_mem_batch {batch : List Block} (hbatch : batch ∈ rules.heldBatches pool)
    {b : Block} (hb : b ∈ batch) : b ∈ pool ∧ b.isContract = true := by
  obtain ⟨_, tail, htail, _⟩ := rules.heldBatches_spec pool
  have hmem : b ∈ contracts (rules.order pool) := by
    rw [htail]
    exact List.mem_append_left _ (List.mem_flatten_of_mem hbatch hb)
  have hcontract := (mem_contracts.mp hmem).2
  exact ⟨(mem_contracts_order hcontract).mp hmem, hcontract⟩

/-- What stands in front of the last block of a batch are sends. -/
theorem sends_of_batch {sends : List Block} {last : Block}
    (hbatch : sends ++ [last] ∈ rules.heldBatches pool) :
    (∀ s ∈ sends, IsContractSend s) ∧ last.kind ≠ .contractSend := by
  obtain ⟨sends', last', heq, hsends, hkind⟩ := (rules.heldBatches_spec pool).1 _ hbatch
  obtain ⟨rfl, hlast⟩ := List.append_inj' heq rfl
  cases hlast
  refine ⟨fun s hs => ⟨?_, hsends s hs⟩, hkind⟩
  exact (contract_of_mem_batch hbatch (List.mem_append_left _ hs)).2

/-- A send in a batch stands in front of its last block. -/
theorem exists_sends_of_mem {batch : List Block} (hbatch : batch ∈ rules.heldBatches pool)
    {s : Block} (hs : s ∈ batch) (hsend : s.kind = .contractSend) :
    ∃ sends last, batch = sends ++ [last] ∧ s ∈ sends := by
  obtain ⟨sends, last, rfl, _, hkind⟩ := (rules.heldBatches_spec pool).1 batch hbatch
  rcases List.mem_append.mp hs with hs | hs
  · exact ⟨sends, last, rfl, hs⟩
  · exact absurd (List.mem_singleton.mp hs ▸ hsend) hkind

theorem mem_content_of_contract (h : rules.content pool = .ok blocks) {b : Block}
    (hb : b.isContract = true) : b ∈ blocks ↔ ∃ batch ∈ rules.admittedBatches pool, b ∈ batch := by
  rw [← List.mem_flatten, ← (content_parts h).2.1, mem_contracts, and_iff_left hb]

/-- A send that is held back with the block of another contract is admitted exactly
if its receive is. -/
def StraysMatched (rules : Rules) (pool : List Block) : Prop :=
  ∀ sends last, sends ++ [last] ∈ rules.heldBatches pool →
    ∀ s ∈ sends, s.address ≠ last.address →
      (sends ++ [last] ∈ rules.admittedBatches pool ↔
        ∃ batch ∈ rules.admittedBatches pool, ∃ r ∈ batch, IsReceiveOf pool s r)

section

variable (hplaces : DistinctPlaces (contracts pool))
include hplaces

/-- The last block of a batch is the receive of the sends of its account. -/
theorem isReceiveOf_of_batch {sends : List Block} {s last : Block}
    (hbatch : sends ++ [last] ∈ rules.heldBatches pool) (hs : s ∈ sends)
    (haddress : last.address = s.address) : IsReceiveOf pool s last := by
  have hasc := rules.contracts_order_strictlyAscends hplaces
  obtain ⟨hsends, hkind⟩ := sends_of_batch hbatch
  have hcontract := (hsends s hs).1
  obtain ⟨_, tail, htail, _⟩ := rules.heldBatches_spec pool
  obtain ⟨before, after, hsplit⟩ := List.append_of_mem hbatch
  obtain ⟨front, back, rfl⟩ := List.append_of_mem hs
  have hcut : contracts (rules.order pool) =
      (before.flatten ++ front) ++ s :: (back ++ last :: (after.flatten ++ tail)) := by
    rw [htail, hsplit]
    simp
  rw [hcut] at hasc
  have hback : ∀ b ∈ back, b.kind = .contractSend := fun b hb => (hsends b (by simp [hb])).2
  have hreceive := isReceiveOf_of_split hasc hback hkind haddress
  rw [← hcut] at hreceive
  refine hreceive.of_mem_iff fun b hb => ?_
  exact (mem_contracts_order ((isContract_congr hb).trans hcontract)).symm

/-- A send has one receive. -/
theorem receive_unique {s r r' : Block} (hcontract : s.isContract = true)
    (h : IsReceiveOf pool s r) (h' : IsReceiveOf pool s r') : r = r' := by
  have hmem : ∀ {b}, IsReceiveOf pool s b → b ∈ contracts pool := fun hb =>
    mem_contracts.mpr ⟨hb.mem, (isContract_congr hb.address_eq).trans hcontract⟩
  refine hplaces.eq (hmem h) (hmem h') ?_ (h.height_eq h')
  exact h.address_eq.trans h'.address_eq.symm

/-- A batch is admitted if one of its blocks is. -/
theorem admitted_of_mem {batch : List Block} (hbatch : batch ∈ rules.heldBatches pool)
    {b : Block} (hb : b ∈ batch) (hadmitted : ∃ batch ∈ rules.admittedBatches pool, b ∈ batch) :
    batch ∈ rules.admittedBatches pool := by
  obtain ⟨batch', hbatch', hb'⟩ := hadmitted
  obtain ⟨_, tail, htail, _⟩ := rules.heldBatches_spec pool
  have hnodup := (rules.contracts_order_strictlyAscends hplaces).nodup
  rw [htail] at hnodup
  have hdistinct := (List.nodup_append.mp hnodup).1
  exact batch_unique hdistinct hbatch (mem_held_of_admitted hbatch') hb hb' ▸ hbatch'

/-- A send with a receive in the pool is in a batch. -/
theorem exists_batch_of_isReceiveOf {s r : Block} (hs : s ∈ pool)
    (hcontract : s.isContract = true) (hreceive : IsReceiveOf pool s r) :
    ∃ batch ∈ rules.heldBatches pool, s ∈ batch := by
  have hasc := rules.contracts_order_strictlyAscends hplaces
  obtain ⟨_, tail, htail, hsends⟩ := rules.heldBatches_spec pool
  have hs : s ∈ contracts (rules.order pool) := (mem_contracts_order hcontract).mpr hs
  have hr : r ∈ contracts (rules.order pool) :=
    (mem_contracts_order ((isContract_congr hreceive.address_eq).trans hcontract)).mpr hreceive.mem
  rw [htail] at hs hr hasc
  rcases List.mem_append.mp hs with hs | hs
  · exact List.mem_flatten.mp hs
  -- behind the last batch there are sends only, and the receive stands behind its send
  · rcases List.mem_append.mp hr with hr | hr
    · have hlt := (List.pairwise_append.mp hasc).2.2 r hr s hs hreceive.address_eq
      exact absurd hreceive.above (UInt64.lt_asymm hlt)
    · exact absurd (hsends r hr) hreceive.kind_ne

/-- Where pairs are kept, a batch with a send is admitted exactly if its receive is. -/
theorem straysMatched_of_pairsKept (h : rules.content pool = .ok blocks)
    (hkept : PairsKept pool blocks) : rules.StraysMatched pool := by
  intro sends last hbatch s hs _
  have hsend := (sends_of_batch hbatch).1 s hs
  have hmem : s ∈ sends ++ [last] := List.mem_append_left _ hs
  have hadmits := mem_content_of_contract h hsend.1
  constructor
  · intro hadmitted
    obtain ⟨r, hr, hreceive⟩ := hkept.receive_mem s (hadmits.mpr ⟨_, hadmitted, hmem⟩) hsend
    obtain ⟨batch, hbatch', hr'⟩ := (mem_content_of_contract h (hreceive.contract hsend)).mp hr
    exact ⟨batch, hbatch', r, hr', hreceive⟩
  · rintro ⟨batch, hadmitted, r, hr, hreceive⟩
    have hr' : r ∈ blocks :=
      (mem_content_of_contract h (hreceive.contract hsend)).mpr ⟨batch, hadmitted, hr⟩
    have hpool := (contract_of_mem_batch hbatch hmem).1
    have hs' := hkept.send_mem r hr' s hpool hsend hreceive
    exact admitted_of_mem hplaces hbatch hmem (hadmits.mp hs')

/-- An admitted send has its receive in its own batch, or is matched with it. -/
theorem receive_mem_of_straysMatched (h : rules.content pool = .ok blocks)
    (hmatched : rules.StraysMatched pool) {s : Block} (hs : s ∈ blocks)
    (hsend : IsContractSend s) : ∃ r ∈ blocks, IsReceiveOf pool s r := by
  obtain ⟨batch, hadmitted, hs⟩ := (mem_content_of_contract h hsend.1).mp hs
  have hbatch := mem_held_of_admitted hadmitted
  obtain ⟨sends, last, rfl, hs'⟩ := exists_sends_of_mem hbatch hs hsend.2
  have hcontent := fun {r} (hr : IsReceiveOf pool s r) =>
    mem_content_of_contract h (hr.contract hsend)
  by_cases haddress : s.address = last.address
  · have hlast := isReceiveOf_of_batch hplaces hbatch hs' haddress.symm
    exact ⟨last, (hcontent hlast).mpr ⟨_, hadmitted, by simp⟩, hlast⟩
  · obtain ⟨batch, hadmitted', r, hr, hreceive⟩ :=
      (hmatched sends last hbatch s hs' haddress).mp hadmitted
    exact ⟨r, (hcontent hreceive).mpr ⟨batch, hadmitted', hr⟩, hreceive⟩

/-- A send is in the batch of its admitted receive, or is matched with it. -/
theorem send_mem_of_straysMatched (h : rules.content pool = .ok blocks)
    (hmatched : rules.StraysMatched pool) {s r : Block} (hr : r ∈ blocks) (hs : s ∈ pool)
    (hsend : IsContractSend s) (hreceive : IsReceiveOf pool s r) : s ∈ blocks := by
  have hadmitted := (mem_content_of_contract h (hreceive.contract hsend)).mp hr
  obtain ⟨batch, hbatch, hmem⟩ := exists_batch_of_isReceiveOf hplaces hs hsend.1 hreceive
  obtain ⟨sends, last, rfl, hs'⟩ := exists_sends_of_mem hbatch hmem hsend.2
  refine (mem_content_of_contract h hsend.1).mpr ⟨sends ++ [last], ?_, hmem⟩
  by_cases haddress : s.address = last.address
  · have hlast := isReceiveOf_of_batch hplaces hbatch hs' haddress.symm
    have heq : r = last := receive_unique hplaces hsend.1 hreceive hlast
    exact admitted_of_mem hplaces hbatch (by simp [heq]) hadmitted
  · obtain ⟨batch, hadmitted, hr⟩ := hadmitted
    exact (hmatched sends last hbatch s hs' haddress).mpr ⟨batch, hadmitted, r, hr, hreceive⟩

end

/-- The pairs of a content are kept exactly if each send that is held back with the
block of another contract is admitted exactly if its receive is. -/
theorem pairsKept_content_iff (rules : Rules) (pool : List Block)
    (hplaces : DistinctPlaces (contracts pool)) :
    (∃ blocks, rules.content pool = .ok blocks ∧ PairsKept pool blocks) ↔
      rules.Priceable pool ∧ rules.StraysMatched pool := by
  constructor
  · rintro ⟨blocks, h, hkept⟩
    exact ⟨content_isOk_iff.mp ⟨blocks, h⟩, straysMatched_of_pairsKept hplaces h hkept⟩
  · rintro ⟨hprice, hmatched⟩
    obtain ⟨blocks, h⟩ := content_isOk_iff.mpr hprice
    refine ⟨blocks, h, fun s hs hsend => ?_, fun r hr s hs hsend hreceive => ?_⟩
    · exact receive_mem_of_straysMatched hplaces h hmatched hs hsend
    · exact send_mem_of_straysMatched hplaces h hmatched hr hs hsend hreceive

/-! ## Two contracts that cross -/

/-- A send of the pillar contract. -/
def pillarSend : Block :=
  { kind := .contractSend, address := .pillarContract, height := 1, hash := plainHash 2 1 }

/-- Its receive. -/
def pillarReceive : Block :=
  { kind := .contractReceive, address := .pillarContract, height := 2, hash := plainHash 2 2 }

/-- A receive of the plasma contract. -/
def plasmaReceive : Block :=
  { kind := .contractReceive, address := .plasmaContract, height := 1, hash := plainHash 1 1 }

/-- A receive of one contract between a send of another and its receive. -/
def crossing : List Block := [pillarSend, plasmaReceive, pillarReceive]

theorem isReceiveOf_crossing : IsReceiveOf crossing pillarSend pillarReceive where
  mem := by simp [crossing]
  address_eq := rfl
  above := by decide
  kind_ne := by decide
  lowest r' hr' haddress _ hkind := by
    rcases List.mem_cons.mp hr' with rfl | hr'
    · exact absurd rfl hkind
    rcases List.mem_cons.mp hr' with rfl | hr'
    · exact absurd haddress (by decide)
    · cases List.mem_singleton.mp hr'
      exact UInt64.le_refl _

/-- With room for three blocks both batches are admitted. -/
theorem pairsKept_crossing :
    DistinctPlaces (contracts crossing) ∧
      ∃ blocks, (plain 157500).content crossing = .ok blocks ∧ PairsKept crossing blocks := by
  have hplaces : DistinctPlaces (contracts crossing) := by decide
  have hfits : (plain 157500).market.PriceFits := by decide
  have hbatches : (plain 157500).heldBatches crossing =
      [[pillarSend, plasmaReceive], [pillarReceive]] := by cbv
  have hadmitted : (plain 157500).admittedBatches crossing =
      [[pillarSend, plasmaReceive], [pillarReceive]] := by cbv
  refine ⟨hplaces, (pairsKept_content_iff _ crossing hplaces).mpr ⟨.inl hfits, ?_⟩⟩
  intro sends last hbatch s hs _
  rw [hadmitted, ← hbatches]
  refine ⟨fun _ => ⟨[pillarReceive], ?_, pillarReceive, ?_, ?_⟩, fun _ => hbatch⟩
  · rw [hbatches]
    simp
  · exact List.mem_singleton.mpr rfl
  · rw [hbatches] at hbatch
    rcases List.mem_cons.mp hbatch with heq | hbatch
    · have heq : sends ++ [last] = [pillarSend] ++ [plasmaReceive] := heq
      obtain ⟨rfl, _⟩ := List.append_inj' heq rfl
      rw [List.mem_singleton.mp hs]
      exact isReceiveOf_crossing
    · have heq : sends ++ [last] = [] ++ [pillarReceive] := List.mem_singleton.mp hbatch
      obtain ⟨rfl, _⟩ := List.append_inj' heq rfl
      exact absurd hs List.not_mem_nil

/-- With room for two blocks the send is admitted and its receive is not. -/
theorem crossing_breaks :
    DistinctPlaces (contracts crossing) ∧
      (plain 105000).content crossing = .ok [pillarSend, plasmaReceive] ∧
      ¬ PairsKept crossing [pillarSend, plasmaReceive] := by
  refine ⟨by decide, by cbv, fun hkept => ?_⟩
  obtain ⟨r, hr, hreceive⟩ := hkept.receive_mem pillarSend (List.mem_cons_self ..)
    ⟨by decide, rfl⟩
  rcases List.mem_cons.mp hr with rfl | hr
  · exact hreceive.kind_ne rfl
  · rw [List.mem_singleton.mp hr] at hreceive
    exact absurd hreceive.address_eq (by decide)

end Rules

end MomentumChain.Selection
