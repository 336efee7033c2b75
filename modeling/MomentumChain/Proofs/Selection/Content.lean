import MomentumChain.Selection.Admission
import MomentumChain.Selection.Limits
import MomentumChain.Proofs.Plasma.Payment
import MomentumChain.Proofs.Selection.Order

/-!
# The content of a momentum

In the order of priority contract blocks come first.  So the pass over the
candidates is two passes, one after the other, and the content of a momentum is
what the first admits followed by what the second admits (`content_eq`).

* The contract blocks are cut into batches, each of which ends with the first
  block that is no send (`batches`).  Batches are admitted as wholes, one after
  the other, where they fit under the cap (`fitting`).
* The user blocks are admitted up to the first that does not fit into the budget
  or does not pay (`acceptUsers`).

`acceptUsers_longest` says that the second pass admits the longest prefix that is
affordable.  `content_isOk_iff` says when there is a content at all: the price of
a plain block must fit in a word, unless the second pass ends before it asks for
the price.
-/

namespace MomentumChain.Selection

/-! ## Batches of contract blocks -/

/-- Contract blocks cut behind each block that is no send.  `held` is the part of
the first batch that was met before.  Sends behind the last cut are left out. -/
def batchesFrom (held : List Block) : List Block → List (List Block)
  | [] => []
  | block :: rest =>
      if block.kind = .contractSend then batchesFrom (held ++ [block]) rest
      else (held ++ [block]) :: batchesFrom [] rest

/-- The batches of a list of contract blocks. -/
def batches (blocks : List Block) : List (List Block) := batchesFrom [] blocks

/-- The batches that fit under the cap when `count` blocks are admitted already. -/
def fitting (cap : Nat) : (count : Nat) → List (List Block) → List (List Block)
  | _, [] => []
  | count, batch :: rest =>
      if cap < batch.length + count then fitting cap count rest
      else batch :: fitting cap (count + batch.length) rest

theorem fitting_sublist (cap : Nat) : ∀ (count : Nat) (bs : List (List Block)),
    (fitting cap count bs).Sublist bs
  | _, [] => .slnil
  | count, batch :: rest => by
      rw [fitting]
      split
      · exact (fitting_sublist cap count rest).cons batch
      · exact (fitting_sublist cap _ rest).cons_cons batch

/-- Sends, and behind them one block that is no send. -/
def IsBatch (batch : List Block) : Prop :=
  ∃ sends last, batch = sends ++ [last] ∧ (∀ s ∈ sends, s.kind = .contractSend) ∧
    last.kind ≠ .contractSend

/-- Every list is its batches and a rest of sends. -/
theorem batchesFrom_spec : ∀ {held blocks : List Block}, (∀ s ∈ held, s.kind = .contractSend) →
    (∀ batch ∈ batchesFrom held blocks, IsBatch batch) ∧
      ∃ tail, held ++ blocks = (batchesFrom held blocks).flatten ++ tail ∧
        ∀ t ∈ tail, t.kind = .contractSend
  | held, [], hheld => by
      refine ⟨fun batch h => absurd h List.not_mem_nil, held, ?_, hheld⟩
      rw [List.append_nil]
      rfl
  | held, block :: rest, hheld => by
      rw [List.append_cons, batchesFrom]
      by_cases hsend : block.kind = .contractSend
      · rw [if_pos hsend]
        refine batchesFrom_spec fun s hs => ?_
        rcases List.mem_append.mp hs with hs | hs
        · exact hheld s hs
        · exact List.mem_singleton.mp hs ▸ hsend
      · rw [if_neg hsend]
        have hnone : ∀ s ∈ ([] : List Block), s.kind = .contractSend := fun _ hs => nomatch hs
        obtain ⟨hbatches, tail, hrest, htail⟩ := batchesFrom_spec hnone
        refine ⟨fun batch hbatch => ?_, tail, ?_, htail⟩
        · rcases List.mem_cons.mp hbatch with rfl | hbatch
          · exact ⟨held, block, rfl, hheld, hsend⟩
          · exact hbatches batch hbatch
        · rw [List.flatten_cons, List.append_assoc (held ++ [block]), ← hrest, List.nil_append]

theorem batches_spec (blocks : List Block) : (∀ batch ∈ batches blocks, IsBatch batch) ∧
    ∃ tail, blocks = (batches blocks).flatten ++ tail ∧ ∀ t ∈ tail, t.kind = .contractSend :=
  batchesFrom_spec fun _ hs => nomatch hs

theorem flatten_sublist {bs cs : List (List Block)} (h : bs.Sublist cs) :
    bs.flatten.Sublist cs.flatten := by
  induction h with
  | slnil => exact .slnil
  | cons batch _ ih => exact ih.trans (List.sublist_append_right ..)
  | cons_cons batch _ ih => exact (List.Sublist.refl batch).append ih

/-! ## User blocks -/

/-- The user blocks admitted when `used` base plasma is consumed already. -/
def acceptUsers (market : Plasma.Market) : (used : UInt64) → List Block → Checked (List Block)
  | _, [] => pure []
  | used, block :: rest =>
      let used := Word.satAdd used block.basePlasma
      if market.budget < used then pure []
      else do
        if ← market.paysEnough block then
          let later ← acceptUsers market used rest
          pure (block :: later)
        else pure []

section

variable {market : Plasma.Market} {used : UInt64}

theorem acceptUsers_of_budget_lt {block : Block} {rest : List Block}
    (h : market.budget < Word.satAdd used block.basePlasma) :
    acceptUsers market used (block :: rest) = .ok [] := by
  rw [acceptUsers]
  exact if_pos h

theorem acceptUsers_of_underpays {block : Block} {rest : List Block}
    (h : Word.satAdd used block.basePlasma ≤ market.budget)
    (hpays : market.paysEnough block = .ok false) :
    acceptUsers market used (block :: rest) = .ok [] := by
  rw [acceptUsers]
  simp only [if_neg (UInt64.not_lt.mpr h), hpays]
  rfl

theorem acceptUsers_of_pays {block : Block} {rest : List Block}
    (h : Word.satAdd used block.basePlasma ≤ market.budget)
    (hpays : market.paysEnough block = .ok true) :
    acceptUsers market used (block :: rest) =
      (block :: ·) <$> acceptUsers market (Word.satAdd used block.basePlasma) rest := by
  rw [acceptUsers]
  simp only [if_neg (UInt64.not_lt.mpr h), hpays]
  rfl

theorem acceptUsers_of_fault {block : Block} {rest : List Block} {fault : ArithmeticFault}
    (h : Word.satAdd used block.basePlasma ≤ market.budget)
    (hpays : market.paysEnough block = .error fault) :
    acceptUsers market used (block :: rest) = .error fault := by
  rw [acceptUsers]
  simp only [if_neg (UInt64.not_lt.mpr h), hpays]
  rfl

/-- What the pass does with a block, if it has a result. -/
theorem acceptUsers_cons_eq_ok {b : Block} {rest admitted : List Block}
    (h : acceptUsers market used (b :: rest) = .ok admitted) :
    (admitted = [] ∧
        (Word.satAdd used b.basePlasma ≤ market.budget → market.paysEnough b = .ok false)) ∨
      (Word.satAdd used b.basePlasma ≤ market.budget ∧ market.paysEnough b = .ok true ∧
        ∃ later, acceptUsers market (Word.satAdd used b.basePlasma) rest = .ok later ∧
          admitted = b :: later) := by
  cases Decidable.em (market.budget < Word.satAdd used b.basePlasma) with
  | inl hlt =>
      rw [acceptUsers_of_budget_lt hlt] at h
      cases h
      exact .inl ⟨rfl, fun hle => absurd hlt (UInt64.not_lt.mpr hle)⟩
  | inr hle =>
      have hle := UInt64.not_lt.mp hle
      cases hpays : market.paysEnough b with
      | error fault =>
          rw [acceptUsers_of_fault hle hpays] at h
          cases h
      | ok answer =>
          cases answer with
          | false =>
              rw [acceptUsers_of_underpays hle hpays] at h
              cases h
              exact .inl ⟨rfl, fun _ => rfl⟩
          | true =>
              rw [acceptUsers_of_pays hle hpays] at h
              cases hlater : acceptUsers market (Word.satAdd used b.basePlasma) rest with
              | error fault =>
                  rw [hlater] at h
                  cases h
              | ok later =>
                  rw [hlater] at h
                  cases h
                  exact .inr ⟨hle, rfl, later, rfl, rfl⟩

/-- The second pass has a result unless it asks for a price that does not fit. -/
theorem acceptUsers_isOk_iff {blocks : List Block} (husers : ∀ b ∈ blocks, b.isContract = false) :
    (∃ admitted, acceptUsers market used blocks = .ok admitted) ↔
      market.PriceFits ∨ ∀ b ∈ blocks.head?, market.budget < Word.satAdd used b.basePlasma := by
  induction blocks generalizing used with
  | nil =>
      constructor
      · intro _
        exact .inr fun b hb => absurd hb (by simp)
      · intro _
        exact ⟨[], rfl⟩
  | cons b rest ih =>
      have hb := husers b (List.mem_cons_self ..)
      have hrest : ∀ c ∈ rest, c.isContract = false := fun c hc =>
        husers c (List.mem_cons_of_mem _ hc)
      cases Decidable.em (market.budget < Word.satAdd used b.basePlasma) with
      | inl hlt =>
          refine ⟨fun _ => .inr fun c hc => ?_, fun _ => ⟨[], acceptUsers_of_budget_lt hlt⟩⟩
          cases hc
          exact hlt
      | inr hle =>
          have hle := UInt64.not_lt.mp hle
          cases Decidable.em market.PriceFits with
          | inl hfits =>
              refine ⟨fun _ => .inl hfits, fun _ => ?_⟩
              cases hpays : market.paysEnough b with
              | error fault =>
                  rw [Plasma.Market.paysEnough_of_priceFits hfits hb] at hpays
                  cases hpays
              | ok answer =>
                  cases answer with
                  | false => exact ⟨[], acceptUsers_of_underpays hle hpays⟩
                  | true =>
                      obtain ⟨later, hlater⟩ := (ih hrest).mpr (.inl hfits)
                      rw [acceptUsers_of_pays hle hpays, hlater]
                      exact ⟨b :: later, rfl⟩
          | inr hfits =>
              have hfault := Plasma.Market.paysEnough_of_not_priceFits hfits hb
              rw [acceptUsers_of_fault hle hfault]
              constructor
              · rintro ⟨admitted, h⟩
                cases h
              · rintro (h | h)
                · exact absurd h hfits
                · exact absurd (h b rfl) (UInt64.not_lt.mpr hle)

/-- Every block pays, and the base plasma never exceeds the budget. -/
def AffordableFrom (market : Plasma.Market) (used : UInt64) (blocks : List Block) : Prop :=
  (∀ b ∈ blocks, market.paysEnough b = .ok true) ∧
    ∀ start, start <+: blocks →
      start.foldl (fun used b => Word.satAdd used b.basePlasma) used ≤ market.budget

theorem affordableFrom_nil : AffordableFrom market used [] ↔ used ≤ market.budget := by
  constructor
  · intro h
    exact h.2 [] (List.prefix_refl _)
  · intro h
    refine ⟨fun b hb => absurd hb List.not_mem_nil, fun start hstart => ?_⟩
    rw [List.prefix_nil.mp hstart]
    exact h

theorem affordableFrom_cons {b : Block} {rest : List Block} :
    AffordableFrom market used (b :: rest) ↔ used ≤ market.budget ∧
      market.paysEnough b = .ok true ∧
        AffordableFrom market (Word.satAdd used b.basePlasma) rest := by
  constructor
  · rintro ⟨hpays, hfits⟩
    refine ⟨hfits [] (List.nil_prefix), hpays b (List.mem_cons_self ..),
      fun c hc => hpays c (List.mem_cons_of_mem _ hc), fun start hstart => ?_⟩
    exact hfits (b :: start) (List.cons_prefix_cons.mpr ⟨rfl, hstart⟩)
  · rintro ⟨hle, hb, hpays, hfits⟩
    refine ⟨fun c hc => ?_, fun start hstart => ?_⟩
    · cases List.mem_cons.mp hc with
      | inl he => exact he ▸ hb
      | inr hm => exact hpays c hm
    · cases start with
      | nil => exact hle
      | cons c start =>
          obtain ⟨rfl, hprefix⟩ := List.cons_prefix_cons.mp hstart
          exact hfits start hprefix

/-- `admitted` is the longest prefix of `blocks` that has a property. -/
def LongestPrefix (P : List Block → Prop) (blocks admitted : List Block) : Prop :=
  admitted <+: blocks ∧ P admitted ∧ ∀ longer, longer <+: blocks → P longer → longer <+: admitted

/-- The second pass admits the longest prefix that is affordable. -/
theorem acceptUsers_longest {blocks admitted : List Block} (hused : used ≤ market.budget)
    (h : acceptUsers market used blocks = .ok admitted) :
    LongestPrefix (AffordableFrom market used) blocks admitted := by
  induction blocks generalizing used admitted with
  | nil =>
      cases h
      exact ⟨List.prefix_refl _, affordableFrom_nil.mpr hused, fun longer hlonger _ => hlonger⟩
  | cons b rest ih =>
      rcases acceptUsers_cons_eq_ok h with ⟨rfl, hstop⟩ | ⟨hle, hpays, later, hlater, rfl⟩
      · refine ⟨List.nil_prefix, affordableFrom_nil.mpr hused, fun longer hlonger haff => ?_⟩
        cases longer with
        | nil => exact List.prefix_refl _
        | cons c longer =>
            -- a longer prefix would begin with the block that the pass refused
            obtain ⟨rfl, _⟩ := List.cons_prefix_cons.mp hlonger
            obtain ⟨_, hpays, hlater⟩ := affordableFrom_cons.mp haff
            rw [hstop (hlater.2 [] List.nil_prefix)] at hpays
            cases hpays
      · obtain ⟨hpre, haff, hmax⟩ := ih hle hlater
        refine ⟨List.cons_prefix_cons.mpr ⟨rfl, hpre⟩,
          affordableFrom_cons.mpr ⟨hused, hpays, haff⟩, fun longer hlonger hl => ?_⟩
        cases longer with
        | nil => exact List.nil_prefix
        | cons c longer =>
            obtain ⟨rfl, hprefix⟩ := List.cons_prefix_cons.mp hlonger
            obtain ⟨_, _, hl⟩ := affordableFrom_cons.mp hl
            exact List.cons_prefix_cons.mpr ⟨rfl, hmax longer hprefix hl⟩

end

/-! ## One pass as two -/

theorem acceptFrom_users (market : Plasma.Market) (tally : Tally) {blocks : List Block}
    (husers : ∀ b ∈ blocks, b.isContract = false) :
    acceptFrom market tally blocks = acceptUsers market tally.used blocks := by
  induction blocks generalizing tally with
  | nil => rfl
  | cons b rest ih =>
      have hb := husers b (List.mem_cons_self ..)
      have hrest := fun used => ih { tally with used } fun c hc =>
        husers c (List.mem_cons_of_mem _ hc)
      rw [acceptFrom, acceptUsers, hb, if_neg Bool.false_ne_true]
      simp only [hrest]

/-- The contract blocks in front are admitted by batches, whatever comes behind. -/
theorem acceptFrom_contracts (market : Plasma.Market) (tally : Tally) {front back : List Block}
    (hfront : ∀ b ∈ front, b.isContract = true) (hback : ∀ b ∈ back, b.isContract = false) :
    acceptFrom market tally (front ++ back) =
      ((fitting market.contractCap tally.contracts (batchesFrom tally.batch front)).flatten ++ ·)
        <$> acceptUsers market tally.used back := by
  induction front generalizing tally with
  | nil =>
      rw [List.nil_append, acceptFrom_users market tally hback]
      exact (id_map _).symm
  | cons b front ih =>
      have hb := hfront b (List.mem_cons_self ..)
      have hrest := fun tally => ih tally fun c hc => hfront c (List.mem_cons_of_mem _ hc)
      rw [List.cons_append, acceptFrom, hb, if_pos rfl, batchesFrom]
      by_cases hsend : b.kind = .contractSend
      · rw [if_pos hsend, if_pos hsend, hrest]
      · rw [if_neg hsend, if_neg hsend, fitting]
        by_cases hcap : market.contractCap < (tally.batch ++ [b]).length + tally.contracts
        · rw [if_pos hcap, if_pos hcap, hrest]
        · rw [if_neg hcap, if_neg hcap, hrest]
          cases acceptUsers market tally.used back with
          | error fault => rfl
          | ok later =>
              rw [List.flatten_cons]
              exact congrArg Except.ok (List.append_assoc ..).symm

namespace Rules

variable {rules : Rules} {pool : List Block}

/-- The batches of a pool in order of priority. -/
def heldBatches (rules : Rules) (pool : List Block) : List (List Block) :=
  batches (contracts (rules.order pool))

/-- The batches of a pool that are admitted. -/
def admittedBatches (rules : Rules) (pool : List Block) : List (List Block) :=
  fitting rules.market.contractCap 0 (rules.heldBatches pool)

/-- The contract blocks are the batches and a rest of sends. -/
theorem heldBatches_spec (rules : Rules) (pool : List Block) :
    (∀ batch ∈ rules.heldBatches pool, IsBatch batch) ∧
      ∃ tail, contracts (rules.order pool) = (rules.heldBatches pool).flatten ++ tail ∧
        ∀ t ∈ tail, t.kind = .contractSend := batches_spec _

theorem mem_held_of_admitted {batch : List Block} (h : batch ∈ rules.admittedBatches pool) :
    batch ∈ rules.heldBatches pool := (fitting_sublist ..).subset h

/-- A content is the batches that fit and the user blocks that are accepted. -/
theorem content_eq (rules : Rules) (pool : List Block) :
    rules.content pool = ((rules.admittedBatches pool).flatten ++ ·)
      <$> acceptUsers rules.market 0 (users (rules.order pool)) := by
  have hsplit : rules.content pool = acceptFrom rules.market {}
      (contracts (rules.order pool) ++ users (rules.order pool)) :=
    congrArg (acceptFrom rules.market {}) (rules.order_eq_append pool)
  rw [hsplit]
  exact acceptFrom_contracts rules.market {} (fun b hb => (mem_contracts.mp hb).2)
    fun b hb => (mem_users.mp hb).2

theorem admittedBatches_sublist (rules : Rules) (pool : List Block) :
    (rules.admittedBatches pool).flatten.Sublist (contracts (rules.order pool)) := by
  obtain ⟨_, tail, htail, _⟩ := rules.heldBatches_spec pool
  rw [htail]
  exact (flatten_sublist (fitting_sublist ..)).trans (List.sublist_append_left ..)

section

variable {blocks : List Block} (h : rules.content pool = .ok blocks)
include h

/-- The parts of a content are the results of the two passes. -/
theorem content_parts : blocks = contracts blocks ++ users blocks ∧
    contracts blocks = (rules.admittedBatches pool).flatten ∧
    acceptUsers rules.market 0 (users (rules.order pool)) = .ok (users blocks) := by
  rw [content_eq] at h
  cases hlater : acceptUsers rules.market 0 (users (rules.order pool)) with
  | error fault =>
      rw [hlater] at h
      cases h
  | ok later =>
      rw [hlater] at h
      cases h
      have hfront : ∀ b ∈ (rules.admittedBatches pool).flatten, b.isContract = true := fun b hb =>
        (mem_contracts.mp ((rules.admittedBatches_sublist pool).subset hb)).2
      have hback : ∀ b ∈ later, b.isContract = false := fun b hb =>
        (mem_users.mp ((acceptUsers_longest UInt64.zero_le hlater).1.subset hb)).2
      obtain ⟨hcontracts, husers⟩ := contracts_append_users hfront hback
      rw [hcontracts, husers]
      exact ⟨rfl, rfl, rfl⟩

/-- The user blocks of a content are the longest prefix that is affordable. -/
theorem users_content_longest :
    LongestPrefix (AffordableFrom rules.market 0) (users (rules.order pool)) (users blocks) :=
  acceptUsers_longest UInt64.zero_le (content_parts h).2.2

/-- A content keeps the order of priority. -/
theorem content_sublist : blocks.Sublist (rules.order pool) := by
  obtain ⟨heq, hcontracts, _⟩ := content_parts h
  rw [heq, order_eq_append, hcontracts]
  exact (rules.admittedBatches_sublist pool).append (users_content_longest h).1.sublist

end

/-- There is a content: the price of the round can be told, or the first user
block exceeds the budget on its own. -/
def Priceable (rules : Rules) (pool : List Block) : Prop :=
  rules.market.PriceFits ∨
    ∀ b ∈ (users (rules.order pool)).head?, rules.market.budget < b.basePlasma

theorem content_isOk_iff : (∃ blocks, rules.content pool = .ok blocks) ↔ rules.Priceable pool := by
  have hiff : (∃ later, acceptUsers rules.market 0 (users (rules.order pool)) = .ok later) ↔ _ :=
    acceptUsers_isOk_iff fun b hb => (mem_users.mp hb).2
  simp only [Word.satAdd_zero_left] at hiff
  rw [Priceable, ← hiff, content_eq]
  constructor
  · rintro ⟨blocks, h⟩
    cases hlater : acceptUsers rules.market 0 (users (rules.order pool)) with
    | error fault =>
        rw [hlater] at h
        cases h
    | ok later => exact ⟨later, rfl⟩
  · rintro ⟨later, h⟩
    rw [h]
    exact ⟨_, rfl⟩

/-! ## Small pools -/

/-- Rules with a budget, minimal prices and no priority addresses. -/
def plain (budget : UInt64) : Rules where
  market := .withPrices 0 0 { Plasma.Variables.initial with budget }
  priority := .empty

end Rules

/-- The user account with a number. -/
def userAccount (number : UInt8) : Address :=
  ⟨Vector.ofFn fun i => if i.val = 19 then number else 0⟩

/-- A hash that is told apart by two bytes. -/
def plainHash (first second : UInt8) : Hash :=
  ⟨Vector.ofFn fun i => if i.val = 0 then first else if i.val = 1 then second else 0⟩

/-- A block of a contract. -/
def contractBlock (contract : Address) (kind : Block.Kind) (height : UInt64) : Block :=
  { kind, address := contract, height }

/-- A block of a user account. -/
def userBlock (number : UInt8) (height fused base : UInt64) : Block :=
  { address := userAccount number, height, fusedPlasma := fused, basePlasma := base
    hash := plainHash number height.toUInt8 }

end MomentumChain.Selection
