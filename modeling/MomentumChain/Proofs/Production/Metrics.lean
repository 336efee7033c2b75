import MomentumChain.Proofs.Production.Refusal

/-!
# Counters over a run

A producer counts what it does while it does it, at several steps of a round.  The counters
nevertheless say nothing that the finalized momentums do not say, except for the number of
errors and the time of the selections (`Tallies`, `metrics_tally`).  In particular the plasma
that is counted is what the blocks of the priced momentums pay, block by block.  It does not
depend on the prices of their rounds, since the shares of a block do not.

All counters start over after the largest word, and so do the numbers that they are compared
with (`UInt64.ofNat`).  The plasma of a single momentum does not start over but stops at the
largest word.  So the momentums must not reach that far (`Unsaturated`).
-/

namespace MomentumChain

open Selection

theorem Plasma.fusionUse_append (blocks more : List Block) :
    fusionUse (blocks ++ more) = fusionUse blocks + fusionUse more := by
  rw [fusionUse, List.map_append, List.sum_append]
  rfl

theorem Plasma.workUse_append (blocks more : List Block) :
    workUse (blocks ++ more) = workUse blocks + workUse more := by
  rw [workUse, List.map_append, List.sum_append]
  rfl

namespace Production

open Plasma

/-! ## What the finalized momentums say -/

/-- The blocks of several momentums. -/
def blocksOf (finalized : List Momentum.Signed) : List Block :=
  finalized.flatMap fun signed => signed.detailed.blocks

/-- The momentums that record prices. -/
def priced (finalized : List Momentum.Signed) : List Momentum.Signed :=
  finalized.filter fun signed => signed.detailed.momentum.version = 2

/-- The plasma of each resource in the blocks of a momentum fits in a word. -/
def Unsaturated (signed : Momentum.Signed) : Prop :=
  fusionUse signed.detailed.blocks < UInt64.size ∧ workUse signed.detailed.blocks < UInt64.size

/-- The counters of a producer that has finalized momentums and met errors. -/
structure Tallies (finalized : List Momentum.Signed) (errors : Nat) (metrics : Metrics) :
    Prop where
  produced : metrics.produced = UInt64.ofNat finalized.length
  legacy : metrics.legacy =
    UInt64.ofNat (finalized.countP fun signed => signed.detailed.momentum.version = 1)
  failed : metrics.failed = UInt64.ofNat errors
  blocks : metrics.blocks = UInt64.ofNat (blocksOf finalized).length
  contracts : metrics.contracts = UInt64.ofNat ((blocksOf finalized).countP Block.isContract)
  usage : (∀ signed ∈ priced finalized, Unsaturated signed) →
    metrics.fusion = UInt64.ofNat (fusionUse (blocksOf (priced finalized))) ∧
      metrics.work = UInt64.ofNat (workUse (blocksOf (priced finalized)))

namespace Tallies

variable {finalized : List Momentum.Signed} {errors : Nat} {metrics : Metrics}

theorem start : Tallies [] 0 {} where
  produced := rfl
  legacy := rfl
  failed := rfl
  blocks := rfl
  contracts := rfl
  usage _ := ⟨rfl, rfl⟩

/-- The time of a selection is not a matter of the momentums. -/
theorem addSelection (h : Tallies finalized errors metrics) (elapsed : UInt64) :
    Tallies finalized errors (metrics.addSelection elapsed) where
  produced := h.produced
  legacy := h.legacy
  failed := h.failed
  blocks := h.blocks
  contracts := h.contracts
  usage := h.usage

theorem addFailure (h : Tallies finalized errors metrics) :
    Tallies finalized (errors + 1) metrics.addFailure where
  produced := h.produced
  legacy := h.legacy
  failed := by
    rw [UInt64.ofNat_add, ← h.failed]
    rfl
  blocks := h.blocks
  contracts := h.contracts
  usage := h.usage

end Tallies

/-- The usage of a plan is what its blocks pay, if they are priced. -/
theorem Planned.usage_eq {priority : Address.Set} {chain : Chain} {plan : Plan}
    (planned : Planned priority chain plan) :
    (plan.version = 1 ∧ plan.usage = .none) ∨
      (plan.version = 2 ∧
        plan.usage.fusion.toNat = min (fusionUse plan.blocks) (UInt64.size - 1) ∧
        plan.usage.work.toNat = min (workUse plan.blocks) (UInt64.size - 1)) := by
  cases planned with
  | legacy => exact .inl ⟨rfl, rfl⟩
  | @dynamic blocks usage _ _ _ _ _ used =>
      obtain ⟨usage', hused, hfusion, hwork⟩ :=
        Market.totalUsage_eq (Market.hasPrices_after _ chain.store.vars) blocks
      rw [Chain.market, hused] at used
      cases used
      exact .inr ⟨rfl, hfusion, hwork⟩

/-- What the momentum of a plan adds to the counters. -/
theorem Plan.count_eq (plan : Plan) (metrics : Metrics) :
    plan.count metrics = { metrics with
      produced := metrics.produced + 1
      legacy := metrics.legacy + if plan.version = 1 then 1 else 0
      blocks := metrics.blocks + UInt64.ofNat plan.blocks.length
      contracts := metrics.contracts + UInt64.ofNat (plan.blocks.countP Block.isContract)
      fusion := metrics.fusion + plan.usage.fusion
      work := metrics.work + plan.usage.work } := by
  have hlegacy : Momentum.legacyVersion = 1 := rfl
  unfold Plan.count
  rw [hlegacy]
  split
  · rfl
  · rw [UInt64.add_zero]
    rfl

theorem eq_ofNat_of_min {word : UInt64} {n : Nat} (h : word.toNat = min n (UInt64.size - 1))
    (hfits : n < UInt64.size) : word = UInt64.ofNat n := by
  rw [← UInt64.toNat_inj, UInt64.toNat_ofNat', Nat.mod_eq_of_lt hfits, h]
  omega

theorem blocksOf_concat (finalized : List Momentum.Signed) (signed : Momentum.Signed) :
    blocksOf (finalized ++ [signed]) = blocksOf finalized ++ signed.detailed.blocks := by
  simp [blocksOf]

theorem priced_concat (finalized : List Momentum.Signed) (signed : Momentum.Signed) :
    priced (finalized ++ [signed]) =
      priced finalized ++ if signed.detailed.momentum.version = 2 then [signed] else [] := by
  rw [priced, List.filter_append, List.filter_singleton]
  simp [priced]

section

variable {producer : Producer} {finalized : List Momentum.Signed} {errors : Nat}
  {metrics : Metrics} {chain : Chain} {slot : Election.Slot} {plan : Plan}

/-- What is counted of the plasma stays exact while no momentum saturates. -/
theorem Tallies.usage_extend (h : Tallies finalized errors metrics)
    (planned : Planned producer.config.priority chain plan)
    (hfits : ∀ signed ∈ priced (finalized ++ [producer.extend chain slot plan]),
      Unsaturated signed) :
    metrics.fusion + plan.usage.fusion = UInt64.ofNat (fusionUse (blocksOf (priced
        (finalized ++ [producer.extend chain slot plan])))) ∧
      metrics.work + plan.usage.work = UInt64.ofNat (workUse (blocksOf (priced
        (finalized ++ [producer.extend chain slot plan])))) := by
  have hversion : (producer.extend chain slot plan).detailed.momentum.version = plan.version := rfl
  have hblocks : (producer.extend chain slot plan).detailed.blocks = plan.blocks := rfl
  rw [priced_concat, hversion] at hfits ⊢
  obtain ⟨hfusion, hwork⟩ := h.usage fun signed hsigned =>
    hfits signed (List.mem_append_left _ hsigned)
  cases planned.usage_eq with
  | inl hlegacy =>
      obtain ⟨hone, hnone⟩ := hlegacy
      rw [hone, if_neg (by decide), List.append_nil, hnone]
      exact ⟨(UInt64.add_zero _).trans hfusion, (UInt64.add_zero _).trans hwork⟩
  | inr hpriced =>
      obtain ⟨htwo, hfusionUse, hworkUse⟩ := hpriced
      rw [htwo, if_pos rfl] at hfits ⊢
      obtain ⟨hfusionFits, hworkFits⟩ :=
        hfits _ (List.mem_append_right _ (List.mem_singleton_self _))
      rw [hblocks] at hfusionFits hworkFits
      rw [blocksOf_concat, hblocks, fusionUse_append, workUse_append, UInt64.ofNat_add,
        UInt64.ofNat_add, ← hfusion, ← hwork, eq_ofNat_of_min hfusionUse hfusionFits,
        eq_ofNat_of_min hworkUse hworkFits]
      exact ⟨rfl, rfl⟩

/-- A momentum that is finalized is counted. -/
theorem Tallies.extend (h : Tallies finalized errors metrics)
    (planned : Planned producer.config.priority chain plan) :
    Tallies (finalized ++ [producer.extend chain slot plan]) errors (plan.count metrics) := by
  have hversion : (producer.extend chain slot plan).detailed.momentum.version = plan.version := rfl
  have hblocks : (producer.extend chain slot plan).detailed.blocks = plan.blocks := rfl
  rw [Plan.count_eq]
  exact {
    produced := by
      rw [List.length_append, UInt64.ofNat_add, ← h.produced]
      rfl
    legacy := by
      rw [List.countP_append, List.countP_singleton, UInt64.ofNat_add, ← h.legacy, hversion]
      by_cases hone : plan.version = 1
      · simp [hone]
      · simp [hone]
    failed := h.failed
    blocks := by rw [blocksOf_concat, List.length_append, UInt64.ofNat_add, ← h.blocks, hblocks]
    contracts := by
      rw [blocksOf_concat, List.countP_append, UInt64.ofNat_add, ← h.contracts, hblocks]
    usage := h.usage_extend planned }

end

/-! ## Runs -/

/-- The error that an outcome is, if it is one. -/
def errorOf : Except (Failure Error) Momentum.Signed → List Error
  | .error (.error error) => [error]
  | .error (.fault _) | .ok _ => []

namespace Producer

/-- The error that an event ends in, if it does. -/
def errorOf (producer : Producer) (s : State) : Event → List Error
  | .round slot elapsed => Production.errorOf ((producer.produce slot elapsed).run s).1
  | .insert _ | .setSporks _ | .setVariables _ | .storeOutage _ | .poolOutage _
  | .signerOutage _ => []

/-- The errors of a run, in order. -/
def errors (producer : Producer) : State → List Event → List Error
  | _, [] => []
  | s, event :: events =>
      producer.errorOf s event ++ producer.errors (producer.step s event) events

end Producer

/-- The counters are those of the finalized momentums. -/
def State.Tallied (s : State) (errors : Nat) : Prop :=
  Tallies s.chain.finalizer.finalized errors s.metrics

/-- However a round ends, it counts what it adds. -/
theorem Ends.tallied {producer : Producer} {slot : Election.Slot} {elapsed : UInt64} {s : State}
    {ending : Except (Failure Error) Momentum.Signed × State} {errors : Nat}
    (hends : Ends producer slot elapsed s ending) (h : s.Tallied errors) :
    ending.2.Tallied (errors + (errorOf ending.1).length) := by
  have hselected : Tallies s.chain.finalizer.finalized errors (s.selected elapsed) := by
    unfold State.selected
    split
    · exact h.addSelection elapsed
    · exact h
  cases hends with
  | noStore | noHeight | noPool => exact h.addFailure
  | fault => exact h
  | violation => exact (h.addSelection elapsed).addFailure
  | noSigner => exact hselected.addFailure
  | signed _ planned =>
      rw [State.Tallied, Chain.finalized_append]
      exact hselected.extend planned

theorem step_tallied (producer : Producer) {s : State} {errors : Nat} (h : s.Tallied errors)
    (event : Event) :
    (producer.step s event).Tallied (errors + (producer.errorOf s event).length) := by
  cases event with
  | insert | setSporks | setVariables | storeOutage | poolOutage | signerOutage => exact h
  | round slot elapsed => exact (produce_ends producer slot elapsed s).tallied h

theorem run_tallied (producer : Producer) (events : List Event) {s : State} {errors : Nat}
    (h : s.Tallied errors) :
    (producer.run s events).Tallied (errors + (producer.errors s events).length) := by
  induction events generalizing s errors with
  | nil => exact h
  | cons event events ih =>
      rw [Producer.errors, List.length_append, ← Nat.add_assoc]
      exact ih (step_tallied producer h event)

/-- After any run of a producer its counters are those of the momentums that are finalized
and of the rounds that have ended in an error. -/
theorem metrics_tally (producer : Producer) (genesis : Momentum) (events : List Event) :
    let s := producer.run (.start genesis) events
    Tallies s.chain.finalizer.finalized (producer.errors (.start genesis) events).length
      s.metrics := by
  intro s
  have h := run_tallied producer events (s := .start genesis) .start
  rwa [Nat.zero_add] at h

theorem errorOf_eq_nil_of_committed {producer : Producer} {s : State} {event : Event}
    {commitment : Commitment} (h : producer.committed? s event = some commitment) :
    producer.errorOf s event = [] := by
  cases event with
  | insert | setSporks | setVariables | storeOutage | poolOutage | signerOutage => rfl
  | round slot elapsed =>
      simp only [Producer.committed?] at h
      simp only [Producer.errorOf]
      split at h
      · rename_i hok
        rw [hok]
        rfl
      · cases h

theorem errors_concat (producer : Producer) (s : State) (events : List Event) (event : Event) :
    producer.errors s (events ++ [event]) =
      producer.errors s events ++ producer.errorOf (producer.run s events) event := by
  induction events generalizing s with
  | nil => exact List.append_nil _
  | cons first events ih =>
      rw [List.cons_append, Producer.errors, ih, ← List.append_assoc]
      rfl

/-- The blocks that are planned are the content. -/
theorem Planned.blocks_eq {priority : Address.Set} {chain : Chain} {plan : Plan}
    {blocks : List Block} (planned : Planned priority chain plan)
    (hdynamic : chain.isDynamic = true)
    (hcontent : (chain.rules priority).content chain.pool.blocks = .ok blocks) :
    plan.blocks = blocks ∧ plan.version = 2 := by
  cases planned with
  | legacy legacy =>
      rw [hdynamic] at legacy
      cases legacy
  | dynamic _ content =>
      rw [hcontent] at content
      cases content
      exact ⟨rfl, rfl⟩

/-- A block that pays with both resources. -/
def payer : Block := { userBlock 2 1 63000 42000 with difficulty := 45000000 }

/-- What a contract receives costs nothing, and its block goes first. -/
def receipt : Block := contractBlock .pillarContract .contractReceive 1

/-- A round fails, the next commits a block without prices, and prices come into force. -/
def upgrade : List Event :=
  [.insert [userBlock 1 1 21000 21000], .signerOutage true, .round ⟨"lone", .zero, 10, 20⟩ 0,
    .signerOutage false, .round ⟨"lone", .zero, 20, 30⟩ 0, .insert [payer, receipt],
    .setSporks (.ofList [.dynamicPlasma])]

theorem metrics_tally_upgrade :
    let s := (lone ⟨[]⟩).run (.start {}) (upgrade ++ [.round ⟨"lone", .zero, 30, 40⟩ 5])
    (∀ signed ∈ priced s.chain.finalizer.finalized, Unsaturated signed) ∧
      s.metrics.produced = 2 ∧ s.metrics.legacy = 1 ∧ s.metrics.failed = 1 ∧
      s.metrics.blocks = 3 ∧ s.metrics.contracts = 1 ∧ s.metrics.fusion = 28451 ∧
      s.metrics.work = 13549 := by
  intro s
  let before := (lone ⟨[]⟩).run (.start {}) upgrade
  have hcontent : (before.chain.rules .empty).content before.chain.pool.blocks =
      .ok [receipt, payer] := by
    have hrules : before.chain.rules .empty = ⟨.withPrices 1000 1000 .initial, .empty⟩ := rfl
    have hpool : before.chain.pool.blocks = [payer, receipt] := rfl
    rw [hrules, hpool]
    cbv
  have hstep : s = (lone ⟨[]⟩).step before (.round ⟨"lone", .zero, 30, 40⟩ 5) := rfl
  have hready : ∃ commitment, (lone ⟨[]⟩).committed? before (.round ⟨"lone", .zero, 30, 40⟩ 5) =
      some commitment :=
    exists_committed_iff.mpr ⟨⟨rfl, by decide, rfl⟩, rfl, Chain.exists_planned rfl hcontent rfl⟩
  obtain ⟨commitment, hcommitted⟩ := hready
  have hmoves := step_moves (lone ⟨[]⟩) before (.round ⟨"lone", .zero, 30, 40⟩ 5)
  rw [hcommitted, ← hstep] at hmoves
  -- what is finalized is a momentum without prices and one with the two blocks
  have hfinalized : ∃ signed,
      s.chain.finalizer.finalized = before.chain.finalizer.finalized ++ [signed] ∧
      signed.detailed.blocks = [receipt, payer] ∧ signed.detailed.momentum.version = 2 := by
    generalize s.chain = next at hmoves
    cases hmoves with
    | @commits slot plan ready planned =>
        obtain ⟨hblocks, hversion⟩ := planned.blocks_eq rfl hcontent
        exact ⟨_, Chain.finalized_append, hblocks, hversion⟩
  obtain ⟨signed, hsigned, hblocks, hversion⟩ := hfinalized
  have hpriced : priced s.chain.finalizer.finalized = [signed] := by
    rw [hsigned, priced_concat, hversion]
    rfl
  have hall : blocksOf s.chain.finalizer.finalized =
      [userBlock 1 1 21000 21000, receipt, payer] := by
    rw [hsigned, blocksOf_concat, hblocks]
    rfl
  have hfits : ∀ signed ∈ priced s.chain.finalizer.finalized, Unsaturated signed := by
    rw [hpriced]
    intro _ hmem
    rw [List.mem_singleton.mp hmem, Unsaturated, hblocks]
    decide
  have htally := metrics_tally (lone ⟨[]⟩) {} (upgrade ++ [.round ⟨"lone", .zero, 30, 40⟩ 5])
  obtain ⟨hfusion, hwork⟩ := htally.usage hfits
  have hfailed : (lone ⟨[]⟩).errors (.start {}) (upgrade ++ [.round ⟨"lone", .zero, 30, 40⟩ 5]) =
      [.finalizer "signer unavailable"] := by
    rw [errors_concat, errorOf_eq_nil_of_committed hcommitted]
    rfl
  refine ⟨hfits, ?_, ?_, ?_, ?_, ?_, hfusion.trans ?_, hwork.trans ?_⟩
  · rw [htally.produced, hsigned]
    rfl
  · rw [htally.legacy, hsigned, List.countP_append, List.countP_singleton, hversion]
    rfl
  · rw [htally.failed, hfailed]
    rfl
  · rw [htally.blocks, hall]
    rfl
  · rw [htally.contracts, hall]
    rfl
  · show UInt64.ofNat (fusionUse (blocksOf (priced s.chain.finalizer.finalized))) = _
    rw [hpriced, blocksOf, List.flatMap_singleton, hblocks]
    decide
  · show UInt64.ofNat (workUse (blocksOf (priced s.chain.finalizer.finalized))) = _
    rw [hpriced, blocksOf, List.flatMap_singleton, hblocks]
    decide

end Production

end MomentumChain
