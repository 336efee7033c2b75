import MomentumChain.Election.Schedule
import MomentumChain.Production.Chain
import MomentumChain.Production.Config
import MomentumChain.Production.Metrics
import MomentumChain.Selection.Admission

/-!
# Rounds

In its slot a producer extends the chain by one momentum.  The round

1. reads the frontier, whose height must have a successor,
2. plans the content: with the market of the round if the dynamic plasma spork is
   in force, and all waiting blocks in the older format without prices if not,
3. signs the momentum, which may commit it, and
4. counts what it has produced.

A round acts on the chain and on the counters as it goes, and what it has done
stays done if it fails later on.  `Producer.produce` runs a round and counts a
failure.  A round that meets an arithmetic fault is not counted.

The check of the limits, and the end of a round at an arithmetic fault, are those
of the build with debug assertions.
-/

namespace MomentumChain.Production

/-- What a round acts on. -/
structure State where
  chain : Chain
  metrics : Metrics := {}

/-- A part of a round. -/
abbrev Round (α : Type) : Type := ExceptT (Failure Error) (StateM State) α

namespace Round

/-- A computation with errors as a part of a round. -/
def ofExcept {α : Type} (computation : Except Error α) : Round α :=
  ExceptT.mk (pure (Failure.ofExcept computation))

/-- A checked computation as a part of a round. -/
def ofChecked {α : Type} (computation : Checked α) : Round α :=
  ExceptT.mk (pure (Failure.ofChecked computation))

def modifyChain (change : Chain → Chain) : Round Unit :=
  modify fun state => { state with chain := change state.chain }

def modifyMetrics (change : Metrics → Metrics) : Round Unit :=
  modify fun state => { state with metrics := change state.metrics }

end Round

/-! ## Planning -/

/-- What a round is going to commit. -/
structure Plan where
  blocks : List Block
  version : UInt64
  nextFusionPrice : UInt64
  nextWorkPrice : UInt64
  /-- The plasma that is priced. -/
  usage : Plasma.Usage

/-- All waiting blocks in the format without prices. -/
def planLegacy : Round Plan := do
  let blocks ← Round.ofExcept (← get).chain.pool.read
  return ⟨blocks, Momentum.legacyVersion, 0, 0, .none⟩

/-- The blocks chosen under the market of the round and the prices that follow.
The choice takes `elapsed` microseconds. -/
def planDynamic (priority : Address.Set) (previous : Momentum) (elapsed : UInt64) :
    Round Plan := do
  let vars ← Round.ofExcept (← get).chain.store.readVariables
  let market := Plasma.Market.after previous vars
  let candidates ← Round.ofExcept (← get).chain.pool.read
  let blocks ← Round.ofChecked (Selection.Rules.content ⟨market, priority⟩ candidates)
  Round.modifyMetrics (·.addSelection elapsed)
  Round.ofExcept
    ((Selection.checkLimits blocks market.budget market.contractCap).mapError .violation)
  let usage ← Round.ofChecked (market.totalUsage blocks)
  let nextFusionPrice ← Round.ofChecked (market.nextFusionPrice usage.fusion)
  let nextWorkPrice ← Round.ofChecked (market.nextWorkPrice usage.work)
  return ⟨blocks, Momentum.dynamicVersion, nextFusionPrice, nextWorkPrice, usage⟩

/-- The momentum of a plan. -/
def Plan.assemble (plan : Plan) (chainId : UInt64) (previous : Momentum)
    (height timestamp : UInt64) : Momentum.Detailed :=
  let momentum : Momentum :=
    { chainId, height, timestamp
      version := plan.version
      previousHash := previous.hash
      content := plan.blocks.map Block.header
      nextFusionPrice := plan.nextFusionPrice
      nextWorkPrice := plan.nextWorkPrice }
  ⟨momentum.hashed, plan.blocks⟩

/-! ## Signing and counting -/

/-- Signs a momentum, and commits it if the finalizer does so. -/
def finalize (signer : Signer) (detailed : Momentum.Detailed) : Round Momentum.Signed := do
  let finalizer := (← get).chain.finalizer
  if finalizer.failing then
    throw (.error (.finalizer "signer unavailable"))
  let signed := signer.sign detailed
  if finalizer.committing then
    Round.modifyChain (·.commit detailed.momentum)
  Round.modifyChain (·.keep signed)
  return signed

/-- Counts the momentum of a plan. -/
def Plan.count (plan : Plan) (metrics : Metrics) : Metrics :=
  let counted :=
    metrics.addMomentum plan.blocks.length (Selection.contractCount plan.blocks) plan.usage
  if plan.version = Momentum.legacyVersion then counted.addLegacy else counted

/-- The height after a momentum. -/
def nextHeight (previous : Momentum) : Except Error UInt64 :=
  if previous.height = Word.max64 then .error (.heightOverflow previous.height)
  else .ok (previous.height + 1)

/-- The round of a slot. -/
def build (config : Config) (signer : Signer) (slot : Election.Slot) (elapsed : UInt64) :
    Round Momentum.Signed := do
  let previous ← Round.ofExcept (← get).chain.store.readFrontier
  let height ← Round.ofExcept (nextHeight previous)
  let dynamic ← Round.ofExcept ((← get).chain.store.readSpork .dynamicPlasma)
  let plan ← if dynamic then planDynamic config.priority previous elapsed else planLegacy
  let signed ← finalize signer (plan.assemble config.chainId previous height slot.start)
  Round.modifyMetrics plan.count
  return signed

/-! ## Producers -/

/-- A configured signer. -/
structure Producer where
  config : Config
  signer : Signer
  flawless : config.flaw? signer.address = none

namespace Producer

/-- The producer of a configuration. -/
def create (config : Config) (signer : Signer) : Except Error Producer :=
  match h : config.flaw? signer.address with
  | none => .ok ⟨config, signer, h⟩
  | some flaw => .error (.configuration flaw.message)

/-- Runs the round of a slot and counts a failure. -/
def produce (producer : Producer) (slot : Election.Slot) (elapsed : UInt64) :
    StateM State (Except (Failure Error) Momentum.Signed) := do
  let outcome ← (build producer.config producer.signer slot elapsed).run
  match outcome with
  | .error (.error _) =>
      modify fun state => { state with metrics := state.metrics.addFailure }
  | .error (.fault _) | .ok _ => pure ()
  return outcome

end Producer

end MomentumChain.Production
