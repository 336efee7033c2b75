import Mathlib
import MomentumChain.Production.Round
import MomentumChain.Proofs.Plasma.Usage
import MomentumChain.Proofs.Selection.Limits

/-!
# What a round does

A round reads the chain, plans and signs, and it can end at each of these steps.
`Ends` lists all its ends, each with the reads that lead to it, the outcome, and
the state that it leaves behind.  `produce_ends` says that the list is complete.
Statements on rounds and on runs are read off the list, and none of them looks at
the program of a round again.

Three things stand out in the list.

* The chain is changed at one end only, where a momentum is signed (`Ends.signed`).
* A fault comes from the selection only (`Ends.fault`).  The usage and the next
  prices of a selection always exist.
* Only a height can violate a limit, so a violation is one of `checkHeights`.
-/

namespace MomentumChain.Production

/-! ## Parts of a round -/

namespace Round

/-- What a part of a round does from a state. -/
def runOn {α : Type} (round : Round α) (s : State) : Except (Failure Error) α × State :=
  round.run.run s

variable {α β : Type} {s : State}

@[simp] theorem runOn_pure (a : α) : runOn (pure a) s = (.ok a, s) := rfl

@[simp] theorem runOn_get : runOn get s = (.ok s, s) := rfl

@[simp] theorem runOn_throw (e : Failure Error) : runOn (throw e : Round α) s = (.error e, s) := rfl

@[simp] theorem runOn_ofExcept (c : Except Error α) :
    runOn (ofExcept c) s = (Failure.ofExcept c, s) := rfl

@[simp] theorem runOn_ofChecked (c : Checked α) :
    runOn (ofChecked c) s = (Failure.ofChecked c, s) := rfl

@[simp] theorem runOn_modifyChain (change : Chain → Chain) :
    runOn (modifyChain change) s = (.ok (), { s with chain := change s.chain }) := rfl

@[simp] theorem runOn_modifyMetrics (change : Metrics → Metrics) :
    runOn (modifyMetrics change) s = (.ok (), { s with metrics := change s.metrics }) := rfl

/-- A failure ends the round, and what was done before stays done. -/
@[simp] theorem runOn_bind (x : Round α) (f : α → Round β) :
    runOn (x >>= f) s =
      match runOn x s with
      | (.ok a, t) => runOn (f a) t
      | (.error e, t) => (.error e, t) := by
  show (ExceptT.bindCont f (runOn x s).1 : StateM State _) (runOn x s).2 = _
  cases runOn x s with
  | mk outcome t => cases outcome <;> rfl

@[simp] theorem runOn_map (f : α → β) (x : Round α) :
    runOn (f <$> x) s =
      match runOn x s with
      | (.ok a, t) => (.ok (f a), t)
      | (.error e, t) => (.error e, t) := by
  rw [map_eq_pure_bind, runOn_bind]
  rfl

end Round

/-! ## Plans -/

namespace Chain

/-- The market of the next round. -/
def market (chain : Chain) : Plasma.Market := .after chain.store.frontier chain.store.vars

/-- What decides on the content of the next round. -/
def rules (chain : Chain) (priority : Address.Set) : Selection.Rules := ⟨chain.market, priority⟩

/-- The next round selects and prices. -/
def isDynamic (chain : Chain) : Bool := chain.store.sporks.contains .dynamicPlasma

/-- A round can read all that it plans with, and the frontier has a successor. -/
structure Ready (chain : Chain) : Prop where
  store : chain.store.unavailable = false
  height : chain.store.frontier.height ≠ Word.max64
  pool : chain.pool.unavailable = false

/-- The chain after a signed momentum. -/
def append (chain : Chain) (signed : Momentum.Signed) : Chain :=
  (if chain.finalizer.committing then chain.commit signed.detailed.momentum else chain).keep signed

end Chain

/-- The plans of a round. -/
inductive Planned (priority : Address.Set) (chain : Chain) : Plan → Prop where
  | legacy (legacy : chain.isDynamic = false) :
      Planned priority chain ⟨chain.pool.blocks, Momentum.legacyVersion, 0, 0, .none⟩
  | dynamic {blocks : List Block} {usage : Plasma.Usage} {nextFusionPrice nextWorkPrice : UInt64}
      (dynamic : chain.isDynamic = true)
      (content : (chain.rules priority).content chain.pool.blocks = .ok blocks)
      (heights : Selection.checkHeights blocks = .ok ())
      (used : chain.market.totalUsage blocks = .ok usage)
      (fusion : chain.market.nextFusionPrice usage.fusion = .ok nextFusionPrice)
      (work : chain.market.nextWorkPrice usage.work = .ok nextWorkPrice) :
      Planned priority chain
        ⟨blocks, Momentum.dynamicVersion, nextFusionPrice, nextWorkPrice, usage⟩

/-- A plan that selects has a content whose heights ascend. -/
theorem Planned.exists_content {priority : Address.Set} {chain : Chain} {plan : Plan}
    (planned : Planned priority chain plan) (hdynamic : chain.isDynamic = true) :
    ∃ blocks, (chain.rules priority).content chain.pool.blocks = .ok blocks ∧
      Selection.checkHeights blocks = .ok () := by
  cases planned with
  | legacy legacy =>
      rw [hdynamic] at legacy
      cases legacy
  | dynamic _ content heights => exact ⟨_, content, heights⟩

/-- The counters after the selection of a round. -/
def State.selected (s : State) (elapsed : UInt64) : Metrics :=
  if s.chain.isDynamic then s.metrics.addSelection elapsed else s.metrics

/-- The momentum of a plan. -/
def Producer.extend (producer : Producer) (chain : Chain) (slot : Election.Slot) (plan : Plan) :
    Momentum.Signed :=
  producer.signer.sign (plan.assemble producer.config.chainId chain.store.frontier
    (chain.store.frontier.height + 1) slot.start)

/-- The ends of a round. -/
inductive Ends (producer : Producer) (slot : Election.Slot) (elapsed : UInt64) (s : State) :
    Except (Failure Error) Momentum.Signed × State → Prop where
  | noStore (store : s.chain.store.unavailable = true) :
      Ends producer slot elapsed s
        (.error (.error (.store "store unavailable")), { s with metrics := s.metrics.addFailure })
  | noHeight (store : s.chain.store.unavailable = false)
      (height : s.chain.store.frontier.height = Word.max64) :
      Ends producer slot elapsed s
        (.error (.error (.heightOverflow Word.max64)), { s with metrics := s.metrics.addFailure })
  | noPool (store : s.chain.store.unavailable = false)
      (height : s.chain.store.frontier.height ≠ Word.max64)
      (pool : s.chain.pool.unavailable = true) :
      Ends producer slot elapsed s
        (.error (.error (.pool "pool unavailable")), { s with metrics := s.metrics.addFailure })
  | fault {fault : ArithmeticFault} (ready : s.chain.Ready) (dynamic : s.chain.isDynamic = true)
      (content : (s.chain.rules producer.config.priority).content s.chain.pool.blocks
        = .error fault) :
      Ends producer slot elapsed s (.error (.fault fault), s)
  | violation {blocks : List Block} {cause : Selection.Violation} (ready : s.chain.Ready)
      (dynamic : s.chain.isDynamic = true)
      (content : (s.chain.rules producer.config.priority).content s.chain.pool.blocks = .ok blocks)
      (heights : Selection.checkHeights blocks = .error cause) :
      Ends producer slot elapsed s
        (.error (.error (.violation cause)),
          { s with metrics := (s.metrics.addSelection elapsed).addFailure })
  | noSigner {plan : Plan} (ready : s.chain.Ready)
      (planned : Planned producer.config.priority s.chain plan)
      (signer : s.chain.finalizer.failing = true) :
      Ends producer slot elapsed s
        (.error (.error (.finalizer "signer unavailable")),
          { s with metrics := (s.selected elapsed).addFailure })
  | signed {plan : Plan} (ready : s.chain.Ready)
      (planned : Planned producer.config.priority s.chain plan)
      (signer : s.chain.finalizer.failing = false) :
      Ends producer slot elapsed s
        (.ok (producer.extend s.chain slot plan),
          { chain := s.chain.append (producer.extend s.chain slot plan)
            metrics := plan.count (s.selected elapsed) })

/-! ## The list is complete -/

section

variable {s : State} {priority : Address.Set} {elapsed : UInt64}

theorem runOn_planLegacy (ready : s.chain.Ready) :
    Round.runOn planLegacy s =
      (.ok ⟨s.chain.pool.blocks, Momentum.legacyVersion, 0, 0, .none⟩, s) := by
  simp [planLegacy, Pool.read, ready.pool, Failure.ofExcept]

theorem runOn_planDynamic_of_fault {fault : ArithmeticFault} (ready : s.chain.Ready)
    (hcontent : (s.chain.rules priority).content s.chain.pool.blocks = .error fault) :
    Round.runOn (planDynamic priority s.chain.store.frontier elapsed) s =
      (.error (.fault fault), s) := by
  simp only [Chain.rules, Chain.market] at hcontent
  simp [planDynamic, Store.readVariables, Store.read, Pool.read, ready.store, ready.pool,
    Failure.ofExcept, Failure.ofChecked, hcontent]

/-- A selection is refused for its heights, or it can be priced. -/
theorem runOn_planDynamic {blocks : List Block} (elapsed : UInt64) (ready : s.chain.Ready)
    (hdynamic : s.chain.isDynamic = true)
    (hcontent : (s.chain.rules priority).content s.chain.pool.blocks = .ok blocks) :
    (∃ cause, Selection.checkHeights blocks = .error cause ∧
        Round.runOn (planDynamic priority s.chain.store.frontier elapsed) s =
          (.error (.error (.violation cause)),
            { s with metrics := s.metrics.addSelection elapsed })) ∨
      ∃ plan, Planned priority s.chain plan ∧
        Round.runOn (planDynamic priority s.chain.store.frontier elapsed) s =
          (.ok plan, { s with metrics := s.metrics.addSelection elapsed }) := by
  obtain ⟨usage, fusion, work, husage, hfusion, hwork⟩ := s.chain.market.exists_nextPrices blocks
  have hlimits := Selection.Rules.checkLimits_content hcontent
  cases hheights : Selection.checkHeights blocks with
  | error cause =>
      left
      refine ⟨cause, rfl, ?_⟩
      rw [hheights] at hlimits
      simp only [Chain.rules, Chain.market] at hcontent hlimits
      simp [planDynamic, Store.readVariables, Store.read, Pool.read, ready.store, ready.pool,
        Failure.ofExcept, Failure.ofChecked, hcontent, hlimits, Except.mapError]
  | ok _ =>
      right
      refine ⟨_, .dynamic hdynamic hcontent hheights husage hfusion hwork, ?_⟩
      rw [hheights] at hlimits
      simp only [Chain.rules, Chain.market] at hcontent hlimits husage hfusion hwork
      simp [planDynamic, Store.readVariables, Store.read, Pool.read, ready.store, ready.pool,
        Failure.ofExcept, Failure.ofChecked, hcontent, hlimits, Except.mapError, husage, hfusion,
        hwork]

variable {producer : Producer} {slot : Election.Slot}

/-- The part of a round that plans. -/
def planning (producer : Producer) (chain : Chain) (elapsed : UInt64) : Round Plan :=
  if chain.isDynamic then
    planDynamic producer.config.priority chain.store.frontier elapsed
  else planLegacy

/-- From a chain that is ready a round plans, signs and counts. -/
theorem runOn_build (ready : s.chain.Ready) :
    Round.runOn (build producer.config producer.signer slot elapsed) s =
      Round.runOn (do
        let plan ← planning producer s.chain elapsed
        let signed ← finalize producer.signer (plan.assemble producer.config.chainId
          s.chain.store.frontier (s.chain.store.frontier.height + 1) slot.start)
        Round.modifyMetrics plan.count
        return signed) s := by
  cases hdynamic : s.chain.store.sporks.contains .dynamicPlasma with
  | false =>
      simp [build, planning, Chain.isDynamic, Store.readFrontier, Store.readSpork, Store.read,
        ready.store, nextHeight, ready.height, Failure.ofExcept, hdynamic]
  | true =>
      simp [build, planning, Chain.isDynamic, Store.readFrontier, Store.readSpork, Store.read,
        ready.store, nextHeight, ready.height, Failure.ofExcept, hdynamic]

theorem runOn_finalize (detailed : Momentum.Detailed) :
    Round.runOn (finalize producer.signer detailed) s =
      if s.chain.finalizer.failing then
        (.error (.error (.finalizer "signer unavailable")), s)
      else
        (.ok (producer.signer.sign detailed),
          { s with chain := s.chain.append (producer.signer.sign detailed) }) := by
  cases hfailing : s.chain.finalizer.failing with
  | true => simp [finalize, hfailing]
  | false =>
      cases hcommitting : s.chain.finalizer.committing with
      | true => simp [finalize, hfailing, hcommitting, Chain.append, Signer.sign]
      | false => simp [finalize, hfailing, hcommitting, Chain.append]

/-- A round counts its error. -/
theorem run_produce {outcome : Except (Failure Error) Momentum.Signed} {t : State}
    (h : Round.runOn (build producer.config producer.signer slot elapsed) s = (outcome, t)) :
    (producer.produce slot elapsed).run s =
      match outcome with
      | .error (.error e) => (.error (.error e), { t with metrics := t.metrics.addFailure })
      | outcome => (outcome, t) := by
  have hrun : (build producer.config producer.signer slot elapsed).run.run s =
    pure (outcome, t) := h
  cases outcome with
  | error failure =>
      cases failure with
      | error e =>
          simp [Producer.produce, hrun]
          rfl
      | fault fault =>
          simp [Producer.produce, hrun]
          rfl
  | ok signed =>
      simp [Producer.produce, hrun]
      rfl

/-- A round that has a plan ends with its momentum, if it can be signed. -/
theorem ends_of_plan {plan : Plan} (ready : s.chain.Ready)
    (planned : Planned producer.config.priority s.chain plan)
    (hplan : Round.runOn (planning producer s.chain elapsed) s =
      (.ok plan, { s with metrics := s.selected elapsed })) :
    Ends producer slot elapsed s ((producer.produce slot elapsed).run s) := by
  cases hfailing : s.chain.finalizer.failing with
  | true =>
      have hbuild : Round.runOn (build producer.config producer.signer slot elapsed) s =
          (.error (.error (.finalizer "signer unavailable")),
            { s with metrics := s.selected elapsed }) := by
        simp [runOn_build ready, hplan, runOn_finalize, hfailing]
      rw [run_produce hbuild]
      exact .noSigner ready planned hfailing
  | false =>
      have hbuild : Round.runOn (build producer.config producer.signer slot elapsed) s =
          (.ok (producer.extend s.chain slot plan),
            { chain := s.chain.append (producer.extend s.chain slot plan)
              metrics := plan.count (s.selected elapsed) }) := by
        simp [runOn_build ready, hplan, runOn_finalize, hfailing, Producer.extend]
      rw [run_produce hbuild]
      exact .signed ready planned hfailing

/-- A round that is ready ends at its plan or with it. -/
theorem ends_of_ready (ready : s.chain.Ready) :
    Ends producer slot elapsed s ((producer.produce slot elapsed).run s) := by
  cases hdynamic : s.chain.isDynamic with
  | false =>
      refine ends_of_plan ready (.legacy hdynamic) ?_
      simp [planning, State.selected, hdynamic, runOn_planLegacy ready]
  | true =>
      cases hcontent : (s.chain.rules producer.config.priority).content s.chain.pool.blocks with
      | error fault =>
          have hbuild : Round.runOn (build producer.config producer.signer slot elapsed) s =
              (.error (.fault fault), s) := by
            simp [runOn_build ready, planning, hdynamic,
              runOn_planDynamic_of_fault ready hcontent]
          rw [run_produce hbuild]
          exact .fault ready hdynamic hcontent
      | ok blocks =>
          rcases runOn_planDynamic elapsed ready hdynamic hcontent with
            ⟨cause, hheights, hplan⟩ | ⟨plan, planned, hplan⟩
          · have hbuild : Round.runOn (build producer.config producer.signer slot elapsed) s =
                (.error (.error (.violation cause)),
                  { s with metrics := s.metrics.addSelection elapsed }) := by
              simp [runOn_build ready, planning, hdynamic, hplan]
            rw [run_produce hbuild]
            exact .violation ready hdynamic hcontent hheights
          · refine ends_of_plan ready planned ?_
            simp [planning, State.selected, hdynamic, hplan]

/-- A round ends in one of the ways listed. -/
theorem produce_ends (producer : Producer) (slot : Election.Slot) (elapsed : UInt64) (s : State) :
    Ends producer slot elapsed s ((producer.produce slot elapsed).run s) := by
  cases hstore : s.chain.store.unavailable with
  | true =>
      have hbuild : Round.runOn (build producer.config producer.signer slot elapsed) s =
          (.error (.error (.store "store unavailable")), s) := by
        simp [build, Store.readFrontier, Store.read, hstore, Failure.ofExcept]
      rw [run_produce hbuild]
      exact .noStore hstore
  | false =>
      by_cases hheight : s.chain.store.frontier.height = Word.max64
      · have hbuild : Round.runOn (build producer.config producer.signer slot elapsed) s =
            (.error (.error (.heightOverflow Word.max64)), s) := by
          simp [build, Store.readFrontier, Store.read, hstore, nextHeight, hheight,
            Failure.ofExcept]
        rw [run_produce hbuild]
        exact .noHeight hstore hheight
      · cases hpool : s.chain.pool.unavailable with
        | true =>
            have hbuild : Round.runOn (build producer.config producer.signer slot elapsed) s =
                (.error (.error (.pool "pool unavailable")), s) := by
              cases hdynamic : s.chain.store.sporks.contains .dynamicPlasma <;>
                simp [build, planDynamic, planLegacy, Store.readFrontier, Store.readSpork,
                  Store.readVariables, Store.read, Pool.read, hstore, nextHeight, hheight, hpool,
                  hdynamic, Failure.ofExcept]
            rw [run_produce hbuild]
            exact .noPool hstore hheight hpool
        | false => exact ends_of_ready ⟨hstore, hheight, hpool⟩

end

end MomentumChain.Production
