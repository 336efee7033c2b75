import MomentumChain.Proofs.Production.Run

/-!
# Failed rounds

A round can fail when it reads the chain, when its selection is checked, and when its
momentum is to be signed.  `Refuses` lists the errors with what causes them, and
`produce_eq_error_iff` says that a round ends in an error exactly if the chain refuses
it for that error.

A failed round leaves no trace in the chain (`failed_round_leaves_no_trace`).  The chain
is changed where the momentum is signed, and nothing can fail behind that.  Of the
counters, one more failure is counted.  The time of a selection is counted as well if the
round got that far, since it is recorded before the selection is checked.
-/

namespace MomentumChain.Production

/-! ## What refuses a round -/

/-- The error of the first thing that a round cannot read, or of a frontier without a
successor. -/
def Chain.obstacle? (chain : Chain) : Option Error :=
  if chain.store.unavailable then some (.store "store unavailable")
  else if chain.store.frontier.height = Word.max64 then some (.heightOverflow Word.max64)
  else if chain.pool.unavailable then some (.pool "pool unavailable")
  else none

theorem Chain.Ready.obstacle?_eq_none {chain : Chain} (ready : chain.Ready) :
    chain.obstacle? = none := by
  simp [obstacle?, ready.store, ready.height, ready.pool]

/-- The errors for which a chain refuses a round. -/
inductive Refuses (priority : Address.Set) (chain : Chain) : Error → Prop where
  | unready {error : Error} (obstacle : chain.obstacle? = some error) :
      Refuses priority chain error
  | violation {blocks : List Block} {cause : Selection.Violation} (ready : chain.Ready)
      (dynamic : chain.isDynamic = true)
      (content : (chain.rules priority).content chain.pool.blocks = .ok blocks)
      (heights : Selection.checkHeights blocks = .error cause) :
      Refuses priority chain (.violation cause)
  | signer {plan : Plan} (ready : chain.Ready) (planned : Planned priority chain plan)
      (failing : chain.finalizer.failing = true) :
      Refuses priority chain (.finalizer "signer unavailable")

/-- The content of a plan has passed the check of its heights. -/
theorem Planned.checkHeights_eq_ok {priority : Address.Set} {chain : Chain} {plan : Plan}
    {blocks : List Block} (planned : Planned priority chain plan)
    (hdynamic : chain.isDynamic = true)
    (hcontent : (chain.rules priority).content chain.pool.blocks = .ok blocks) :
    Selection.checkHeights blocks = .ok () := by
  obtain ⟨blocks', hcontent', hheights⟩ := planned.exists_content hdynamic
  rw [hcontent] at hcontent'
  cases hcontent'
  exact hheights

/-- A content that passes the check of its heights can be priced. -/
theorem Chain.exists_planned {priority : Address.Set} {chain : Chain} {blocks : List Block}
    (hdynamic : chain.isDynamic = true)
    (hcontent : (chain.rules priority).content chain.pool.blocks = .ok blocks)
    (hheights : Selection.checkHeights blocks = .ok ()) :
    ∃ plan, Planned priority chain plan := by
  obtain ⟨usage, fusion, work, husage, hfusion, hwork⟩ := chain.market.exists_nextPrices blocks
  exact ⟨_, .dynamic hdynamic hcontent hheights husage hfusion hwork⟩

section

variable {producer : Producer} {slot : Election.Slot} {elapsed : UInt64} {s t : State}
  {error : Error} {ending : Except (Failure Error) Momentum.Signed × State}

theorem Ends.eq_error_of_obstacle (hends : Ends producer slot elapsed s ending)
    (hobstacle : s.chain.obstacle? = some error) : ending.1 = .error (.error error) := by
  cases hends with
  | noStore store =>
      simp only [Chain.obstacle?, store] at hobstacle
      cases hobstacle
      rfl
  | noHeight store height =>
      simp only [Chain.obstacle?, store, height] at hobstacle
      cases hobstacle
      rfl
  | noPool store height pool =>
      simp only [Chain.obstacle?, store, height, pool] at hobstacle
      cases hobstacle
      rfl
  | fault ready | violation ready | noSigner ready | signed ready =>
      rw [ready.obstacle?_eq_none] at hobstacle
      cases hobstacle

theorem Ends.eq_error_of_heights {blocks : List Block} {cause : Selection.Violation}
    (hends : Ends producer slot elapsed s ending) (ready : s.chain.Ready)
    (hdynamic : s.chain.isDynamic = true)
    (hcontent : (s.chain.rules producer.config.priority).content s.chain.pool.blocks = .ok blocks)
    (hheights : Selection.checkHeights blocks = .error cause) :
    ending.1 = .error (.error (.violation cause)) := by
  cases hends with
  | noStore store => simp [ready.store] at store
  | noHeight _ height => exact absurd height ready.height
  | noPool _ _ pool => simp [ready.pool] at pool
  | fault _ _ content => simp [hcontent] at content
  | violation _ _ content heights =>
      rw [hcontent] at content
      cases content
      rw [hheights] at heights
      cases heights
      rfl
  | noSigner _ planned | signed _ planned =>
      simp [planned.checkHeights_eq_ok hdynamic hcontent] at hheights

theorem Ends.eq_error_of_failing {plan : Plan} (hends : Ends producer slot elapsed s ending)
    (ready : s.chain.Ready) (planned : Planned producer.config.priority s.chain plan)
    (hfailing : s.chain.finalizer.failing = true) :
    ending.1 = .error (.error (.finalizer "signer unavailable")) := by
  cases hends with
  | noStore store => simp [ready.store] at store
  | noHeight _ height => exact absurd height ready.height
  | noPool _ _ pool => simp [ready.pool] at pool
  | fault _ dynamic content =>
      obtain ⟨blocks, hcontent, _⟩ := planned.exists_content dynamic
      simp [hcontent] at content
  | violation _ dynamic content heights =>
      simp [planned.checkHeights_eq_ok dynamic content] at heights
  | noSigner => rfl
  | signed _ _ signer => simp [hfailing] at signer

/-- A round ends in an error exactly if the chain refuses it for that error. -/
theorem produce_eq_error_iff :
    ((producer.produce slot elapsed).run s).1 = .error (.error error) ↔
      Refuses producer.config.priority s.chain error := by
  have hends := produce_ends producer slot elapsed s
  generalize (producer.produce slot elapsed).run s = ending at hends
  constructor
  · intro h
    cases hends with
    | noStore store =>
        cases h
        exact .unready (by simp [Chain.obstacle?, store])
    | noHeight store height =>
        cases h
        exact .unready (by simp [Chain.obstacle?, store, height])
    | noPool store height pool =>
        cases h
        exact .unready (by simp [Chain.obstacle?, store, height, pool])
    | violation ready dynamic content heights =>
        cases h
        exact .violation ready dynamic content heights
    | noSigner ready planned signer =>
        cases h
        exact .signer ready planned signer
    | fault | signed => cases h
  · intro h
    cases h with
    | unready obstacle => exact hends.eq_error_of_obstacle obstacle
    | violation ready dynamic content heights =>
        exact hends.eq_error_of_heights ready dynamic content heights
    | signer ready planned failing => exact hends.eq_error_of_failing ready planned failing

/-! ## What a failed round leaves behind -/

/-- The time of the selection is all that a round counts before it can fail. -/
theorem Ends.metrics_of_error (hends : Ends producer slot elapsed s (.error (.error error), t)) :
    ∃ time, (time = 0 ∨ time = elapsed) ∧
      t.metrics = { s.metrics with
        selectionTime := s.metrics.selectionTime + time
        failed := s.metrics.failed + 1 } := by
  have hunselected : s.metrics.addFailure = { s.metrics with
      selectionTime := s.metrics.selectionTime + 0, failed := s.metrics.failed + 1 } := by
    rw [UInt64.add_zero]
    rfl
  cases hends with
  | noStore | noHeight | noPool => exact ⟨0, .inl rfl, hunselected⟩
  | violation => exact ⟨elapsed, .inr rfl, rfl⟩
  | noSigner =>
      cases hdynamic : s.chain.isDynamic with
      | true =>
          refine ⟨elapsed, .inr rfl, ?_⟩
          simp only [State.selected, hdynamic]
          rfl
      | false =>
          refine ⟨0, .inl rfl, ?_⟩
          simp only [State.selected, hdynamic]
          exact hunselected

@[simp] theorem Plan.failed_count (plan : Plan) (metrics : Metrics) :
    (plan.count metrics).failed = metrics.failed := by
  unfold Plan.count
  split <;> rfl

@[simp] theorem State.failed_selected (s : State) (elapsed : UInt64) :
    (s.selected elapsed).failed = s.metrics.failed := by
  unfold State.selected
  split <;> rfl

theorem Ends.failed_of_signed {signed : Momentum.Signed}
    (hends : Ends producer slot elapsed s (.ok signed, t)) :
    t.metrics.failed = s.metrics.failed := by
  cases hends with
  | signed => simp

end

/-- A round ends in an error exactly if the chain refuses it for that error.  It then
leaves the chain as it was, and of the counters it adds one failure and at most the time
of its selection.  A fault leaves the counters as well as the chain, and a round that
succeeds counts no failure. -/
theorem failed_round_leaves_no_trace (producer : Producer) (slot : Election.Slot)
    (elapsed : UInt64) (s : State) :
    let ending := (producer.produce slot elapsed).run s
    (∀ error, ending.1 = .error (.error error) ↔
        Refuses producer.config.priority s.chain error) ∧
      (∀ error, ending.1 = .error (.error error) →
        ending.2.chain = s.chain ∧ ∃ time, (time = 0 ∨ time = elapsed) ∧
          ending.2.metrics = { s.metrics with
            selectionTime := s.metrics.selectionTime + time
            failed := s.metrics.failed + 1 }) ∧
      (∀ fault, ending.1 = .error (.fault fault) → ending.2 = s) ∧
      ∀ signed, ending.1 = .ok signed → ending.2.metrics.failed = s.metrics.failed := by
  intro ending
  have hends : Ends producer slot elapsed s (ending.1, ending.2) :=
    produce_ends producer slot elapsed s
  refine ⟨fun error => produce_eq_error_iff, ?_, ?_, ?_⟩
  · intro error h
    rw [h] at hends
    exact ⟨chain_of_failed hends, hends.metrics_of_error⟩
  · intro fault h
    rw [h] at hends
    generalize ending.2 = t at hends
    cases hends with
    | fault => rfl
  · intro signed h
    rw [h] at hends
    exact hends.failed_of_signed

/-- A block waits, prices are in force, and momentums cannot be signed.  The counter of
failures is at its end. -/
def unsigned : State where
  chain :=
    { store := { frontier := { height := 1 }, sporks := .ofList [.dynamicPlasma] }
      pool := { blocks := [Selection.userBlock 1 1 30000 21000] }
      finalizer := { failing := true } }
  metrics := { produced := 5, failed := Word.max64 }

theorem failed_round_leaves_no_trace_unsigned :
    let ending := ((lone ⟨[]⟩).produce ⟨"lone", .zero, 10, 20⟩ 7).run unsigned
    ending.1 = .error (.error (.finalizer "signer unavailable")) ∧
      ending.2.chain = unsigned.chain ∧ ending.2.metrics.failed = 0 ∧
      ending.2.metrics.produced = 5 := by
  intro ending
  obtain ⟨hrefuses, hkeeps, _⟩ :=
    failed_round_leaves_no_trace (lone ⟨[]⟩) ⟨"lone", .zero, 10, 20⟩ 7 unsigned
  have hcontent : (unsigned.chain.rules .empty).content unsigned.chain.pool.blocks =
      .ok [Selection.userBlock 1 1 30000 21000] := by cbv
  obtain ⟨plan, planned⟩ := Chain.exists_planned rfl hcontent rfl
  have herror : ending.1 = .error (.error (.finalizer "signer unavailable")) :=
    (hrefuses _).mpr (.signer ⟨rfl, by decide, rfl⟩ planned rfl)
  obtain ⟨hchain, time, _, hmetrics⟩ := hkeeps _ herror
  refine ⟨herror, hchain, ?_, ?_⟩
  · rw [hmetrics]
    rfl
  · rw [hmetrics]
    rfl

end MomentumChain.Production
