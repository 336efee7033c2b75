import MomentumChain.Contract.Dispatch
import MomentumChain.Proofs.Contract.Receive
import Mathlib.Data.List.Induction

/-!
# Histories

In a run the contracts receive calls one after the other.  Between the calls the chain moves to
other frontiers, of any height.  A call is received by a method that is given with it, or by the
method that the send names under the sporks in force.

A history is the storage together with the calls that have succeeded so far.  Statements that
relate a call to earlier ones are statements on `History.past`.

A step moves a history in one of two ways (`Moves`).  It records nothing, and then nothing but
the frontier changes.  This is also the way of a call that fails or finds no method.  Or it
records a call that succeeds.  An invariant of runs needs one case for each (`run_invariant`).

If the heights of the frontiers never decrease (`History.Rising`), then the calls of a run are in
order of heights (`Rises`).
-/

namespace MomentumChain.Contract

/-! ## Steps -/

/-- What happens next in a run. -/
inductive Step where
  /-- The chain has another frontier. -/
  | frontier (momentum : Momentum)
  /-- A method receives a send. -/
  | call (method : Method) (send : Block)
  /-- The method that a send names receives it. -/
  | dispatch (send : Block)

/-- A call that has succeeded. -/
structure Success where
  method : Method
  send : Block
  /-- The blocks that the contract has sent in turn. -/
  sent : List Block
  /-- Height of the frontier at the call. -/
  height : UInt64

/-- The storage, and how it came about. -/
structure History where
  /-- The calls that have succeeded, in order. -/
  past : List Success := []
  storage : Storage

namespace History

/-- Nothing is stored, and nothing has been called. -/
def start (genesis : Momentum) : History := { storage := { frontier := genesis } }

/-- The history after a method has received a send. -/
def receive (protocol : Protocol) (s : History) (method : Method) (send : Block) : History :=
  match s.storage.receive protocol method send with
  | (.ok sent, storage) =>
      ⟨s.past ++ [⟨method, send, sent, s.storage.frontier.height⟩], storage⟩
  | (.error _, storage) => { s with storage }

/-- The history after a step. -/
def next (protocol : Protocol) (s : History) : Step → History
  | .frontier momentum => { s with storage.frontier := momentum }
  | .call method send => s.receive protocol method send
  | .dispatch send =>
      match (DispatchTable.resolve s.storage.activeSporks).lookup send.recipient send.data with
      | .ok method => s.receive protocol method send
      | .error _ => s

/-- The history after a run. -/
def run (protocol : Protocol) (s : History) (steps : List Step) : History :=
  steps.foldl (next protocol) s

end History

/-! ## The two ways of a step -/

/-- How a step moves a history. -/
inductive Moves (protocol : Protocol) (s : History) : History → Prop where
  | quiet (frontier : Momentum) : Moves protocol s { s with storage.frontier := frontier }
  | succeeds {method : Method} {send : Block} {sent : List Block} {storage : Storage}
      (received : Receives protocol s.storage send method (.ok sent, storage)) :
      Moves protocol s
        ⟨s.past ++ [⟨method, send, sent, s.storage.frontier.height⟩], storage⟩

namespace History

variable {protocol : Protocol} {s : History}

/-- A call that succeeds is recorded. -/
theorem receive_of_ok {method : Method} {send : Block} {sent : List Block} {storage : Storage}
    (h : s.storage.receive protocol method send = (.ok sent, storage)) :
    s.receive protocol method send =
      ⟨s.past ++ [⟨method, send, sent, s.storage.frontier.height⟩], storage⟩ := by
  rw [receive, h]

/-- A dispatched send is received by the method that is found. -/
theorem next_dispatch {method : Method} {send : Block}
    (h : (DispatchTable.resolve s.storage.activeSporks).lookup send.recipient send.data =
      .ok method) : s.next protocol (.dispatch send) = s.receive protocol method send := by
  simp only [next, h]

theorem receive_moves (method : Method) (send : Block) :
    Moves protocol s (s.receive protocol method send) := by
  have hreceives := receive_receives protocol s.storage method send
  rw [receive]
  generalize s.storage.receive protocol method send = outcome at hreceives
  obtain ⟨outcome, storage⟩ := outcome
  cases outcome with
  | ok sent => exact .succeeds hreceives
  | error failure =>
      rw [hreceives.eq_of_failed]
      exact .quiet s.storage.frontier

theorem next_moves (step : Step) : Moves protocol s (s.next protocol step) := by
  cases step with
  | frontier momentum => exact .quiet momentum
  | call method send => exact receive_moves method send
  | dispatch send =>
      rw [next]
      split
      · exact receive_moves _ send
      · exact .quiet s.storage.frontier

/-- What holds at first and is kept by both ways of a step holds after every run. -/
theorem run_invariant {I : History → Prop} (hmoves : ∀ {s t}, Moves protocol s t → I s → I t)
    (hs : I s) (steps : List Step) : I (s.run protocol steps) := by
  induction steps generalizing s with
  | nil => exact hs
  | cons step steps ih => exact ih (hmoves (next_moves step) hs)

theorem run_append (first later : List Step) :
    s.run protocol (first ++ later) = (s.run protocol first).run protocol later :=
  List.foldl_append

/-- A run adds to the past and leaves what is in it. -/
theorem past_run (steps : List Step) : s.past <+: (s.run protocol steps).past := by
  refine run_invariant (I := fun t => s.past <+: t.past) ?_ List.prefix_rfl steps
  intro t u hmoves hpast
  cases hmoves with
  | quiet => exact hpast
  | succeeds => exact hpast.trans (List.prefix_append _ _)

end History

/-- A call of a longer past is the last one or a call of the past before it. -/
theorem concat_eq_append_cons_iff {past earlier later : List Success} {last success : Success} :
    past ++ [last] = earlier ++ success :: later ↔
      (past = earlier ∧ last = success ∧ later = []) ∨
        ∃ rest, later = rest ++ [last] ∧ past = earlier ++ success :: rest := by
  constructor
  · intro h
    cases later using List.reverseRecOn with
    | nil =>
        obtain ⟨hpast, hlast⟩ := List.append_inj' h rfl
        cases hlast
        exact .inl ⟨hpast, rfl, rfl⟩
    | append_singleton rest final =>
        rw [← List.cons_append, ← List.append_assoc] at h
        obtain ⟨hpast, hlast⟩ := List.append_inj' h rfl
        cases hlast
        exact .inr ⟨rest, rfl, hpast⟩
  · rintro (⟨rfl, rfl, rfl⟩ | ⟨rest, rfl, rfl⟩)
    · rfl
    · simp

/-! ## Rising frontiers -/

/-- No step of a run lowers the frontier. -/
def History.Rising (protocol : Protocol) : History → List Step → Prop
  | _, [] => True
  | s, step :: steps =>
      s.storage.frontier.height ≤ (s.next protocol step).storage.frontier.height ∧
        Rising protocol (s.next protocol step) steps

/-- One history leads to another, and the calls in between are in order of heights. -/
structure Rises (s t : History) : Prop where
  frontier : s.storage.frontier.height ≤ t.storage.frontier.height
  calls : ∃ later, t.past = s.past ++ later ∧
    later.Pairwise (fun first second => first.height ≤ second.height) ∧
    ∀ success ∈ later, s.storage.frontier.height ≤ success.height ∧
      success.height ≤ t.storage.frontier.height

section

variable {protocol : Protocol} {s t u : History}

theorem Rises.refl (s : History) : Rises s s where
  frontier := UInt64.le_refl _
  calls := ⟨[], (List.append_nil _).symm, .nil, nofun⟩

theorem Rises.trans (hst : Rises s t) (htu : Rises t u) : Rises s u where
  frontier := UInt64.le_trans hst.frontier htu.frontier
  calls := by
    obtain ⟨first, ht, hfirst, hs⟩ := hst.calls
    obtain ⟨second, hu, hsecond, hbetween⟩ := htu.calls
    refine ⟨first ++ second, ?_, ?_, ?_⟩
    · rw [hu, ht, List.append_assoc]
    · rw [List.pairwise_append]
      refine ⟨hfirst, hsecond, ?_⟩
      intro a ha b hb
      exact UInt64.le_trans (hs a ha).2 (hbetween b hb).1
    · intro success hmem
      rcases List.mem_append.mp hmem with hmem | hmem
      · exact ⟨(hs success hmem).1, UInt64.le_trans (hs success hmem).2 htu.frontier⟩
      · exact ⟨UInt64.le_trans hst.frontier (hbetween success hmem).1, (hbetween success hmem).2⟩

theorem Moves.rises (hmoves : Moves protocol s t)
    (hle : s.storage.frontier.height ≤ t.storage.frontier.height) : Rises s t := by
  refine ⟨hle, ?_⟩
  cases hmoves with
  | quiet => exact ⟨[], (List.append_nil _).symm, .nil, nofun⟩
  | succeeds =>
      refine ⟨[_], rfl, List.pairwise_singleton _ _, ?_⟩
      intro success hmem
      rw [List.mem_singleton.mp hmem]
      exact ⟨UInt64.le_refl _, hle⟩

namespace History

theorem run_rises {steps : List Step} (hrising : s.Rising protocol steps) :
    Rises s (s.run protocol steps) := by
  induction steps generalizing s with
  | nil => exact .refl s
  | cons step steps ih => exact ((next_moves step).rises hrising.1).trans (ih hrising.2)

theorem rising_append {first later : List Step} :
    s.Rising protocol (first ++ later) ↔
      s.Rising protocol first ∧ (s.run protocol first).Rising protocol later := by
  induction first generalizing s with
  | nil => exact ⟨fun h => ⟨trivial, h⟩, fun h => h.2⟩
  | cons step first ih =>
      rw [List.cons_append, Rising, ih, Rising, and_assoc]
      rfl

end History

end

end MomentumChain.Contract
