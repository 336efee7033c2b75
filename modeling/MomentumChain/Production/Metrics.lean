import MomentumChain.Plasma.Usage

/-!
# Metrics of a producer

A producer counts what it does.  Every counter is a word that starts over from
zero after its largest value.  Averages are taken over the momentums produced
and are zero as long as there is none.
-/

namespace MomentumChain.Production

/-- The counters of a producer. -/
structure Metrics where
  produced : UInt64 := 0
  /-- Momentums produced in the format without prices. -/
  legacy : UInt64 := 0
  blocks : UInt64 := 0
  contracts : UInt64 := 0
  fusion : UInt64 := 0
  work : UInt64 := 0
  /-- Microseconds spent on selection. -/
  selectionTime : UInt64 := 0
  /-- Rounds that ended in an error. -/
  failed : UInt64 := 0
deriving DecidableEq

namespace Metrics

instance : Inhabited Metrics := ⟨{}⟩

/-! ## Recording -/

/-- Records a momentum with its numbers of blocks and of contract blocks. -/
def addMomentum (metrics : Metrics) (blocks contracts : Nat) (usage : Plasma.Usage) : Metrics :=
  { metrics with
    produced := metrics.produced + 1
    blocks := metrics.blocks + UInt64.ofNat blocks
    contracts := metrics.contracts + UInt64.ofNat contracts
    fusion := metrics.fusion + usage.fusion
    work := metrics.work + usage.work }

/-- Records that a momentum has the format without prices. -/
def addLegacy (metrics : Metrics) : Metrics := { metrics with legacy := metrics.legacy + 1 }

def addSelection (metrics : Metrics) (microseconds : UInt64) : Metrics :=
  { metrics with selectionTime := metrics.selectionTime + microseconds }

def addFailure (metrics : Metrics) : Metrics := { metrics with failed := metrics.failed + 1 }

/-! ## Reports -/

def usage (metrics : Metrics) : Plasma.Usage := ⟨metrics.fusion, metrics.work⟩

/-- A counter for each momentum produced, or zero if there is none. -/
def average (metrics : Metrics) (counter : UInt64) : Float :=
  if metrics.produced = 0 then 0 else counter.toFloat / metrics.produced.toFloat

def averageBlocks (metrics : Metrics) : Float := metrics.average metrics.blocks

def averageSelection (metrics : Metrics) : Float := metrics.average metrics.selectionTime

end Metrics

end MomentumChain.Production
