import MomentumChain.Word

/-!
# Plasma by resource

The base plasma of a block is paid partly by fusion and partly by work.  Sums
of usages saturate.
-/

namespace MomentumChain.Plasma

/-- Base plasma split by what paid for it. -/
structure Usage where
  /-- Units paid by fusion. -/
  fusion : UInt64
  /-- Units paid by work. -/
  work : UInt64
deriving DecidableEq, Repr

namespace Usage

/-- No plasma. -/
def none : Usage := ⟨0, 0⟩

instance : Inhabited Usage := ⟨none⟩

/-- Sum by resource. -/
def add (a b : Usage) : Usage := ⟨Word.satAdd a.fusion b.fusion, Word.satAdd a.work b.work⟩

/-- Units paid by either resource. -/
def total (usage : Usage) : UInt64 := Word.satAdd usage.fusion usage.work

end Usage

end MomentumChain.Plasma
