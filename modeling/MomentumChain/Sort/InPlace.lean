import MomentumChain.Sort.Stable

/-!
# The sort in place

`sortInPlace` is the sort of `Sort.Stable` carried out within one row of elements, by exchanges
and rotations.  All positions are positions in the row, and a run is a part of the row between
two of them.

Nothing is taken for granted of a position.  An exchange or a comparison fails at a position
outside of the row, a rotation fails on bounds that are not in order or lie outside, a difference
fails below zero, and a merge fails unless both of its runs have an element.
-/

namespace MomentumChain.Sort

variable {α : Type}

/-- A computation on a row of elements, which it may rearrange. -/
abbrev InPlace (α β : Type) : Type := StateT (List α) Sorting β

/-! ## Moving elements -/

/-- Asks whether the element at one position goes before the element at another. -/
def askAt (less : α → α → Bool) (row : List α) (i j : Nat) : Sorting Bool := do
  ask less (← elementAt row i) (← elementAt row j)

/-- Exchanges two elements. -/
def swap (i j : Nat) : InPlace α Unit := do
  let row ← get
  let x ← elementAt row i
  let y ← elementAt row j
  set ((row.set i y).set j x)

/-- Exchanges two neighbouring parts of the row. -/
def rotate (low middle high : Nat) : InPlace α Unit := do
  let row ← get
  atMost low middle
  atMost middle high
  atMost high row.length
  set (row.take low ++ (row.take high).drop middle ++ (row.take middle).drop low ++ row.drop high)

/-- Moves the element at `low` up to `high`, past those between them. -/
def raise (low high : Nat) : InPlace α Unit :=
  forM (List.range' low (high - low)) fun position => swap position (position + 1)

/-- Moves an element down to `low`, past those between them. -/
def lower (low : Nat) : (position : Nat) → InPlace α Unit
  | 0 => pure ()
  | position + 1 => do
      if low ≤ position then
        swap (position + 1) position
        lower low position

/-! ## Runs -/

/-- Moves an element down while it goes before the one below it, to `low` at most. -/
def sinkAt (less : α → α → Bool) (low : Nat) : (position : Nat) → InPlace α Unit
  | 0 => pure ()
  | position + 1 => do
      if low ≤ position then
        if ← askAt less (← get) (position + 1) position then
          swap (position + 1) position
          sinkAt less low position

/-- Sorts the part from `low` to `high` by insertion. -/
def insertAt (less : α → α → Bool) (low high : Nat) : InPlace α Unit :=
  forM (List.range' (low + 1) (high - (low + 1))) (sinkAt less low)

/-- Sorts the parts of `runLength` elements from `low` on by insertion, and what is left. -/
def insertRuns (less : α → α → Bool) (size low : Nat) : InPlace α Unit :=
  if low + runLength ≤ size then do
    insertAt less low (low + runLength)
    insertRuns less size (low + runLength)
  else insertAt less low size
termination_by size - low
decreasing_by
  have : 0 < runLength := by decide
  omega

/-! ## Merging -/

/-- The position up to which the first run goes to the first half. -/
def cutAt (less : α → α → Bool) (row : List α) (low middle high : Nat) : Sorting Nat := do
  let half := (low + high) / 2
  let span := half + middle
  let last ← minus span 1
  let goesLeft (i : Nat) : Sorting Bool := return !(← askAt less row (← minus last i) i)
  if half < middle then search goesLeft (← minus span high) half
  else search goesLeft low middle

/-- Merges the runs from `low` to `middle` and from `middle` to `high`. -/
def mergeAt (less : α → α → Bool) (low middle high : Nat) : InPlace α Unit := do
  if _hruns : low < middle ∧ middle < high then
    let row ← get
    if (← minus middle low) = 1 then
      let slot ← search (fun i => askAt less row i low) middle high
      raise low (← minus slot 1)
    else if (← minus high middle) = 1 then
      let slot ← search (fun i => return !(← askAt less row middle i)) low middle
      lower slot middle
    else
      let half := (low + high) / 2
      let start ← cutAt less row low middle high
      let stop ← minus (half + middle) start
      if start < middle ∧ middle < stop then rotate start middle stop
      if _hleft : low < start ∧ start < half then mergeAt less low start half
      if _hright : half < stop ∧ stop < high then mergeAt less half stop high
  else failure
termination_by high - low
decreasing_by
  all_goals omega

/-- Merges the runs of `length` elements from `low` on, two by two. -/
def mergeRunsAt (less : α → α → Bool) (size length : Nat) (hlength : 0 < length) (low : Nat) :
    InPlace α Unit :=
  if low + 2 * length ≤ size then do
    mergeAt less low (low + length) (low + 2 * length)
    mergeRunsAt less size length hlength (low + 2 * length)
  else if low + length < size then mergeAt less low (low + length) size
  else pure ()
termination_by size - low

/-- Passes over runs of `length` elements and more, until one run is left. -/
def mergePasses (less : α → α → Bool) (size length : Nat) (hlength : 0 < length) :
    InPlace α Unit :=
  if length < size then do
    mergeRunsAt less size length hlength 0
    mergePasses less size (2 * length) (by omega)
  else pure ()
termination_by size - length

/-! ## The sort -/

/-- Sorts the row. -/
def sortInPlace (less : α → α → Bool) : InPlace α Unit := do
  let size := (← get).length
  insertRuns less size 0
  mergePasses less size runLength (by decide)

end MomentumChain.Sort
