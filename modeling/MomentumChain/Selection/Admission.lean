import MomentumChain.Selection.Priority

/-!
# Admission of blocks

Candidates in order of priority are admitted in one pass.

Blocks of contracts are held back in a batch.  A contract send stays in the
batch until the next contract block that is no send.  The batch is then admitted
as a whole if the momentum has room for it under the cap, and dropped as a whole
if it has not.  A batch that is still open at the end is dropped.

User blocks are admitted while their base plasma stays within the budget and
they pay the price of the round.  The first user block that does not ends the
pass.
-/

namespace MomentumChain.Selection

/-- The state of the pass between two candidates. -/
structure Tally where
  /-- Contract blocks held back, in order. -/
  batch : List Block := []
  /-- Contract blocks admitted so far. -/
  contracts : Nat := 0
  /-- Base plasma of the user blocks so far. -/
  used : UInt64 := 0
deriving DecidableEq

/-- Admits candidates from a state of the pass. -/
def acceptFrom (market : Plasma.Market) : Tally → List Block → Checked (List Block)
  | _, [] => pure []
  | tally, block :: rest =>
      if block.isContract then
        let batch := tally.batch ++ [block]
        if block.kind = .contractSend then
          acceptFrom market { tally with batch } rest
        else if market.contractCap < batch.length + tally.contracts then
          acceptFrom market { tally with batch := [] } rest
        else do
          let later ← acceptFrom market
            { tally with batch := [], contracts := tally.contracts + batch.length } rest
          pure (batch ++ later)
      else
        let used := Word.satAdd tally.used block.basePlasma
        if market.budget < used then pure []
        else do
          if ← market.paysEnough block then
            let later ← acceptFrom market { tally with used } rest
            pure (block :: later)
          else pure []

/-- The blocks admitted from candidates in order of priority. -/
def accept (market : Plasma.Market) (candidates : List Block) : Checked (List Block) :=
  acceptFrom market {} candidates

/-- The content of a momentum chosen from candidates in any order. -/
def Rules.content (rules : Rules) (candidates : List Block) : Checked (List Block) :=
  accept rules.market (rules.order candidates)

end MomentumChain.Selection
