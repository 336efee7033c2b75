import MomentumChain.Momentum
import MomentumChain.Production.Error
import MomentumChain.Production.Signer
import MomentumChain.Spork
import MomentumChain.Plasma.Variables

/-!
# The chain that producers share

The store holds what is committed, the pool holds the blocks that wait, and the
finalizer signs momentums.  A committing finalizer also makes each momentum the
frontier of the store and takes its blocks out of the pool.  Each of the three
can be out of service, and then refuses what a round asks of it.
-/

namespace MomentumChain.Production

/-! ## The store -/

/-- The committed state of the chain. -/
structure Store where
  frontier : Momentum
  sporks : Spork.Active := .none
  vars : Plasma.Variables := .initial
  unavailable : Bool := false

namespace Store

/-- A value of the store, if it can be read. -/
def read {α : Type} (store : Store) (value : α) : Except Error α :=
  if store.unavailable then .error (.store "store unavailable") else .ok value

def readFrontier (store : Store) : Except Error Momentum := store.read store.frontier

def readSpork (store : Store) (spork : Spork) : Except Error Bool :=
  store.read (store.sporks.contains spork)

def readVariables (store : Store) : Except Error Plasma.Variables := store.read store.vars

end Store

/-! ## The pool -/

/-- The blocks that wait for a momentum. -/
structure Pool where
  /-- The blocks in the order of their arrival. -/
  blocks : List Block := []
  unavailable : Bool := false

namespace Pool

def read (pool : Pool) : Except Error (List Block) :=
  if pool.unavailable then .error (.pool "pool unavailable") else .ok pool.blocks

def insert (pool : Pool) (blocks : List Block) : Pool :=
  { pool with blocks := pool.blocks ++ blocks }

/-- The hash is the hash of a header. -/
def isCommitted (content : List Header) (hash : Hash) : Bool :=
  content.any fun header => header.hash = hash

/-- Drops the blocks whose hashes are committed. -/
def removeCommitted (pool : Pool) (content : List Header) : Pool :=
  { pool with blocks := pool.blocks.filter fun block => !isCommitted content block.hash }

end Pool

/-! ## The finalizer -/

/-- What signs momentums. -/
structure Finalizer where
  /-- The signed momentums, oldest first. -/
  finalized : List Momentum.Signed := []
  /-- Signed momentums are committed to the store and the pool. -/
  committing : Bool := true
  failing : Bool := false

/-- The store, the pool and the finalizer. -/
structure Chain where
  store : Store
  pool : Pool := {}
  finalizer : Finalizer := {}

namespace Chain

/-- A signed momentum is committed: it becomes the frontier, and its blocks leave
the pool. -/
def commit (chain : Chain) (momentum : Momentum) : Chain :=
  { chain with
    store := { chain.store with frontier := momentum }
    pool := chain.pool.removeCommitted momentum.content }

/-- A signed momentum is kept by the finalizer. -/
def keep (chain : Chain) (signed : Momentum.Signed) : Chain :=
  { chain with
    finalizer := { chain.finalizer with finalized := chain.finalizer.finalized ++ [signed] } }

end Chain

/-- A momentum signed by a signer. -/
def Signer.sign (signer : Signer) (detailed : Momentum.Detailed) : Momentum.Signed :=
  ⟨detailed, signer.address, signer.publicKey, signer.signature detailed.momentum.hash⟩

end MomentumChain.Production
