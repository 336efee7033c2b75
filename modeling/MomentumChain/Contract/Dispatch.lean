import MomentumChain.Contract.Method
import MomentumChain.Spork

/-!
# Dispatch of calls

A dispatch table lists the contracts and their methods.  The table before any
spork is `base`.  The accelerator spork adds the accelerator contract, and the
spork of the dynamic plasma market adds a method to the plasma contract.

A call names a contract by its address and a method by the selector at the start
of its data.
-/

namespace MomentumChain.Contract

/-- A contract and its methods. -/
structure Entry where
  address : Address
  methods : List Method
deriving DecidableEq

/-- The contracts that can be called, in order of their addresses. -/
abbrev DispatchTable : Type := List Entry

namespace Entry

/-- The method with a selector. -/
def method? (entry : Entry) (called : Bytes) : Option Method :=
  entry.methods.find? fun method => method.selector = called

/-- The signatures of the methods in order. -/
def signatures (entry : Entry) : List String :=
  (entry.methods.map Method.signature).mergeSort fun a b => !(decide (b < a))

end Entry

namespace DispatchTable

/-- The contracts under some sporks. -/
def resolve (active : Spork.Active) : DispatchTable :=
  [⟨.plasmaContract,
      [.fuse, .cancelFuse] ++ if active.contains .dynamicPlasma then [.setVariables] else []⟩,
    ⟨.sporkContract, [.createSpork, .activateSpork]⟩] ++
  (if active.contains .accelerator then [⟨.acceleratorContract, [.donate]⟩] else []) ++
  [⟨.liquidityContract, [.donate]⟩]

/-- The contracts before any spork. -/
def base : DispatchTable := resolve .none

/-- The contract at an address. -/
def contract? (table : DispatchTable) (address : Address) : Option Entry :=
  table.find? fun entry => entry.address = address

/-- The method that a call to an address names. -/
def lookup (table : DispatchTable) (address : Address) (data : Bytes) : Except Error Method :=
  if !address.isContract then .error .notContractAddress
  else
    match table.contract? address with
    | none => .error .noContract
    | some entry =>
        match splitCall? data with
        | none => .error .noMethod
        | some (called, _) =>
            match entry.method? called with
            | none => .error .noMethod
            | some method => .ok method

end DispatchTable

end MomentumChain.Contract
