import MomentumChain.Address
import MomentumChain.Token

/-!
# Protocol parameters

A network has a block time, from which the lengths of an hour, an epoch and of
two waiting periods are derived (`Protocol.withBlockTime`), and fixes its native
tokens and two addresses with special rights.

A genesis names its network in a text.  If the first word is `HYPERQUBE`, the
network is a variant, and the text must have four words: the mark, a tag, the
name of the election algorithm and the block time in seconds.  Words are
separated by single spaces.  Every other genesis has the parameters of the main
network.
-/

namespace MomentumChain

/-- How producers are elected. -/
inductive ElectionAlgorithm where
  /-- A random permutation of all candidates. -/
  | uniform
deriving DecidableEq, Repr

namespace ElectionAlgorithm

/-- The name of the algorithm in records. -/
def name : ElectionAlgorithm → String
  | .uniform => "Uniform"

/-- The algorithm of a name. -/
def ofName? (name : String) : Option ElectionAlgorithm :=
  [uniform].find? fun algorithm => algorithm.name = name

/-- The algorithm of a word of a genesis text. -/
def ofWord? (word : String) : Option ElectionAlgorithm :=
  if word = "UNIFORM" then some .uniform else none

end ElectionAlgorithm

/-- Timing and election of producers. -/
structure Consensus where
  /-- Seconds between momentums. -/
  blockTime : UInt64
  /-- Producers elected per tick. -/
  nodeCount : UInt64
  /-- Producers drawn from outside the top candidates. -/
  randCount : UInt64
  /-- The token whose delegation weighs candidates. -/
  countingToken : Token
  /-- How producers are elected. -/
  algorithm : ElectionAlgorithm
deriving DecidableEq

/-- The parameters of a network. -/
structure Protocol where
  /-- Timing and election of producers. -/
  consensus : Consensus
  /-- Momentums in an hour. -/
  momentumsPerHour : UInt64
  /-- Momentums in an epoch of a day. -/
  momentumsPerEpoch : UInt64
  /-- Momentums between two updates of the plasma variables. -/
  updateInterval : UInt64
  /-- Momentums for which a fusion is locked. -/
  fusionLock : UInt64
  znn : Token
  qsr : Token
  /-- The address that may set the plasma variables. -/
  governance : Address
  /-- The address that may create and activate sporks. -/
  sporkOwner : Address
deriving DecidableEq

namespace Protocol

/-- The parameters with a block time and all that follows from it. -/
def withBlockTime (protocol : Protocol) (seconds : UInt64) : Protocol :=
  let perHour := 3600 / seconds
  { protocol with
    consensus := { protocol.consensus with blockTime := seconds }
    momentumsPerHour := perHour
    momentumsPerEpoch := perHour * 24
    updateInterval := perHour * 5 / 6
    fusionLock := perHour * 10 }

/-- The parameters of the main network. -/
def mainnet : Protocol :=
  let protocol : Protocol :=
    { consensus :=
        { blockTime := 10, nodeCount := 30, randCount := 15, countingToken := .znn,
          algorithm := .uniform }
      momentumsPerHour := 0
      momentumsPerEpoch := 0
      updateInterval := 0
      fusionLock := 0
      znn := .znn
      qsr := .qsr
      governance := .ofPublicKey (Utf8.encode "nom-chain/governance")
      sporkOwner := .ofPublicKey (Utf8.encode "nom-chain/spork") }
  protocol.withBlockTime 10

instance : Inhabited Protocol := ⟨mainnet⟩

end Protocol

/-! ## Genesis -/

/-- What a genesis says about its network. -/
structure Genesis where
  chainId : UInt64
  /-- The text that may mark a network variant. -/
  extraData : String
  /-- Tokens minted at genesis. -/
  tokens : List Token
deriving DecidableEq

namespace Genesis

/-- What is wrong with the text or the tokens of a network variant. -/
inductive Error where
  | wrongWordCount (count : Nat)
  | missingTokens (count : Nat)
  | unknownAlgorithm (word : String)
  | invalidBlockTime (word : String)
  /-- The block time is zero or longer than an hour. -/
  | blockTimeOutOfRange (seconds : UInt64)
deriving DecidableEq, Repr

def Error.message : Error → String
  | .wrongWordCount count =>
      s!"Malformed genesis extra data: expected 4 fields, got {count}"
  | .missingTokens count => s!"Genesis defines {count} tokens, at least 2 required"
  | .unknownAlgorithm word => s!"Unknown election algorithm: {word}"
  | .invalidBlockTime word => s!"Invalid block time: {word}"
  | .blockTimeOutOfRange seconds =>
      s!"Block time out of range: {seconds.toNat}s (allowed 1..=3600)"

/-- The first word of a network variant. -/
def mark : String := "HYPERQUBE"

/-- Longest block time in seconds. -/
def maxBlockTime : UInt64 := 3600

/-- The words of a list of characters.  Each space ends a word, so words may be
empty. -/
def splitWords : List Char → List (List Char)
  | [] => [[]]
  | c :: rest =>
      if c = ' ' then [] :: splitWords rest
      else
        match splitWords rest with
        | word :: words => (c :: word) :: words
        | [] => [[c]]

/-- The words of a text. -/
def words (text : String) : List String := (splitWords text.toList).map String.ofList

/-- The number with the given digits after `value`, if it fits in 64 bits. -/
def readDigits (value : Nat) : List Char → Option UInt64
  | [] => some (UInt64.ofNat value)
  | c :: rest =>
      if '0' ≤ c ∧ c ≤ '9' then
        let next := 10 * value + (c.toNat - '0'.toNat)
        if next < UInt64.size then readDigits next rest else none
      else none

/-- Reads a number: at most one plus sign and then at least one digit. -/
def readNumber? (word : String) : Option UInt64 :=
  match word.toList with
  | '+' :: c :: rest => readDigits 0 (c :: rest)
  | c :: rest => readDigits 0 (c :: rest)
  | [] => none

/-- The parameters of the network of a genesis. -/
def protocol (genesis : Genesis) : Except Error Protocol :=
  match words genesis.extraData with
  | first :: rest =>
      if first ≠ mark then .ok .mainnet
      else
        match rest with
        | [_, algorithmWord, timeWord] =>
            match genesis.tokens with
            | znn :: qsr :: _ => do
                let algorithm ←
                  match ElectionAlgorithm.ofWord? algorithmWord with
                  | some algorithm => pure algorithm
                  | none => throw (.unknownAlgorithm algorithmWord)
                let seconds ←
                  match readNumber? timeWord with
                  | some seconds => pure seconds
                  | none => throw (.invalidBlockTime timeWord)
                if seconds = 0 ∨ maxBlockTime < seconds then
                  throw (.blockTimeOutOfRange seconds)
                let variant : Protocol :=
                  { Protocol.mainnet with
                    znn := znn
                    qsr := qsr
                    consensus :=
                      { Protocol.mainnet.consensus with
                        countingToken := znn, algorithm := algorithm } }
                pure (variant.withBlockTime seconds)
            | tokens => .error (.missingTokens tokens.length)
        | _ => .error (.wrongWordCount (rest.length + 1))
  | [] => .ok .mainnet

end Genesis

end MomentumChain
