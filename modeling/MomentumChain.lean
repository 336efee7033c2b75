import MomentumChain.Word
import MomentumChain.Bytes.Endian
import MomentumChain.Bytes.Utf8
import MomentumChain.Bytes.Hex
import MomentumChain.Digest.Keccak
import MomentumChain.Hash
import MomentumChain.Amount
import MomentumChain.Identifier
import MomentumChain.Address
import MomentumChain.Token
import MomentumChain.Plasma.Units
import MomentumChain.Plasma.Price
import MomentumChain.Block
import MomentumChain.Momentum
import MomentumChain.Spork
import MomentumChain.Plasma.Usage
import MomentumChain.Plasma.Variables
import MomentumChain.Plasma.Market
import MomentumChain.Protocol
import MomentumChain.Sort.Sorting
import MomentumChain.Sort.SymMerge
import MomentumChain.Sort.Stable
import MomentumChain.Sort.InPlace
import MomentumChain.Selection.Priority
import MomentumChain.Selection.Admission
import MomentumChain.Selection.Limits
import MomentumChain.Election.Delegation
import MomentumChain.Election.ChaCha
import MomentumChain.Election.Shuffle
import MomentumChain.Election.Producers
import MomentumChain.Election.Schedule
import MomentumChain.Table
import MomentumChain.Contract.Error
import MomentumChain.Contract.CallData
import MomentumChain.Contract.Storage
import MomentumChain.Contract.Method
import MomentumChain.Contract.Receive
import MomentumChain.Contract.Dispatch
import MomentumChain.Digits
import MomentumChain.Json.Value
import MomentumChain.Json.Reader
import MomentumChain.Json.Form
import MomentumChain.Json.Record
import MomentumChain.Json.Ledger
import MomentumChain.Json.Network
import MomentumChain.Json.Contract
import MomentumChain.Production.Error
import MomentumChain.Production.Signer
import MomentumChain.Production.Config
import MomentumChain.Production.Metrics
import MomentumChain.Production.Chain
import MomentumChain.Production.Round
import MomentumChain.Network
import MomentumChain.Json.Production
import MomentumChain.Proofs.Sort.Passes
import MomentumChain.Proofs.Sort.Neighbours
import MomentumChain.Proofs.Sort.Row
import MomentumChain.Proofs.Sort.InPlaceMerge
import MomentumChain.Proofs.Sort.InPlace
import MomentumChain.Proofs.Sort.Order
import MomentumChain.Proofs.Selection.Places
import MomentumChain.Proofs.Plasma.Payment
import MomentumChain.Proofs.Selection.Order
import MomentumChain.Proofs.Selection.Content
import MomentumChain.Proofs.Selection.Limits
import MomentumChain.Proofs.Selection.Heights
import MomentumChain.Proofs.Selection.Pairs
import MomentumChain.Proofs.Selection.Starvation
import MomentumChain.Proofs.Plasma.Price
import MomentumChain.Proofs.Plasma.Usage
import MomentumChain.Proofs.Production.Round
import MomentumChain.Proofs.Production.Faults
import MomentumChain.Proofs.Production.Run
import MomentumChain.Proofs.Production.HashChain
import MomentumChain.Proofs.Production.Conservation
import MomentumChain.Proofs.Production.Refusal
import MomentumChain.Proofs.Plasma.PriceMove
import MomentumChain.Proofs.Plasma.PriceFormula
import MomentumChain.Proofs.Plasma.PriceMonotone
import MomentumChain.Proofs.Plasma.PriceDecay
import MomentumChain.Proofs.Production.Prices
import MomentumChain.Proofs.Production.Accounting
import MomentumChain.Proofs.Plasma.Rate
import MomentumChain.Proofs.Plasma.Comparison
import MomentumChain.Proofs.Plasma.PriceRule
import MomentumChain.Proofs.Plasma.Split
import MomentumChain.Proofs.Plasma.Conversions
import MomentumChain.Proofs.Selection.Reordering
import MomentumChain.Proofs.Selection.Privilege
import MomentumChain.Proofs.Selection.Shape
import MomentumChain.Proofs.Selection.Repetition
import MomentumChain.Proofs.Table
import MomentumChain.Proofs.Text
import MomentumChain.Proofs.Contract.CallData
import MomentumChain.Proofs.Contract.Validate
import MomentumChain.Proofs.Contract.Receive
import MomentumChain.Proofs.Contract.History
import MomentumChain.Proofs.Contract.Locked
import MomentumChain.Proofs.Contract.FusionLedger
import MomentumChain.Proofs.Contract.Refunds
import MomentumChain.Proofs.Contract.Governance
import MomentumChain.Proofs.Contract.Codec
import MomentumChain.Proofs.Contract.Spelling
import MomentumChain.Proofs.Contract.Confinement
import MomentumChain.Proofs.Contract.Lifecycle
import MomentumChain.Proofs.Network.Run
import MomentumChain.Proofs.Network.FormatSwitch
import MomentumChain.Proofs.HashInput
import MomentumChain.Proofs.Election.Rank
import MomentumChain.Proofs.Election.Shuffle
import MomentumChain.Proofs.Election.Seats
import MomentumChain.Proofs.Contract.Selector
import MomentumChain.Proofs.Contract.Dispatch
import MomentumChain.Proofs.Genesis
import MomentumChain.Proofs.Production.Metrics
import MomentumChain.Proofs.Json.Text
import MomentumChain.Proofs.Json.Form
import MomentumChain.Proofs.Json.Records
import MomentumChain.Proofs.Election.Schedule
import MomentumChain.Proofs.Identifier
import MomentumChain.Proofs.Network.Variant
