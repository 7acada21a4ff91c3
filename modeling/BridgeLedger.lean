import BridgeLedger.Action
import BridgeLedger.Action.CreateAsset
import BridgeLedger.Action.CreateNft
import BridgeLedger.Action.Export
import BridgeLedger.Action.Import
import BridgeLedger.Action.Mint
import BridgeLedger.Action.Payment
import BridgeLedger.Action.ReadNft
import BridgeLedger.Action.Refusal
import BridgeLedger.Action.Script
import BridgeLedger.Action.TransferNft
import BridgeLedger.Amount
import BridgeLedger.Bridge.Message
import BridgeLedger.Bridge.Origin
import BridgeLedger.Bridge.Terms
import BridgeLedger.Bridge.Transfer
import BridgeLedger.Catalog
import BridgeLedger.CounterVector
import BridgeLedger.Credential
import BridgeLedger.Decimal.ShortestDouble
import BridgeLedger.Digest.Fnv1a
import BridgeLedger.Digest.Sha256
import BridgeLedger.Digest.Sha512
import BridgeLedger.Execution
import BridgeLedger.Exposition
import BridgeLedger.Genesis
import BridgeLedger.Identity
import BridgeLedger.KeyPool
import BridgeLedger.Ledger.Cell
import BridgeLedger.Ledger.Error
import BridgeLedger.Ledger.Records
import BridgeLedger.Limits
import BridgeLedger.MerkleTree
import BridgeLedger.Metrics
import BridgeLedger.Node
import BridgeLedger.Octets
import BridgeLedger.Proofs.ActionAccounting
import BridgeLedger.Proofs.ActionEffects
import BridgeLedger.Proofs.ActionHalts
import BridgeLedger.Proofs.Authorization
import BridgeLedger.Proofs.BridgeBacking
import BridgeLedger.Proofs.BridgeMoves
import BridgeLedger.Proofs.CallHistories
import BridgeLedger.Proofs.CommitAtomicity
import BridgeLedger.Proofs.DirectExecution
import BridgeLedger.Proofs.FaultFreedom
import BridgeLedger.Proofs.FederationInvariant
import BridgeLedger.Proofs.FederationRuns
import BridgeLedger.Proofs.FieldRoundTrip
import BridgeLedger.Proofs.Holdings
import BridgeLedger.Proofs.ImportHalts
import BridgeLedger.Proofs.KeySeparation
import BridgeLedger.Proofs.LedgerHalts
import BridgeLedger.Proofs.LedgerInvariant
import BridgeLedger.Proofs.LedgerViews
import BridgeLedger.Proofs.MessageDelivery
import BridgeLedger.Proofs.MessagesUnderway
import BridgeLedger.Proofs.OpeningState
import BridgeLedger.Proofs.OutgoingMessages
import BridgeLedger.Proofs.RecordRoundTrip
import BridgeLedger.Proofs.RecordedExecution
import BridgeLedger.Proofs.ReplaySafety
import BridgeLedger.Proofs.ScriptExecution
import BridgeLedger.Proofs.ScriptHalts
import BridgeLedger.Proofs.SupplyConservation
import BridgeLedger.Proofs.WireLengths
import BridgeLedger.Record.Asset
import BridgeLedger.Record.Nft
import BridgeLedger.Record.Transaction
import BridgeLedger.Report
import BridgeLedger.Resources
import BridgeLedger.Settings
import BridgeLedger.Signature.Ed25519
import BridgeLedger.Signature.Modular
import BridgeLedger.Signature.P256
import BridgeLedger.StateKey
import BridgeLedger.Store.Journal
import BridgeLedger.Store.KeyMap
import BridgeLedger.Store.Keyspace
import BridgeLedger.Store.Overlay
import BridgeLedger.Store.Script
import BridgeLedger.Store.Staging
import BridgeLedger.Store.StateRoot
import BridgeLedger.Text.Base58
import BridgeLedger.Text.Blank
import BridgeLedger.Text.Hex
import BridgeLedger.Text.Utf8
import BridgeLedger.Toml.Document
import BridgeLedger.Toml.Number
import BridgeLedger.Toml.Scanner
import BridgeLedger.Toml.Table
import BridgeLedger.Toml.Text
import BridgeLedger.Toml.Value
import BridgeLedger.Wire.Error
import BridgeLedger.Wire.Item
import BridgeLedger.Wire.OptionalSection
import BridgeLedger.Wire.Reader
import BridgeLedger.Wire.Writer
import BridgeLedger.Proofs.WholeActions
import BridgeLedger.Proofs.TransactionLog
import BridgeLedger.Proofs.TokenProvenance
import BridgeLedger.Proofs.AssetIdentity
import BridgeLedger.Proofs.ExactFields
import BridgeLedger.Proofs.BridgeWireFormat
import BridgeLedger.Proofs.BufferReuse
import BridgeLedger.Proofs.ActionWireFormat
import BridgeLedger.Proofs.SendableActions
import BridgeLedger.Proofs.RecordLimits
import BridgeLedger.Proofs.ReadableKeys
import BridgeLedger.Proofs.HashedPaths
import BridgeLedger.Proofs.MerkleSoundness
import BridgeLedger.Proofs.StateRootBinding
import BridgeLedger.Proofs.OverlayRefinement
import BridgeLedger.Proofs.IndependentExecutions
import BridgeLedger.Proofs.ExportEffect
import BridgeLedger.Proofs.ImportEffect
import BridgeLedger.Proofs.SwapSettlement
import BridgeLedger.Proofs.MerkleCompleteness
import BridgeLedger.Proofs.OverlayAccounts
import BridgeLedger.Proofs.AllocationCounts
import BridgeLedger.Proofs.ReadCounts
import BridgeLedger.Proofs.RequestedWrites
import BridgeLedger.Proofs.ReceiptUnits
import BridgeLedger.Proofs.FieldSequences
import BridgeLedger.Proofs.LedgerOperations
import BridgeLedger.Proofs.LedgerBooks
import BridgeLedger.Proofs.GenesisAllocations
