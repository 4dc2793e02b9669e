import BlockExchange.Exchange.Hello
import BlockExchange.Exchange.Cluster
import BlockExchange.Client.Load
import BlockExchange.Store
import BlockExchange.Store.Memory
import BlockExchange.Client.Settings
import BlockExchange.Model.Document
import BlockExchange.Json.Reader
import BlockExchange.Json.Printer
import BlockExchange.Wire.Frame
import BlockExchange.Cbor.Reader
import BlockExchange.Table
import BlockExchange.Cbor.Writer
import BlockExchange.Model.BlockList
import BlockExchange.Model.FolderStats
import BlockExchange.Model.Marker
import BlockExchange.Text.Blank
import BlockExchange.Client
import BlockExchange.Proofs.Index.Recount
import BlockExchange.Proofs.Index.Convergence
import BlockExchange.Proofs.Index.LastWriter
import BlockExchange.Proofs.Index.Refusal
import BlockExchange.Proofs.Index.Replay
import BlockExchange.Proofs.Index.LastUpdate
import BlockExchange.Proofs.Index.Representable
import BlockExchange.Proofs.Index.Permuted
import BlockExchange.Proofs.Index.Epoch
import BlockExchange.Proofs.Store.Parallel
import BlockExchange.Proofs.Wire.Framing
import BlockExchange.Proofs.Connection.Site
import BlockExchange.Proofs.Connection.Authentication
import BlockExchange.Proofs.Exchange.Announced
import BlockExchange.Proofs.Exchange.Received
import BlockExchange.Proofs.Connection.Confinement
import BlockExchange.Proofs.Connection.Requests
import BlockExchange.Proofs.Connection.Active
import BlockExchange.Proofs.Index.Unusable
import BlockExchange.Proofs.Index.Single
import BlockExchange.Proofs.Index.Listing
import BlockExchange.Proofs.Index.Baseline
import BlockExchange.Proofs.Store.Batch
import BlockExchange.Proofs.Store.Statistics
import BlockExchange.Proofs.Store.Reopening
import BlockExchange.Proofs.Index.Survivors
import BlockExchange.Proofs.Client.Resolution
