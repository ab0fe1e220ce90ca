import Wcp.Base.Ballot
import Wcp.Base.Base32
import Wcp.Base.Base64
import Wcp.Base.Collation
import Wcp.Base.Correlator
import Wcp.Base.Coupling
import Wcp.Base.DateTime
import Wcp.Base.Dict
import Wcp.Base.Exceptions
import Wcp.Base.Exec
import Wcp.Base.HashChain
import Wcp.Base.Interleaving
import Wcp.Base.Json
import Wcp.Base.JsonAbsent
import Wcp.Base.JsonDialect
import Wcp.Base.JsonOrder
import Wcp.Base.JsonPadding
import Wcp.Base.JsonReader
import Wcp.Base.JsonSets
import Wcp.Base.JsonShapes
import Wcp.Base.JsonText
import Wcp.Base.LongDivision
import Wcp.Base.Outbox
import Wcp.Base.Positional
import Wcp.Base.Rounding
import Wcp.Base.Runs
import Wcp.Base.SendQueue
import Wcp.Coordinator.Admission
import Wcp.Coordinator.Agnosticism
import Wcp.Coordinator.Atomicity
import Wcp.Coordinator.Attestation
import Wcp.Coordinator.AttestationVerifier
import Wcp.Coordinator.AuditChain
import Wcp.Coordinator.AuditIntegrity
import Wcp.Coordinator.Authentication
import Wcp.Coordinator.Authenticity
import Wcp.Coordinator.Authorship
import Wcp.Coordinator.Calls
import Wcp.Coordinator.CapabilitiesService
import Wcp.Coordinator.Chains
import Wcp.Coordinator.Changes
import Wcp.Coordinator.ClaimRace
import Wcp.Coordinator.Completability
import Wcp.Coordinator.Completion
import Wcp.Coordinator.Deadlines
import Wcp.Coordinator.DidResolver
import Wcp.Coordinator.Dispatching
import Wcp.Coordinator.Durations
import Wcp.Coordinator.Entries
import Wcp.Coordinator.Environment
import Wcp.Coordinator.EvidenceBinding
import Wcp.Coordinator.Heartbeats
import Wcp.Coordinator.Identifiers
import Wcp.Coordinator.Isolation
import Wcp.Coordinator.Journal
import Wcp.Coordinator.Lifecycle
import Wcp.Coordinator.LocalEnvironment
import Wcp.Coordinator.Matching
import Wcp.Coordinator.Models
import Wcp.Coordinator.Operands
import Wcp.Coordinator.Operations
import Wcp.Coordinator.Overlap
import Wcp.Coordinator.Persistence
import Wcp.Coordinator.Projection
import Wcp.Coordinator.Readability
import Wcp.Coordinator.Repetition
import Wcp.Coordinator.Reviews
import Wcp.Coordinator.Router
import Wcp.Coordinator.RpcDispatch
import Wcp.Coordinator.Socket
import Wcp.Coordinator.Submissions
import Wcp.Coordinator.TaskChains
import Wcp.Coordinator.TasksService
import Wcp.Coordinator.Taxonomy
import Wcp.Coordinator.Thresholds
import Wcp.Coordinator.Transactions
import Wcp.Coordinator.Transport
import Wcp.Federation.AuditExport
import Wcp.Federation.Commitment
import Wcp.Federation.Imports
import Wcp.Federation.Router
import Wcp.Federation.Segments
import Wcp.Federation.Serialisation
import Wcp.Federation.Steps
import Wcp.Federation.Trust
import Wcp.Federation.TrustAnchor
import Wcp.Registry.Log
import Wcp.Registry.Replays
import Wcp.Registry.Service
import Wcp.Registry.Verify
import Wcp.Sdk.Canonical
import Wcp.Sdk.Dialects
import Wcp.Sdk.Encoders
import Wcp.Sdk.ExecuteSession
import Wcp.Sdk.GoRpc
import Wcp.Sdk.Identity
import Wcp.Sdk.Interop
import Wcp.Sdk.Multibase
import Wcp.Sdk.OfflineChain
import Wcp.Sdk.Publication
import Wcp.Sdk.PwaRpc
import Wcp.Sdk.ReaderLoop
import Wcp.Sdk.RpcClient
import Wcp.Sdk.RpcOrder
import Wcp.Sdk.RustRpc
import Wcp.Sdk.ServiceWorkerBridge
import Wcp.Sdk.Session
import Wcp.Sdk.V2Worker
import Wcp.Sdk.WcpLite
