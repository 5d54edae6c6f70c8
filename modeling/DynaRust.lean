import DynaRust.Foundation.Broadcast
import DynaRust.Foundation.CausalHistory
import DynaRust.Foundation.Cell
import DynaRust.Foundation.Circle
import DynaRust.Foundation.Contest
import DynaRust.Foundation.Delivery
import DynaRust.Foundation.Draining
import DynaRust.Foundation.Fallback
import DynaRust.Foundation.FileSystem
import DynaRust.Foundation.FiniteMap
import DynaRust.Foundation.Handover
import DynaRust.Foundation.PubSub
import DynaRust.Foundation.Retention
import DynaRust.Foundation.Runs
import DynaRust.Foundation.Selection
import DynaRust.Foundation.ServerSentEvents
import DynaRust.Foundation.Text
import DynaRust.Foundation.Url
import DynaRust.Foundation.Workers
import DynaRust.Network.Cluster
import DynaRust.Network.Deployment
import DynaRust.Network.Dispatch
import DynaRust.Network.Draining
import DynaRust.Network.FailureDetection
import DynaRust.Network.FanOut
import DynaRust.Network.Gossip
import DynaRust.Network.Http
import DynaRust.Network.LastEvent
import DynaRust.Network.Locking
import DynaRust.Network.Lockout
import DynaRust.Network.Membership
import DynaRust.Network.MembershipRuns
import DynaRust.Network.Provenance
import DynaRust.Network.Rejection
import DynaRust.Network.Replication
import DynaRust.Network.Ring
import DynaRust.Network.RingChange
import DynaRust.Network.RingWalk
import DynaRust.Network.Routes
import DynaRust.Network.Sending
import DynaRust.Network.Serving
import DynaRust.Network.Silence
import DynaRust.Network.Wire
import DynaRust.Network.WireRuns
import DynaRust.Replication.CausalOrder
import DynaRust.Replication.Causality
import DynaRust.Replication.Convergence
import DynaRust.Replication.Deletion
import DynaRust.Replication.DeliveryOrder
import DynaRust.Replication.Handoff
import DynaRust.Replication.Joining
import DynaRust.Replication.KeyCluster
import DynaRust.Replication.OwnReads
import DynaRust.Replication.ReadRepair
import DynaRust.Security.AdminRecords
import DynaRust.Security.AuthTable
import DynaRust.Security.Authentication
import DynaRust.Security.ClusterSecret
import DynaRust.Security.Concealment
import DynaRust.Security.Confidentiality
import DynaRust.Security.CredentialAgreement
import DynaRust.Security.Ownership
import DynaRust.Security.Registration
import DynaRust.Security.Removal
import DynaRust.Security.Takeover
import DynaRust.Storage.Admin
import DynaRust.Storage.BulkMerge
import DynaRust.Storage.Chunking
import DynaRust.Storage.ColdSave
import DynaRust.Storage.CrashRecovery
import DynaRust.Storage.DataDirectory
import DynaRust.Storage.DerivedWrites
import DynaRust.Storage.Durability
import DynaRust.Storage.Encryption
import DynaRust.Storage.Engine
import DynaRust.Storage.EventStream
import DynaRust.Storage.GlobalMerge
import DynaRust.Storage.Interruption
import DynaRust.Storage.Isolation
import DynaRust.Storage.LatestVersion
import DynaRust.Storage.MergeRule
import DynaRust.Storage.Nonces
import DynaRust.Storage.Persistance
import DynaRust.Storage.Restore
import DynaRust.Storage.SnapshotFormat
import DynaRust.Storage.Snapshoting
import DynaRust.Storage.Statistics
import DynaRust.Storage.Store
import DynaRust.Storage.Subscription
import DynaRust.Storage.TableFolders
import DynaRust.Storage.VersionedValue
