import WeeEvents.Ulid
import WeeEvents.Id
import WeeEvents.TextForms
import WeeEvents.Event
import WeeEvents.EventLog
import WeeEvents.Renderer
import WeeEvents.GlobMatching
import WeeEvents.GlobTermination
import WeeEvents.Precedence
import WeeEvents.Json
import WeeEvents.Store
import WeeEvents.Foundation.Sequence
import WeeEvents.Foundation.SortedSets
import WeeEvents.Foundation.OrderMatching
import WeeEvents.Foundation.Glob
import WeeEvents.Foundation.Register
import WeeEvents.Foundation.Masks
import WeeEvents.Foundation.Stepping
import WeeEvents.Foundation.XorMultiply
import WeeEvents.Foundation.Program
import WeeEvents.Foundation.Pool
import WeeEvents.Foundation.Linearizable
import WeeEvents.Foundation.SequentialSpec
import WeeEvents.Foundation.Refinement
import WeeEvents.AtomicStore
import WeeEvents.SequentialStore
import WeeEvents.SharedStore
import WeeEvents.Service
import WeeEvents.Serializability
import WeeEvents.RejectionJson
import WeeEvents.Memory.Store
import WeeEvents.Memory.Sequential
import WeeEvents.Memory.Phases
import WeeEvents.Memory.Mirror
import WeeEvents.Memory.Invariant
import WeeEvents.Memory.Run
import WeeEvents.Memory.Linearizability
import WeeEvents.Memory.Sessions
import WeeEvents.Memory.Entries
import WeeEvents.Memory.Calls
import WeeEvents.Memory.FailedPublish
import WeeEvents.Memory.Runtime
import WeeEvents.Sqlite.Table
import WeeEvents.Sqlite.Publish
import WeeEvents.Sqlite.Log
import WeeEvents.Sqlite.Partition
import WeeEvents.Sqlite.Store
import WeeEvents.Sqlite.Strategies
import WeeEvents.Sqlite.Catalogs
import WeeEvents.Sqlite.Cluster
import WeeEvents.Sqlite.StreamOrder
import WeeEvents.Sqlite.Attempts
import WeeEvents.Sqlite.ExactlyOnce
import WeeEvents.Sqlite.Conflicts
import WeeEvents.Sqlite.Migrations
import WeeEvents.Sqlite.Runtime
import WeeEvents.Sqlite.Enumeration
import WeeEvents.Sqlite.Base32
import WeeEvents.Sqlite.PartitionNames
import WeeEvents.Sqlite.LocalNames
import WeeEvents.Sqlite.LocalDisk
import WeeEvents.Sqlite.LocalHistory
import WeeEvents.Sqlite.LocalEnumeration
import WeeEvents.Sqlite.LocalExactness
import WeeEvents.Sqlite.LocalRestart
import WeeEvents.Sqlite.LocalPublish
import WeeEvents.Sqlite.Effects
import WeeEvents.Sqlite.Linearizability
import WeeEvents.Sqlite.Instances
import WeeEvents.Sessions
import WeeEvents.Sqlite.MemoryRefinement
import WeeEvents.Sqlite.BucketHash
import WeeEvents.Sqlite.Retries
import WeeEvents.FailedCommand
import WeeEvents.Commands
import WeeEvents.Sqlite.Settlement
import WeeEvents.NoLostUpdate
import WeeEvents.Sqlite.Services
import WeeEvents.Sqlite.RemoteServices
import WeeEvents.Foundation.Budget
import WeeEvents.Sqlite.Waiting
import WeeEvents.Foundation.XorShift
import WeeEvents.Sqlite.Jitter
import WeeEvents.Turso.Sanitize
import WeeEvents.Turso.Provisioner
import WeeEvents.Turso.Discipline
import WeeEvents.Turso.Binding
import WeeEvents.Turso.Isolation
import WeeEvents.Turso.DatabaseNames
import WeeEvents.Turso.Calls
import WeeEvents.Turso.Cleanup
import WeeEvents.Turso.Names
import WeeEvents.Turso.Discoverable
import WeeEvents.Restate.Client
import WeeEvents.Restate.Binding
import WeeEvents.Restate.Journal
import WeeEvents.Restate.Effects
import WeeEvents.Restate.ErrorResponse
import WeeEvents.Projection.Documents
import WeeEvents.Projection.Snapshots
import WeeEvents.Projection.Convergence
import WeeEvents.Projection.Rebuild
import WeeEvents.Projection.OneDocument
import WeeEvents.Projection.Upserts
