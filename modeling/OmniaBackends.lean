import OmniaBackends.AzureTable.Documents
import OmniaBackends.AzureTable.Entity
import OmniaBackends.AzureTable.Filter
import OmniaBackends.AzureTable.Odata
import OmniaBackends.AzureTable.Paging
import OmniaBackends.AzureTable.Requests
import OmniaBackends.AzureVault.KeyVault
import OmniaBackends.Blobstore.Mongodb
import OmniaBackends.Blobstore.Ranges
import OmniaBackends.Cursor.Agent
import OmniaBackends.Cursor.AgentCalls
import OmniaBackends.Cursor.Callback
import OmniaBackends.Cursor.CallbackIsolation
import OmniaBackends.Cursor.Completion
import OmniaBackends.Cursor.Pool
import OmniaBackends.Cursor.Proto
import OmniaBackends.Cursor.Protocol
import OmniaBackends.Cursor.Stream
import OmniaBackends.Filesystem.Blobstore
import OmniaBackends.Filesystem.Cell
import OmniaBackends.Filesystem.Crash
import OmniaBackends.Filesystem.KeyValue
import OmniaBackends.Filesystem.Locks
import OmniaBackends.Filesystem.MapRefinement
import OmniaBackends.Filesystem.Steps
import OmniaBackends.Foundation.BigEndian
import OmniaBackends.Foundation.CharBoundary
import OmniaBackends.Foundation.Doubles
import OmniaBackends.Foundation.FairSemaphore
import OmniaBackends.Foundation.FileTree
import OmniaBackends.Foundation.Ieee
import OmniaBackends.Foundation.Indexed
import OmniaBackends.Foundation.JsonValue
import OmniaBackends.Foundation.Languages
import OmniaBackends.Foundation.LastMatch
import OmniaBackends.Foundation.LineReader
import OmniaBackends.Foundation.OrderedMap
import OmniaBackends.Foundation.Percent
import OmniaBackends.Foundation.Precedence
import OmniaBackends.Foundation.Program
import OmniaBackends.Foundation.Rounding
import OmniaBackends.Foundation.Run
import OmniaBackends.Foundation.Settings
import OmniaBackends.Foundation.Shell
import OmniaBackends.Foundation.Uri
import OmniaBackends.Foundation.Utf8
import OmniaBackends.Foundation.Watermark
import OmniaBackends.Genai.Budgets
import OmniaBackends.Genai.Conversation
import OmniaBackends.Genai.Requests
import OmniaBackends.Genai.Truncation
import OmniaBackends.Git.Checkout
import OmniaBackends.Git.Config
import OmniaBackends.Git.Credentials
import OmniaBackends.Git.Glob
import OmniaBackends.Git.GlobMeaning
import OmniaBackends.Git.GlobTable
import OmniaBackends.Git.Merge
import OmniaBackends.Git.MergeScript
import OmniaBackends.Git.MergeSealing
import OmniaBackends.Git.MergeUnwinding
import OmniaBackends.Git.Pending
import OmniaBackends.Git.Pins
import OmniaBackends.Git.Policy
import OmniaBackends.Git.Programs
import OmniaBackends.Git.Refusal
import OmniaBackends.Git.Resolution
import OmniaBackends.Git.Transport
import OmniaBackends.Git.Worktrees
import OmniaBackends.Kafka.Commit
import OmniaBackends.Kafka.CommitSafety
import OmniaBackends.Kafka.Delivery
import OmniaBackends.Kafka.DeliveryBounds
import OmniaBackends.Kafka.DeliveryChain
import OmniaBackends.Kafka.DeliveryFailure
import OmniaBackends.Kafka.DeliveryOrder
import OmniaBackends.Kafka.LanesRuns
import OmniaBackends.Kafka.Metadata
import OmniaBackends.Kafka.Partitioner
import OmniaBackends.Kafka.Registry
import OmniaBackends.Kafka.SchemaCache
import OmniaBackends.Kafka.Sends
import OmniaBackends.Kafka.StoreOrder
import OmniaBackends.Kafka.Tracker
import OmniaBackends.Kafka.TrackerOrder
import OmniaBackends.Kafka.TrackerReference
import OmniaBackends.Kafka.TrackerStep
import OmniaBackends.Kafka.TrackerTickets
import OmniaBackends.KeyValue.Counter
import OmniaBackends.KeyValue.Interchange
import OmniaBackends.Nats.Atomicity
import OmniaBackends.Nats.Expiry
import OmniaBackends.Nats.KeyValue
import OmniaBackends.Postgres.Params
import OmniaBackends.Redis.Buckets
import OmniaBackends.Redis.Glob
import OmniaBackends.Redis.KeyValue
import OmniaBackends.Sandbox.Address
import OmniaBackends.Sandbox.Environment
import OmniaBackends.Sandbox.Linux
import OmniaBackends.Sandbox.Proxy
import OmniaBackends.Sandbox.ReadRoots
import OmniaBackends.Sandbox.Seatbelt
import OmniaBackends.Sandbox.Stderr
