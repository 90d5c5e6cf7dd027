import MirrorMirage.Core.Run
import MirrorMirage.Core.Since
import MirrorMirage.Pathlib
import MirrorMirage.Core.Dict
import MirrorMirage.Config
import MirrorMirage.Loader
import MirrorMirage.Filter
import MirrorMirage.Mapper
import MirrorMirage.Batcher.Model
import MirrorMirage.Batcher.Moves
import MirrorMirage.Batcher.Invariant
import MirrorMirage.Batcher.Handover
import MirrorMirage.Batcher.Wakeup
import MirrorMirage.Batcher.Shutdown
import MirrorMirage.Batcher.Failures
import MirrorMirage.Core.Debounce
import MirrorMirage.Batcher.Timing
import MirrorMirage.Batcher.Rest
import MirrorMirage.Batcher.Debouncing
import MirrorMirage.Core.SlidingWindow
import MirrorMirage.Providers.GcpQuota
import MirrorMirage.Core.Gather
import MirrorMirage.Stdlib.Repr
import MirrorMirage.Stdlib.UrlParse
import MirrorMirage.Providers.Base
import MirrorMirage.Providers.Fastly
import MirrorMirage.Providers.Gcp
import MirrorMirage.Providers.CloudFront
import MirrorMirage.Worker
import MirrorMirage.Providers.Accepted
import MirrorMirage.Providers.Addresses
import MirrorMirage.Core.FileTree
import MirrorMirage.Watcher.Model
import MirrorMirage.Watcher.Moves
import MirrorMirage.Watcher.Coverage
import MirrorMirage.Watcher.Invariant
import MirrorMirage.Watcher.Operations
import MirrorMirage.Watcher.Tracking
import MirrorMirage.Watcher.Arrivals
import MirrorMirage.Watcher.Directories
import MirrorMirage.Queue.Model
import MirrorMirage.Queue.Moves
import MirrorMirage.Queue.Invariant
import MirrorMirage.Queue.Lifecycle
import MirrorMirage.Queue.Spacing
import MirrorMirage.Queue.Retries
import MirrorMirage.Watcher.Growth
import MirrorMirage.Watcher.Race
import MirrorMirage.Queue.Callers
import MirrorMirage.Queue.Exclusive
import MirrorMirage.Queue.Current
import MirrorMirage.Core.StableSort
import MirrorMirage.Pipeline
import MirrorMirage.Watcher.Bookkeeping
import MirrorMirage.Watcher.Silence
import MirrorMirage.Core.Occupation
import MirrorMirage.Watcher.Startup
import MirrorMirage.Watcher.Overflow
import MirrorMirage.Watcher.Frames
import MirrorMirage.Watcher.Paths
import MirrorMirage.Core.Alignment
import MirrorMirage.Globs
import MirrorMirage.Ownership
import MirrorMirage.Batcher.Bounds
import MirrorMirage.Core.Sweep
import MirrorMirage.Batcher.Drain
import MirrorMirage.Queue.Attempts
import MirrorMirage.Queue.Survival
import MirrorMirage.Providers.Transient
import MirrorMirage.Providers.Discovery
import MirrorMirage.Core.DirTree
import MirrorMirage.Watcher.Preflight
import MirrorMirage.Providers.Build
import MirrorMirage.Providers.Limiter
import MirrorMirage.Providers.ServerErrors
import MirrorMirage.Core.Exceptions
import MirrorMirage.Diagnostics
import MirrorMirage.Core.Gluing
import MirrorMirage.Stdlib.UrlRoundTrip
import MirrorMirage.Providers.Expansion
import MirrorMirage.Publication
import MirrorMirage.Core.Composition
import MirrorMirage.Daemon.Model
import MirrorMirage.Daemon.Moves
import MirrorMirage.Daemon.Components
import MirrorMirage.Batcher.Passage
import MirrorMirage.Daemon.Joint
import MirrorMirage.Daemon.Delivery
import MirrorMirage.Daemon.Progress
import MirrorMirage.Queue.Order
import MirrorMirage.Queue.Service
import MirrorMirage.Daemon.Purge
import MirrorMirage.Stdlib.Json
import MirrorMirage.Queue.Columns
import MirrorMirage.Daemon.Origin
import MirrorMirage.Batcher.Closing
import MirrorMirage.Daemon.Shutdown
import MirrorMirage.Core.TaskGroup
import MirrorMirage.Process.Ending
import MirrorMirage.Process.Lives
import MirrorMirage.Process.Staffing
import MirrorMirage.Providers.GcpPacing
