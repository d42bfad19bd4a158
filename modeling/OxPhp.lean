import OxPhp.Routing.ScriptSafety
import OxPhp.Routing.DenySafety
import OxPhp.Handlers.ClientAddress
import OxPhp.Async.BlockingAwait
import OxPhp.Async.Dispatch
import OxPhp.Shared.ScanRefs
import OxPhp.Shared.ContentEq
import OxPhp.Shared.Channel.EndOfStream
import OxPhp.Shared.Channel.Capacity
import OxPhp.Shared.Channel.WakeUps
import OxPhp.Shared.Channel.Fifo
import OxPhp.Shared.Batch
import OxPhp.Shared.Acyclic
import OxPhp.Shared.Admission
import OxPhp.Server.TrackedIps
import OxPhp.Executor.WaitBudget
import OxPhp.Shared.OnceCell
import OxPhp.Shared.Books
import OxPhp.Shared.PoolBudget
import OxPhp.Shared.Mutex.CycleScan
import OxPhp.Decorator.Hooks
import OxPhp.Apm.SqlSpans
import OxPhp.Php.ResponseSpool
import OxPhp.Executor.QueuedRequest
import OxPhp.Executor.WorkerSlots
import OxPhp.Shared.Names.GetOrCreate
import OxPhp.Server.Static.Ranges
import OxPhp.Server.Static.EncodedRanges
import OxPhp.Server.Static.EntityTags
import OxPhp.Plugin.Cookies
import OxPhp.Config.IgnoreParse
import OxPhp.Profiling.Calls
import OxPhp.Profiling.Speedscope
import OxPhp.Profiling.Collapsed
import OxPhp.Server.Static.CacheBudget
