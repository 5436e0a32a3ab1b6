import Pprof.Transition
import Pprof.Weight
import Pprof.Wrapping
import Pprof.ByteFile
import Pprof.HashCounter
import Pprof.TempFdArray
import Pprof.Collector
import Pprof.Frames
import Pprof.Profiler
import Pprof.Report
import Pprof.Session
import Pprof.Process
import Pprof.Guards
import Pprof.Blocklist
import Pprof.Periodic
import Pprof.LateSample
import Pprof.Interner
import Pprof.Profile
import Pprof.Decode
import Pprof.WellFormed
import Pprof.Delimited
import Pprof.Flamegraph
import Pprof.Cleared
import Pprof.Agreement
import Pprof.PerfMap
import Pprof.Recording
import Pprof.Merging
import Pprof.ThreadNames
import Pprof.ListedOnce
import Pprof.Backtrace
import Pprof.Windows
import Pprof.Resolver
import Pprof.Iteration
import Pprof.LiveEntries
import Pprof.PushOrder
import Pprof.FailedClear
import Pprof.AddrValidate
import Pprof.Arming
import Pprof.Decimal
import Pprof.FramePointers
import Pprof.NameFallback
import Pprof.Segments
import Pprof.Eviction
import Pprof.OwnFrames
import Pprof.Canonical
import Pprof.CpuTime
import Pprof.SampleCounter
import Pprof.ProbePipe
import Pprof.SharedProbe
import Pprof.Utf8
import Pprof.PerfRecords
import Pprof.Uploads
import Pprof.Descriptors
import Pprof.Locks
import Pprof.Regroup
import Pprof.Criterion
import Pprof.DiskUse
import Pprof.Hops
import Pprof.Interval
import Pprof.StaleMap
import Pprof.Ledger
import Pprof.SignalHandler
