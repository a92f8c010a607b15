import Fence.Library.ByteMemory
import Fence.Library.CachedMemory
import Fence.Library.Interleaving
import Fence.Library.Session
import Fence.Library.Visits
import Fence.Library.Tally
import Fence.Library.Crash
import Fence.Library.Outages
import Fence.Library.FirstGap
import Fence.Library.Moments
import Fence.Library.Eras
import Fence.Core.Layout
import Fence.Core.Checksum
import Fence.Core.Backend
import Fence.Core.Config
import Fence.Core.Access
import Fence.Core.RawGeometry
import Fence.Core.Routine
import Fence.Core.Regions
import Fence.Core.CacheLines
import Fence.Core.Persistence
import Fence.Runtime.Recovery
import Fence.Runtime.Engine
import Fence.Runtime.CachedEngine
import Fence.Abstract.Log
import Fence.Abstract.PublishedLog
import Fence.Runtime.Service
import Fence.Runtime.Open
import Fence.Runtime.OpenFile
import Fence.Runtime.ReadRange
import Fence.Protocol.Progress
import Fence.Protocol.Effects
import Fence.Protocol.Steps
import Fence.Protocol.Reserved
import Fence.Protocol.Invariant
import Fence.Protocol.Published
import Fence.Protocol.ReadMoments
import Fence.Protocol.TrimPasses
import Fence.Protocol.Trimmed
import Fence.Protocol.Advance
import Fence.Protocol.ReadAlone
import Fence.Protocol.RangeAlone
import Fence.Protocol.Counters
import Fence.Protocol.Statistics
import Fence.Protocol.AppendAlone
import Fence.Protocol.RecoverAlone
import Fence.Protocol.TrimAlone
import Fence.Protocol.Bounds
import Fence.Protocol.TailRuns
import Fence.Protocol.Marking
import Fence.Protocol.Represents
import Fence.Protocol.Credits
import Fence.Protocol.Serving
import Fence.Protocol.Quiescence
import Fence.Protocol.Durable
import Fence.Protocol.RecoveryOutcome
import Fence.Protocol.RecoveryRun
import Fence.Protocol.CachedRecovery
import Fence.Protocol.Reopen
import Fence.Alloc.Catalog
import Fence.Alloc.Allocator
import Fence.Alloc.Entries
import Fence.Alloc.Loops
import Fence.Alloc.CallsAlone
import Fence.Alloc.Updates
import Fence.Abstract.RegionTable
import Fence.Abstract.TableService
import Fence.Alloc.CachedAllocator
import Fence.Alloc.AtRest
import Fence.Alloc.CrashPhases
import Fence.Alloc.CrashCreate
import Fence.Alloc.CrashFree
import Fence.Alloc.CompletedCalls
import Fence.Alloc.Catalogued
import Fence.Alloc.HeldTable
import Fence.Alloc.Creators
import Fence.Alloc.CreatorSteps
import Fence.Alloc.CreatorRuns
import Fence.Alloc.CountTallies
import Fence.Properties.EntryCodec
import Fence.Properties.CatalogRuns
import Fence.Properties.SpaceChecks
import Fence.Properties.RegionBounds
import Fence.Properties.AllocatorCrash
import Fence.Alloc.Interrupted
import Fence.Properties.CountRecovery
import Fence.Properties.RegionDurability
import Fence.Properties.ConcurrentCreation
import Fence.Properties.SlotReservation
import Fence.Properties.ReserveWrap
import Fence.Properties.TailInvariant
import Fence.Properties.SweepTermination
import Fence.Properties.WaitFreedom
import Fence.Properties.ReaderSafety
import Fence.Properties.ReadLinearization
import Fence.Properties.TrimFinality
import Fence.Properties.RecoveryConfluence
import Fence.Properties.ConcurrentRecovery
import Fence.Properties.RecoveryRestarts
import Fence.Properties.LostAdvance
import Fence.Properties.TrimStranding
import Fence.Properties.PersistBeforeCommit
import Fence.Properties.SlotReuse
import Fence.Properties.ReaderDurability
import Fence.Properties.RecoveryGaps
import Fence.Properties.DamagedPools
import Fence.Properties.RecordPlacement
import Fence.Properties.ShortCorruption
import Fence.Properties.RangeReads
import Fence.Properties.CallAccounts
import Fence.Properties.AbandonmentCounts
import Fence.Properties.SequentialLog
import Fence.Properties.CreatedPools
import Fence.Properties.LayoutSeparation
import Fence.Properties.LineSharing
import Fence.Properties.FlushCoverage
import Fence.Properties.FailedOpens
import Fence.Properties.OpenConfigs
import Fence.Properties.ReopenedPools
import Fence.Protocol.WrittenOff
import Fence.Protocol.Backed
import Fence.Protocol.Remains
import Fence.Protocol.Lives
import Fence.Properties.PoolLives
import Fence.Protocol.Lasting
import Fence.Protocol.FinishedSweeps
import Fence.Properties.LastingRecords
import Fence.Library.SideBySide
import Fence.Runtime.RangeCalls
import Fence.Protocol.RangeMoments
import Fence.Properties.RangeLinearization
import Fence.Protocol.CounterRuns
import Fence.Properties.ConcurrentStatistics
import Fence.Runtime.OpenCalls
import Fence.Properties.PoolCreation
