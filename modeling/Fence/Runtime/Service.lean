import Fence.Abstract.Log

/-!
# The service of a pool

Next to the four operations of `engine.rs` a runtime reports statistics: `stats` of `engine.rs` is
`read_stats` of `metrics.rs`, which adds up the counters of all hosts, word by word. These additions
are the one thing the calls do that depends on the build: they wrap in a release build, and panic in
a build that checks for overflows. `serviceMachine` lets any number of calls of all five kinds
interleave on one memory, in either build.
-/

set_option autoImplicit false
set_option relaxedAutoImplicit false

namespace Fence

open ByteMemory Interleaving

/-! ### Statistics -/

/-- `PoolStats`, the counters summed over all hosts. -/
structure PoolStats where
  appendsTotal : ℕ
  appendsFailed : ℕ
  bytesWritten : ℕ
  readsTotal : ℕ
  checksumFailures : ℕ
  recoveryRuns : ℕ
  abandonedFound : ℕ
  deriving DecidableEq, Repr

/-- `PoolStats::default()`. -/
def PoolStats.default : PoolStats := ⟨0, 0, 0, 0, 0, 0, 0⟩

/-- Program points of `read_stats`, each the load of one counter of a host. -/
inductive StatsPoint
  | loadAppendsTotal (hostId : ℕ) (stats : PoolStats)
  | loadAppendsFailed (hostId : ℕ) (stats : PoolStats)
  | loadBytesWritten (hostId : ℕ) (stats : PoolStats)
  | loadReadsTotal (hostId : ℕ) (stats : PoolStats)
  | loadChecksumFailures (hostId : ℕ) (stats : PoolStats)
  | loadRecoveryRuns (hostId : ℕ) (stats : PoolStats)
  | loadAbandonedFound (hostId : ℕ) (stats : PoolStats)
  deriving DecidableEq

variable (checked : Bool) (g : PoolGeometry)

/-- The head of the loop over the hosts. -/
def StatsPoint.head (hostId : ℕ) (stats : PoolStats) : Task StatsPoint (Option PoolStats) :=
  if hostId < g.maxHosts then .running (.loadAppendsTotal hostId stats) else .returned (some stats)

/-- A `u64` addition, in a build that checks for overflows or in one that does not. -/
def addU64 (sum value : ℕ) : Option ℕ :=
  if checked = true ∧ 2 ^ 64 ≤ sum + value then none else some ((sum + value) % 2 ^ 64)

/-- A loaded counter is added to a sum. The call returns nothing where the addition panics. -/
def StatsPoint.add (sum value : ℕ) (next : ℕ → Task StatsPoint (Option PoolStats)) :
    Task StatsPoint (Option PoolStats) :=
  (addU64 checked sum value).elim (.returned none) next

/-- `metrics::read_stats`. -/
def Metrics.readStats : StatsPoint → BackendCall (Task StatsPoint (Option PoolStats))
  | .loadAppendsTotal hostId stats =>
    .loadU64 (g.metricsOffset hostId + metricsAppendsTotal) fun value ↦
      StatsPoint.add checked stats.appendsTotal value fun sum ↦
        .running (.loadAppendsFailed hostId { stats with appendsTotal := sum })
  | .loadAppendsFailed hostId stats =>
    .loadU64 (g.metricsOffset hostId + metricsAppendsFailed) fun value ↦
      StatsPoint.add checked stats.appendsFailed value fun sum ↦
        .running (.loadBytesWritten hostId { stats with appendsFailed := sum })
  | .loadBytesWritten hostId stats =>
    .loadU64 (g.metricsOffset hostId + metricsBytesWritten) fun value ↦
      StatsPoint.add checked stats.bytesWritten value fun sum ↦
        .running (.loadReadsTotal hostId { stats with bytesWritten := sum })
  | .loadReadsTotal hostId stats =>
    .loadU64 (g.metricsOffset hostId + metricsReadsTotal) fun value ↦
      StatsPoint.add checked stats.readsTotal value fun sum ↦
        .running (.loadChecksumFailures hostId { stats with readsTotal := sum })
  | .loadChecksumFailures hostId stats =>
    .loadU64 (g.metricsOffset hostId + metricsChecksumFailures) fun value ↦
      StatsPoint.add checked stats.checksumFailures value fun sum ↦
        .running (.loadRecoveryRuns hostId { stats with checksumFailures := sum })
  | .loadRecoveryRuns hostId stats =>
    .loadU64 (g.metricsOffset hostId + metricsRecoveryRuns) fun value ↦
      StatsPoint.add checked stats.recoveryRuns value fun sum ↦
        .running (.loadAbandonedFound hostId { stats with recoveryRuns := sum })
  | .loadAbandonedFound hostId stats =>
    .loadU64 (g.metricsOffset hostId + metricsAbandonedFound) fun value ↦
      StatsPoint.add checked stats.abandonedFound value fun sum ↦
        StatsPoint.head g (hostId + 1) { stats with abandonedFound := sum }

/-! ### Calls of all kinds -/

/-- A request to a runtime, of any kind. -/
inductive ServiceRequest
  | operation (request : Request)
  | statistics
  deriving DecidableEq, Repr

/-- A call of any kind, in flight or returned. -/
inductive ServiceCall
  | operation (call : Call)
  | statistics (task : Task StatsPoint (Option PoolStats))
  deriving DecidableEq

/-- What a call of any kind has returned. Statistics are missing when their call has panicked. -/
inductive ServiceAnswer
  | operation (answer : Answer)
  | statistics (stats : Option PoolStats)
  deriving DecidableEq

/-- The answer of a call that has returned. -/
def ServiceCall.answer : ServiceCall → Option ServiceAnswer
  | .operation call => call.answer.map .operation
  | .statistics (.returned stats) => some (.statistics stats)
  | .statistics (.running _) => none

/-- The call a request starts. -/
def ServiceRequest.start : ServiceRequest → ServiceCall
  | .operation request => .operation (request.call g)
  | .statistics => .statistics (StatsPoint.head g 0 .default)

variable (hasher : Hasher)

/-- The next backend call of a call in flight. -/
def ServiceCall.next : ServiceCall → Option (BackendCall ServiceCall)
  | .operation call => (call.next g hasher).map (·.map .operation)
  | .statistics (.running point) => some ((Metrics.readStats checked g point).map .statistics)
  | .statistics (.returned _) => none

/-- One step of a call. A returned call stays as it is. -/
def ServiceCall.step (call : ServiceCall) (memory : Memory) : ServiceCall × Memory :=
  match call.next checked g hasher with
  | some next => next.exec memory
  | none => (call, memory)

/-- Any number of calls of all kinds on one memory. -/
def serviceMachine : Machine ServiceRequest ServiceCall Memory Empty where
  start := ServiceRequest.start g
  step := ServiceCall.step checked g hasher
  env := fun event _ ↦ event.elim

variable {checked g hasher}

/-- A call that is no statistics steps as it does without them. -/
theorem ServiceCall.step_operation (call : Call) (memory : Memory) :
    (ServiceCall.operation call).step checked g hasher memory =
      (.operation (call.step g hasher memory).1, (call.step g hasher memory).2) := by
  rw [ServiceCall.step, ServiceCall.next, Call.step]
  cases call.next g hasher with
  | none => rfl
  | some next => exact BackendCall.exec_map ServiceCall.operation next memory

theorem ServiceCall.step_statistics (point : StatsPoint) (memory : Memory) :
    (ServiceCall.statistics (.running point)).step checked g hasher memory =
      (.statistics ((Metrics.readStats checked g point).exec memory).1,
        ((Metrics.readStats checked g point).exec memory).2) := by
  rw [ServiceCall.step, ServiceCall.next]
  exact BackendCall.exec_map ServiceCall.statistics _ memory

/-- A call that is no statistics runs as it does without them. -/
theorem ServiceCall.ends_operation {call result : Call} {memory later : Memory}
    (hends : (runtimeMachine g hasher).Ends call memory result later) :
    (serviceMachine checked g hasher).Ends (.operation call) memory (.operation result) later := by
  refine hends.embed (serviceMachine checked g hasher) ServiceCall.operation (fun _ ↦ False) ?_ ?_
  · exact fun _ hfalse ↦ hfalse.elim
  · exact fun call memory _ ↦ ServiceCall.step_operation call memory

end Fence
