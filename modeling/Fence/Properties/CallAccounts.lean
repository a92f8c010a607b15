import Fence.Properties.ReserveWrap
import Fence.Protocol.Credits
import Fence.Protocol.Quiescence

/-!
# The statistics account for the calls

`MetricsBlock` documents what its counters count: appends that succeeded and the bytes they wrote,
appends that failed because the pool was full or the payload too large, reads and checksum failures,
recoveries. `StatisticsAccount` says that the statistics agree with what the calls of a run have
returned, once all have. A payload that is too large is refused before anything is counted, so they
agree when no append was given one, and only then (`statisticsAccount_iff`).
-/

set_option autoImplicit false
set_option relaxedAutoImplicit false

namespace Fence

open ByteMemory Interleaving

variable {checked : Bool} {g : PoolGeometry} {hasher : Hasher} {memory : Memory}

/-! ### What calls have returned -/

/-- The call is an append that returned an index. -/
def Call.appended : Call → Bool
  | .append _ (.returned (.ok _)) => true
  | _ => false

/-- The bytes of an append that returned an index. -/
def Call.bytesAppended : Call → ℕ
  | .append entry (.returned (.ok _)) => entry.data.length
  | _ => 0

/-- The call is an append that found the pool full. -/
def Call.foundFull : Call → Bool
  | .append _ (.returned (.error (.poolFull _ _))) => true
  | _ => false

/-- The call is an append that found its payload too large. -/
def Call.foundTooLarge : Call → Bool
  | .append _ (.returned (.error (.payloadTooLarge _ _))) => true
  | _ => false

/-- The call is an append that failed, in one of the ways `MetricsBlock` names. -/
def Call.appendFailed (call : Call) : Bool := call.foundFull || call.foundTooLarge

/-- The call is a read that returned a record or a checksum mismatch. -/
def Call.readRecord : Call → Bool
  | .read _ _ (.returned (.ok (some _))) => true
  | .read _ _ (.returned (.error (.checksumMismatch _))) => true
  | _ => false

/-- The call is a recovery. -/
def Call.isRecovery : Call → Bool
  | .recover _ _ => true
  | _ => false

/-- The abandoned slots a recovery has reported. -/
def Call.abandonedReported : Call → ℕ
  | .recover _ (.returned report) => report.abandonedCount
  | _ => 0

/-! ### Statistics and calls -/

/-- The statistics agree with what the calls have returned. -/
structure Accounted (threads : List Call) (stats : PoolStats) : Prop where
  appendsTotal : stats.appendsTotal = threads.countP Call.appended
  bytesWritten : stats.bytesWritten = totalWeight Call.bytesAppended threads
  appendsFailed : stats.appendsFailed = threads.countP Call.appendFailed
  readsTotal : stats.readsTotal + stats.checksumFailures = threads.countP Call.readRecord
  recoveryRuns : stats.recoveryRuns = threads.countP Call.isRecovery

/-- No total is out of the range of a counter. What recoveries have abandoned matters only to a
build that checks for overflows. -/
structure TotalsFit (checked : Bool) (threads : List Call) : Prop where
  appendsTotal : threads.countP Call.appended < 2 ^ 64
  bytesWritten : totalWeight Call.bytesAppended threads < 2 ^ 64
  appendsFailed : threads.countP Call.appendFailed < 2 ^ 64
  readsTotal : threads.countP Call.readRecord < 2 ^ 64
  recoveryRuns : threads.countP Call.isRecovery < 2 ^ 64
  abandonedFound : checked = true → totalWeight Call.abandonedReported threads < 2 ^ 64

/-- The statistics a pool reports agree with what its calls have returned. -/
def StatisticsAccount (checked : Bool) (g : PoolGeometry) (hasher : Hasher)
    (config : Config Call Memory) : Prop :=
  ∃ stats, (serviceMachine checked g hasher).Ends (ServiceRequest.start g .statistics) config.shared
      (.statistics (.returned (some stats))) config.shared ∧ Accounted config.threads stats

/-- No append was given a payload that is too large. -/
def PayloadsFit (g : PoolGeometry) (schedule : List (Action Request Empty)) : Prop :=
  ∀ entry, .start (.append entry) ∈ schedule → entry.data.length ≤ g.payloadSize

/-! ### Credits of returned calls -/

/-- A call has been credited with what it has returned. -/
structure Call.Credited (call : Call) : Prop where
  appendsTotal : call.credit metricsAppendsTotal = if call.appended then 1 else 0
  bytesWritten : call.credit metricsBytesWritten = call.bytesAppended
  appendsFailed : call.credit metricsAppendsFailed = if call.foundFull then 1 else 0
  readsTotal : call.credit metricsReadsTotal + call.credit metricsChecksumFailures =
    if call.readRecord then 1 else 0
  recoveryRuns : call.credit metricsRecoveryRuns = if call.isRecovery then 1 else 0
  abandonedFound : call.credit metricsAbandonedFound = call.abandonedReported

theorem Call.credited {call : Call} (hreturned : call.isReturned = true) : call.Credited := by
  match call, hreturned with
  | .append entry (.returned (.ok index)), _ => exact ⟨rfl, Nat.zero_add _, rfl, rfl, rfl, rfl⟩
  | .append entry (.returned (.error error)), _ =>
    cases error <;> exact ⟨rfl, rfl, rfl, rfl, rfl, rfl⟩
  | .read hostId index (.returned (.ok none)), _ => exact ⟨rfl, rfl, rfl, rfl, rfl, rfl⟩
  | .read hostId index (.returned (.ok (some record))), _ => exact ⟨rfl, rfl, rfl, rfl, rfl, rfl⟩
  | .read hostId index (.returned (.error error)), _ =>
    cases error <;> exact ⟨rfl, rfl, rfl, rfl, rfl, rfl⟩
  | .trim upTo (.returned outcome), _ => exact ⟨rfl, rfl, rfl, rfl, rfl, rfl⟩
  | .recover hostId (.returned report), _ =>
    exact ⟨amountOf_report _ _ _, amountOf_report _ _ _, amountOf_report _ _ _,
      congrArg₂ (· + ·) (amountOf_report _ _ _) (amountOf_report _ _ _), amountOf_report _ _ _,
      (amountOf_report _ _ _).trans (Nat.zero_add _)⟩

/-! ### Payloads that are too large -/

variable (g) in
/-- An append refuses a payload that is too large, and no other. -/
def Call.RefusesLarge : Call → Prop
  | .append entry task =>
    (g.payloadSize < entry.data.length ↔ ∃ max got, task =
      .returned (.error (.payloadTooLarge max got)))
  | _ => True

theorem Request.call_refusesLarge (request : Request) : (request.call g).RefusesLarge g := by
  cases request with
  | append entry =>
    rw [Request.call, startAppend]
    split_ifs with hlarge
    · exact ⟨fun _ ↦ ⟨_, _, rfl⟩, fun _ ↦ hlarge⟩
    · refine ⟨fun h ↦ absurd h hlarge, ?_⟩
      rintro ⟨max, got, htask⟩
      cases htask
  | _ => trivial

/-- An append that goes on does not find its payload too large. -/
theorem FenceRuntime.append_ne_payloadTooLarge {entry : Entry} {point : AppendPoint} {max got : ℕ} :
    ((FenceRuntime.append g hasher entry point).exec memory).1 ≠
      .returned (.error (.payloadTooLarge max got)) := by
  intro htask
  cases point with
  | reserve =>
    simp only [FenceRuntime.append, BackendCall.exec] at htask
    split_ifs at htask
  | writeDataLen slot =>
    simp only [FenceRuntime.append, BackendCall.exec] at htask
    split_ifs at htask
  | sweep slot point =>
    simp only [FenceRuntime.append, BackendCall.exec_map] at htask
    cases hsweep : ((Recovery.advanceCommittedTail g point).exec memory).1 <;>
      rw [hsweep] at htask <;> cases htask
  | _ => cases htask

theorem Call.RefusesLarge.step {call : Call} (hrefuses : call.RefusesLarge g) (memory : Memory) :
    (call.step g hasher memory).1.RefusesLarge g := by
  match call with
  | .append entry (.returned outcome) => exact hrefuses
  | .append entry (.running point) =>
    rw [Call.step_append]
    constructor
    · intro hlarge
      obtain ⟨max, got, htask⟩ := hrefuses.mp hlarge
      cases htask
    · rintro ⟨max, got, htask⟩
      exact absurd htask FenceRuntime.append_ne_payloadTooLarge
  | .read hostId index (.returned outcome) => trivial
  | .trim upTo (.returned outcome) => trivial
  | .recover hostId (.returned report) => trivial
  | .read hostId index (.running point) =>
    rw [Call.step_read]
    trivial
  | .trim upTo (.running point) =>
    rw [Call.step_trim]
    trivial
  | .recover hostId (.running point) =>
    rw [Call.step_recover]
    trivial

/-- In a run appends refuse what is too large. -/
theorem refusesLarge_of_run (schedule : List (Action Request Empty)) :
    ∀ call ∈ ((runtimeMachine g hasher).run schedule (freshConfig g)).threads,
      call.RefusesLarge g := by
  refine invariant_run_always
    (fun config : Config Call Memory ↦ ∀ call ∈ config.threads, call.RefusesLarge g) ?_ schedule
    (fun call hmem ↦ by cases hmem)
  intro config action hrefuses
  cases action with
  | env event => exact event.elim
  | start request =>
    intro call hmem
    rcases List.mem_append.mp hmem with hold | hnew
    · exact hrefuses call hold
    · rw [List.mem_singleton.mp hnew]
      exact Request.call_refusesLarge request
  | step index =>
    cases hcall : config.threads[index]? with
    | none => rwa [apply_step_of_none _ hcall]
    | some call =>
      rw [apply_step_of_getElem? _ hcall]
      exact forall_mem_set (·.RefusesLarge g) hcall
        ((hrefuses call (List.mem_of_getElem? hcall)).step _)
        fun _ other _ hother ↦ hrefuses other (List.mem_of_getElem? hother)

theorem Call.foundTooLarge_iff {call : Call} : call.foundTooLarge = true ↔
    ∃ entry max got, call = .append entry (.returned (.error (.payloadTooLarge max got))) := by
  constructor
  · intro hlarge
    match call, hlarge with
    | .append entry (.returned (.error (.payloadTooLarge max got))), _ =>
      exact ⟨entry, max, got, rfl⟩
  · rintro ⟨entry, max, got, rfl⟩
    rfl

/-- All payloads fit when no call has found one too large, and only then. -/
theorem payloadsFit_iff (schedule : List (Action Request Empty)) :
    PayloadsFit g schedule ↔
      ∀ call ∈ ((runtimeMachine g hasher).run schedule (freshConfig g)).threads,
        call.foundTooLarge = false := by
  have hrefuses := @refusesLarge_of_run g hasher schedule
  constructor
  · intro hfit call hmem
    refine Bool.eq_false_iff.mpr fun hlarge ↦ ?_
    obtain ⟨entry, max, got, rfl⟩ := Call.foundTooLarge_iff.mp hlarge
    have hstart := start_mem_of_mem_run Call.request Request.request_call
      Call.request_step rfl _ hmem
    have hle := hfit entry hstart
    have hgt := (hrefuses _ hmem).mpr ⟨max, got, rfl⟩
    omega
  · intro hnone entry hstart
    have hrequest : Request.append entry ∈ schedule.filterMap Action.request :=
      List.mem_filterMap.mpr ⟨_, hstart, rfl⟩
    have hrequests : ((runtimeMachine g hasher).run schedule (freshConfig g)).threads.map
        Call.request = schedule.filterMap Action.request :=
      map_request_run Call.request Request.request_call Call.request_step schedule (freshConfig g)
    rw [← hrequests] at hrequest
    obtain ⟨call, hmem, hcall⟩ := List.mem_map.mp hrequest
    refine Nat.le_of_not_lt fun hlarge ↦ ?_
    cases call with
    | append held task =>
      obtain rfl : held = entry := Request.append.inj hcall
      obtain ⟨max, got, rfl⟩ := (hrefuses _ hmem).mp hlarge
      cases hnone _ hmem
    | _ => cases hcall

/-- The appends that failed are those that found the pool full when none has found its payload too
large, and only then. -/
theorem countP_foundFull_eq_iff (threads : List Call) :
    threads.countP Call.foundFull = threads.countP Call.appendFailed ↔
      ∀ call ∈ threads, call.foundTooLarge = false := by
  induction threads with
  | nil => simp
  | cons call rest ih =>
    have hle : rest.countP Call.foundFull ≤ rest.countP Call.appendFailed :=
      List.countP_mono_left fun call _ hcall ↦ Bool.or_eq_true_iff.mpr (Or.inl hcall)
    rw [List.forall_mem_cons, ← ih, List.countP_cons, List.countP_cons, Call.appendFailed]
    cases hlarge : call.foundTooLarge with
    | false => simp
    | true =>
      obtain ⟨entry, max, got, rfl⟩ := Call.foundTooLarge_iff.mp hlarge
      simp [Call.foundFull]
      omega

/-! ### The accounts of a run -/

section Run

variable {schedule : List (Action Request Empty)} (hhosts : ∀ action ∈ schedule, OfHost g action)
  (hreturned : AllReturned ((runtimeMachine g hasher).run schedule (freshConfig g)).threads)
  (hfit : TotalsFit checked ((runtimeMachine g hasher).run schedule (freshConfig g)).threads)

include hhosts hreturned hfit

/-- The statistics are right but for the payloads that were too large. -/
theorem stats_of_run :
    let config := (runtimeMachine g hasher).run schedule (freshConfig g)
    let stats := statsOf (total g.maxHosts (counter g config.shared))
    stats.appendsTotal = config.threads.countP Call.appended ∧
      stats.bytesWritten = totalWeight Call.bytesAppended config.threads ∧
      stats.appendsFailed = config.threads.countP Call.foundFull ∧
      stats.readsTotal + stats.checksumFailures = config.threads.countP Call.readRecord ∧
      stats.recoveryRuns = config.threads.countP Call.isRecovery := by
  intro config stats
  have htotal : ∀ field ∈ metricsFields, total g.maxHosts (counter g config.shared) field =
      totalWeight (Call.credit field) config.threads % 2 ^ 64 :=
    fun field hfield ↦ total_run hhosts hfield
  have hcredited : ∀ call ∈ config.threads, call.Credited :=
    fun call hmem ↦ Call.credited (hreturned call hmem)
  have happends : stats.appendsTotal = totalWeight (Call.credit metricsAppendsTotal) _ % _ :=
    htotal _ (by decide)
  have hbytes : stats.bytesWritten = totalWeight (Call.credit metricsBytesWritten) _ % _ :=
    htotal _ (by decide)
  have hfailed : stats.appendsFailed = totalWeight (Call.credit metricsAppendsFailed) _ % _ :=
    htotal _ (by decide)
  have hreads : stats.readsTotal = totalWeight (Call.credit metricsReadsTotal) _ % _ :=
    htotal _ (by decide)
  have hmismatches : stats.checksumFailures =
      totalWeight (Call.credit metricsChecksumFailures) _ % _ := htotal _ (by decide)
  have hruns : stats.recoveryRuns = totalWeight (Call.credit metricsRecoveryRuns) _ % _ :=
    htotal _ (by decide)
  have hread : totalWeight (Call.credit metricsReadsTotal) config.threads +
      totalWeight (Call.credit metricsChecksumFailures) config.threads =
        config.threads.countP Call.readRecord := by
    rw [← totalWeight_add]
    exact totalWeight_eq_countP fun call hmem ↦ (hcredited call hmem).readsTotal
  have hfull : config.threads.countP Call.foundFull ≤ config.threads.countP Call.appendFailed :=
    List.countP_mono_left fun call _ hcall ↦ Bool.or_eq_true_iff.mpr (Or.inl hcall)
  have hbound : config.threads.countP Call.readRecord < 2 ^ 64 := hfit.readsTotal
  refine ⟨?_, ?_, ?_, ?_, ?_⟩
  · rw [happends, totalWeight_eq_countP fun call hmem ↦ (hcredited call hmem).appendsTotal]
    exact Nat.mod_eq_of_lt hfit.appendsTotal
  · rw [hbytes, totalWeight_congr fun call hmem ↦ (hcredited call hmem).bytesWritten]
    exact Nat.mod_eq_of_lt hfit.bytesWritten
  · rw [hfailed, totalWeight_eq_countP fun call hmem ↦ (hcredited call hmem).appendsFailed]
    exact Nat.mod_eq_of_lt (hfull.trans_lt hfit.appendsFailed)
  · rw [hreads, hmismatches, Nat.mod_eq_of_lt (by omega), Nat.mod_eq_of_lt (by omega), hread]
  · rw [hruns, totalWeight_eq_countP fun call hmem ↦ (hcredited call hmem).recoveryRuns]
    exact Nat.mod_eq_of_lt hfit.recoveryRuns

/-- The counters add up without leaving the range of a word, where the build checks for that. -/
theorem sums_of_run (hchecked : checked = true) : ∀ field ∈ metricsFields,
    sumOf (counter g ((runtimeMachine g hasher).run schedule (freshConfig g)).shared) g.maxHosts
      field < 2 ^ 64 := by
  intro field hfield
  refine (sumOf_run_le hhosts hfield).trans_lt ?_
  have hcredited : ∀ call ∈ ((runtimeMachine g hasher).run schedule (freshConfig g)).threads,
      call.Credited := fun call hmem ↦ Call.credited (hreturned call hmem)
  have hfull : _ ≤ _ := List.countP_mono_left fun call
    (_ : call ∈ ((runtimeMachine g hasher).run schedule (freshConfig g)).threads)
    (hcall : call.foundFull = true) ↦
      (Bool.or_eq_true_iff.mpr (Or.inl hcall) : call.appendFailed = true)
  have hread := totalWeight_eq_countP fun call hmem ↦ (hcredited call hmem).readsTotal
  rw [totalWeight_add] at hread
  have hreads := hfit.readsTotal
  rw [← hread] at hreads
  simp only [metricsFields, List.mem_cons, List.not_mem_nil, or_false] at hfield
  rcases hfield with rfl | rfl | rfl | rfl | rfl | rfl | rfl
  · rw [totalWeight_eq_countP fun call hmem ↦ (hcredited call hmem).appendsTotal]
    exact hfit.appendsTotal
  · rw [totalWeight_eq_countP fun call hmem ↦ (hcredited call hmem).appendsFailed]
    exact hfull.trans_lt hfit.appendsFailed
  · rw [totalWeight_congr fun call hmem ↦ (hcredited call hmem).bytesWritten]
    exact hfit.bytesWritten
  · exact (Nat.le_add_right _ _).trans_lt hreads
  · exact (Nat.le_add_left _ _).trans_lt hreads
  · rw [totalWeight_eq_countP fun call hmem ↦ (hcredited call hmem).recoveryRuns]
    exact hfit.recoveryRuns
  · rw [totalWeight_congr fun call hmem ↦ (hcredited call hmem).abandonedFound]
    exact hfit.abandonedFound hchecked

/-- The statistics account for the calls of a run when all payloads fit, and only then. -/
theorem statisticsAccount_iff :
    StatisticsAccount checked g hasher ((runtimeMachine g hasher).run schedule (freshConfig g)) ↔
      PayloadsFit g schedule := by
  obtain ⟨happends, hbytes, hfull, hreads, hruns⟩ := stats_of_run hhosts hreturned hfit
  have hends := statistics_ends checked g hasher
    ((runtimeMachine g hasher).run schedule (freshConfig g)).shared
  have hno : ¬ (checked = true ∧ ∃ field ∈ metricsFields, 2 ^ 64 ≤ sumOf
      (counter g ((runtimeMachine g hasher).run schedule (freshConfig g)).shared) g.maxHosts
      field) := by
    rintro ⟨hchecked, field, hfield, hover⟩
    exact Nat.not_le.mpr (sums_of_run hhosts hreturned hfit hchecked field hfield) hover
  rw [statsResult, if_neg hno] at hends
  have hfailed : ((runtimeMachine g hasher).run schedule (freshConfig g)).threads.countP
      Call.foundFull = ((runtimeMachine g hasher).run schedule (freshConfig g)).threads.countP
        Call.appendFailed ↔ PayloadsFit g schedule := by
    rw [@payloadsFit_iff g hasher schedule, countP_foundFull_eq_iff]
  constructor
  · rintro ⟨stats, hstats, haccounted⟩
    obtain ⟨hcall, -⟩ := hstats.unique hends (fun _ ↦ rfl) fun _ ↦ rfl
    obtain rfl := Option.some.inj (Task.returned.inj (ServiceCall.statistics.inj hcall))
    exact hfailed.mp (hfull.symm.trans haccounted.appendsFailed)
  · intro hpayloads
    exact ⟨_, hends, happends, hbytes, hfull.trans (hfailed.mpr hpayloads), hreads, hruns⟩

end Run

/-- One append that fits. -/
theorem statisticsAccount_iff_onePool :
    StatisticsAccount true onePool crc32fast ((runtimeMachine onePool crc32fast).run fillPool
      (freshConfig onePool)) := by
  have hhosts : ∀ action ∈ (fillPool : List (Action Request Empty)), OfHost onePool action := by
    rintro action hmem request hostId rfl hhost
    rcases List.mem_cons.mp hmem with hstart | hstep
    · obtain rfl := Action.start.inj hstart
      obtain rfl := Option.some.inj hhost
      decide
    · cases List.eq_of_mem_replicate hstep
  refine (statisticsAccount_iff hhosts (by decide +kernel) ?_).mpr ?_
  · constructor <;> decide +kernel
  · intro entry hmem
    rcases List.mem_cons.mp hmem with hstart | hstep
    · obtain rfl := Request.append.inj (Action.start.inj hstart)
      decide
    · cases List.eq_of_mem_replicate hstep

/-- An append of nine bytes to records that hold eight. -/
def refusedEntry : Entry := ⟨0, 1, [1, 2, 3, 4, 5, 6, 7, 8, 9]⟩

/-- It is refused, and not counted as failed. -/
theorem not_statisticsAccount_of_tooLarge :
    AllReturned ((runtimeMachine onePool crc32fast).run [.start (.append refusedEntry)]
        (freshConfig onePool)).threads ∧
      ∀ checked, ¬ StatisticsAccount checked onePool crc32fast
        ((runtimeMachine onePool crc32fast).run [.start (.append refusedEntry)]
          (freshConfig onePool)) := by
  refine ⟨by decide, fun checked ↦ ?_⟩
  rintro ⟨stats, hstats, haccounted⟩
  obtain ⟨hcall, -⟩ := hstats.unique (statistics_ends checked onePool crc32fast _) (fun _ ↦ rfl)
    fun _ ↦ rfl
  have hresult := Task.returned.inj (ServiceCall.statistics.inj hcall)
  rw [statsResult] at hresult
  split_ifs at hresult
  obtain rfl := Option.some.inj hresult
  have hzero : total onePool.maxHosts (counter onePool (freshMemory onePool)) metricsAppendsFailed =
      0 := total_freshMemory (by decide)
  have hone : 0 = 1 := hzero.symm.trans haccounted.appendsFailed
  cases hone

end Fence
