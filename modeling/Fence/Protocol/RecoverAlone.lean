import Fence.Protocol.Counters
import Fence.Protocol.RecoveryReport

/-!
# A recover call that runs alone

`recover` of the runtime is the recovery of `recovery.rs` followed by its metrics. Running alone it
returns `recoveryReport` and leaves the memory of `Recovered`, up to the counters
(`recover_ends`).
-/

set_option autoImplicit false
set_option relaxedAutoImplicit false

namespace Fence

open ByteMemory Interleaving

variable {g : PoolGeometry} {hasher : Hasher}

/-- The increments a recovery ends with. -/
def RecoveryReport.increments (report : RecoveryReport) (hostId : UInt16) : List Increment :=
  ⟨hostId, metricsRecoveryRuns, 1⟩ ::
    if 0 < report.abandonedCount then [⟨hostId, metricsAbandonedFound, report.abandonedCount⟩]
    else []

theorem recover_ends_step {hostId : UInt16} {point : RuntimeRecoverPoint} {memory later : Memory}
    {result : Call} (hends : (runtimeMachine g hasher).Ends
      (.recover hostId ((FenceRuntime.recover g hasher hostId point).exec memory).1)
      ((FenceRuntime.recover g hasher hostId point).exec memory).2 result later) :
    (runtimeMachine g hasher).Ends (.recover hostId (.running point)) memory result later :=
  .of_step (Call.step_recover hostId point) hends

/-- The metrics after a recovery do not reach the pool. -/
theorem recover_count_ends (hostId : UInt16) (report : RecoveryReport) (memory : Memory) :
    ∃ later, (runtimeMachine g hasher).Ends (.recover hostId (.running (.countRuns report))) memory
        (.recover hostId (.returned report)) later ∧
      Pool.ofMemory g later = Pool.ofMemory g memory ∧
      Counted g (report.increments hostId) memory later := by
  have hruns : metricsRecoveryRuns ∈ metricsFields := by decide
  have hfound : metricsAbandonedFound ∈ metricsFields := by decide
  have hfirst : Counted g [⟨hostId, metricsRecoveryRuns, 1⟩] memory
      ((Metrics.incrementRecoveryRuns g hostId ()).exec memory).2 := Counted.increment 1 hruns
  by_cases hsome : 0 < report.abandonedCount
  · refine ⟨((Metrics.incrementAbandonedFound g hostId report.abandonedCount ()).exec
      ((Metrics.incrementRecoveryRuns g hostId ()).exec memory).2).2, ?_, ?_, ?_⟩
    · refine recover_ends_step ?_
      simp only [FenceRuntime.recover, if_pos hsome]
      exact recover_ends_step (.refl _ _)
    · exact Eq.trans ofMemory_exec_incrementCounter ofMemory_exec_incrementCounter
    · rw [RecoveryReport.increments, if_pos hsome]
      exact hfirst.trans (Counted.increment report.abandonedCount hfound)
  · refine ⟨((Metrics.incrementRecoveryRuns g hostId ()).exec memory).2, ?_,
      ofMemory_exec_incrementCounter, ?_⟩
    · refine recover_ends_step ?_
      simp only [FenceRuntime.recover, if_neg hsome]
      exact .refl _ _
    · rw [RecoveryReport.increments, if_neg hsome]
      exact hfirst

/-- The recovery inside a recover call. -/
theorem recover_recovery_ends (hostId : UInt16) {memory later : Memory} {report : RecoveryReport}
    (hends : (recoverMachine g hasher).Ends (.running .loadReserveTail) memory (.returned report)
      later) :
    (runtimeMachine g hasher).Ends (Request.call g (.recover hostId)) memory
      (.recover hostId (.running (.countRuns report))) later := by
  refine hends.embed (runtimeMachine g hasher) (Task.fold
    (fun point ↦ Call.recover hostId (.running (.recovery point)))
    (fun report ↦ Call.recover hostId (.running (.countRuns report))))
    (fun task ↦ ∃ report, task = .returned report) ?_ ?_
  · rintro task ⟨report, rfl⟩ shared
    rfl
  · rintro (point | report) shared hrunning
    · have hstep : (Call.recover hostId (.running (.recovery point))).step g hasher shared = _ :=
        Call.step_recover hostId _
      simp only [FenceRuntime.recover, BackendCall.exec_map] at hstep
      refine hstep.trans ?_
      cases hnext : ((Recovery.recover g hasher point).exec shared).1 <;>
        simp [recoverMachine, Task.fold, hnext]
    · exact absurd ⟨report, rfl⟩ hrunning

/-- A recover call that runs alone. -/
theorem recover_ends (g : PoolGeometry) (hasher : Hasher) (memory : Memory) (hostId : UInt16) :
    ∃ recovered later, (runtimeMachine g hasher).Ends (Request.call g (.recover hostId)) memory
        (.recover hostId (.returned (recoveryReport g hasher memory))) later ∧
      Recovered g hasher memory recovered ∧
      Pool.ofMemory g later = Pool.ofMemory g recovered ∧
      Counted g ((recoveryReport g hasher memory).increments hostId) recovered later := by
  obtain ⟨recovered, hends, hrecovered⟩ := exists_recovered_report g hasher memory
  obtain ⟨later, hcount, hpool, hcounted⟩ := @recover_count_ends g hasher hostId
    (recoveryReport g hasher memory) recovered
  exact ⟨recovered, later, (recover_recovery_ends hostId hends).trans hcount, hrecovered, hpool,
    hcounted⟩

end Fence
