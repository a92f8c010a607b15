import Fence.Library.Tally
import Fence.Protocol.RecoveryOutcome
import Fence.Protocol.TailRuns
import Mathlib.Data.Nat.Count

/-!
# Trims and recoveries that mark slots

Trims and recoveries mark slots abandoned, and count what they mark. `Call.marked` is what a call
has counted so far, in flight or returned, and a step counts when it stores an abandoned state,
whatever was there (`Call.marked_step`). No other state byte changes (`Call.stateByte_step`). So the
counts of all calls are the slots whose state has changed, and the slots that were marked again
(`totalWeight_marked_run`).
-/

set_option autoImplicit false
set_option relaxedAutoImplicit false

namespace Fence

open ByteMemory Interleaving

variable {g : PoolGeometry} {hasher : Hasher} {memory : Memory}

/-! ### What a call has counted -/

/-- What a trim has counted so far. -/
def TrimPoint.marked : TrimPoint → ℕ
  | .loadTail => 0
  | .loadState _ trimmedCount => trimmedCount
  | .storeAbandoned _ trimmedCount => trimmedCount
  | .flushAbandoned _ trimmedCount => trimmedCount + 1

/-- The count a trim returns. -/
def trimOutcomeCount : Except FenceError TrimResult → ℕ
  | .ok result => result.trimmedCount
  | .error _ => 0

/-- What a recovery has counted so far. -/
def RecoverPoint.marked : RecoverPoint → ℕ
  | .loadReserveTail => 0
  | .loadState scan => scan.abandonedCount
  | .storeAbandoned scan => scan.abandonedCount
  | .flushAbandoned scan => scan.abandonedCount + 1
  | .loadTerm scan => scan.abandonedCount
  | .loadIndex scan _ => scan.abandonedCount
  | .readDataLen scan _ _ => scan.abandonedCount
  | .loadChecksum scan _ _ _ => scan.abandonedCount
  | .readPayload scan _ _ _ _ => scan.abandonedCount
  | .sweep scan _ => scan.abandonedCount

/-- What a recover call has counted so far. -/
def RuntimeRecoverPoint.marked : RuntimeRecoverPoint → ℕ
  | .recovery point => point.marked
  | .countRuns report => report.abandonedCount
  | .countAbandoned report => report.abandonedCount

/-- What a call has counted so far as marked abandoned. -/
def Call.marked : Call → ℕ
  | .trim _ task => task.fold TrimPoint.marked trimOutcomeCount
  | .recover _ task => task.fold RuntimeRecoverPoint.marked RecoveryReport.abandonedCount
  | _ => 0

theorem TrimPoint.head_marked (upTo slot trimmedCount : ℕ) :
    (TrimPoint.head upTo slot trimmedCount).fold TrimPoint.marked trimOutcomeCount =
      trimmedCount := by
  unfold TrimPoint.head
  split_ifs <;> rfl

/-- A step of a trim counts what it marks. -/
theorem Compaction.trim_marked (upTo : UInt64) (point : TrimPoint) :
    ((Compaction.trim g upTo.toNat point).exec memory).1.fold TrimPoint.marked trimOutcomeCount =
      point.marked + (Call.trim upTo (.running point)).abandoning.elim 0 fun _ ↦ 1 := by
  cases point with
  | loadTail =>
    simp only [Compaction.trim, BackendCall.exec]
    split_ifs
    · rfl
    · exact TrimPoint.head_marked _ _ _
  | loadState slot trimmedCount =>
    simp only [Compaction.trim, BackendCall.exec]
    split_ifs
    · rfl
    · exact TrimPoint.head_marked _ _ _
  | storeAbandoned slot trimmedCount => rfl
  | flushAbandoned slot trimmedCount => exact TrimPoint.head_marked _ _ _

theorem Scan.head_marked (scan : Scan) :
    scan.head.fold RecoverPoint.marked RecoveryReport.abandonedCount = scan.abandonedCount := by
  unfold Scan.head
  split_ifs <;> rfl

theorem Scan.check_marked (scan : Scan) (term index : ℕ) (payload : List UInt8)
    (storedChecksum : ℕ) :
    (scan.check hasher term index payload storedChecksum).fold RecoverPoint.marked
      RecoveryReport.abandonedCount = scan.abandonedCount := by
  unfold Scan.check Scan.next
  split_ifs
  · exact Scan.head_marked _
  · rfl

/-- A step of a recovery counts what it marks. -/
theorem Recovery.recover_marked (hostId : UInt16) (point : RecoverPoint) :
    ((Recovery.recover g hasher point).exec memory).1.fold RecoverPoint.marked
        RecoveryReport.abandonedCount =
      point.marked + (Call.recover hostId (.running (.recovery point))).abandoning.elim 0
        fun _ ↦ 1 := by
  cases point with
  | loadReserveTail => exact Scan.head_marked _
  | loadState scan =>
    simp only [Recovery.recover, BackendCall.exec, Scan.next]
    split_ifs
    · rfl
    · rfl
    · exact Scan.head_marked _
    · rfl
  | storeAbandoned scan => rfl
  | flushAbandoned scan => exact Scan.head_marked _
  | loadChecksum scan term index dataLen =>
    simp only [Recovery.recover, BackendCall.exec]
    split_ifs
    · rfl
    · exact Scan.check_marked _ _ _ _ _
  | readPayload scan term index payloadLen storedChecksum => exact Scan.check_marked _ _ _ _ _
  | sweep scan point =>
    simp only [Recovery.recover, BackendCall.exec_map]
    cases ((Recovery.advanceCommittedTail g point).exec memory).1 <;> rfl
  | _ => rfl

/-- A step of a call counts what it marks. -/
theorem Call.marked_step (call : Call) (memory : Memory) :
    (call.step g hasher memory).1.marked =
      call.marked + call.abandoning.elim 0 fun _ ↦ 1 := by
  match call with
  | .append entry (.running point) =>
    rw [Call.step_append]
    rfl
  | .read hostId index (.running point) =>
    rw [Call.step_read]
    rfl
  | .append _ (.returned _) => rfl
  | .read _ _ (.returned _) => rfl
  | .trim _ (.returned _) => rfl
  | .recover _ (.returned _) => rfl
  | .trim upTo (.running point) =>
    rw [Call.step_trim]
    exact Compaction.trim_marked upTo point
  | .recover hostId (.running (.recovery point)) =>
    have hmarked := @Recovery.recover_marked g hasher memory hostId point
    rw [Call.step_recover]
    simp only [FenceRuntime.recover, BackendCall.exec_map]
    cases htask : ((Recovery.recover g hasher point).exec memory).1 <;>
      rw [htask] at hmarked <;> exact hmarked
  | .recover hostId (.running (.countRuns report)) =>
    rw [Call.step_recover]
    simp only [FenceRuntime.recover, exec_incrementCounter_fst, Metrics.incrementRecoveryRuns]
    split_ifs <;> rfl
  | .recover hostId (.running (.countAbandoned report)) => rfl

/-! ### State bytes -/

section Exec

variable {Next : Type} {call : BackendCall Next}

/-- A call that stores outside a state byte leaves it alone. -/
theorem stateByte_exec_of_outside {slot : ℕ}
    (houtside : call.isStore = true → g.recordOffset slot + recState < call.offset ∨
      call.offset + call.length ≤ g.recordOffset slot + recState) :
    stateByte g (call.exec memory).2 slot = stateByte g memory slot :=
  BackendCall.exec_apply_of_store_outside houtside

/-- A store of the abandoned state changes the state of its slot only. -/
theorem stateByte_exec_storeAbandoned {next : Next} (slot held : ℕ) :
    stateByte g ((BackendCall.storeU8 (g.recordOffset held + recState) stateAbandoned next).exec
        memory).2 slot =
      if held = slot then stateAbandoned else stateByte g memory slot := by
  split_ifs with hsame
  · subst hsame
    exact store_one_self _ _ _
  · refine stateByte_exec_of_outside fun _ ↦ ?_
    have hne := recordOffset_ne (g := g) (Ne.symm hsame)
    simp only [BackendCall.offset, BackendCall.length]
    omega

end Exec

/-- A sweep leaves the states alone. -/
theorem Recovery.advanceCommittedTail_stateByte (point : SweepPoint) (slot : ℕ) :
    stateByte g ((Recovery.advanceCommittedTail g point).exec memory).2 slot =
      stateByte g memory slot := by
  refine stateByte_exec_of_outside fun hstore ↦ Or.inr ?_
  have hheader := g.headerSize_le_recordOffset slot
  have hcommitted : hdrCommittedTail + 8 ≤ headerSize := by decide
  cases point with
  | compareExchange currentTail newTail =>
    simp only [Recovery.advanceCommittedTail, BackendCall.offset, BackendCall.length]
    omega
  | _ => cases hstore

/-- A counter lies behind the states. -/
theorem incrementCounter_stateByte {Next : Type} {next : Next} {field : ℕ} {hostId : UInt16} {n : ℕ}
    {slot : ℕ} (hslot : slot < g.capacity) :
    stateByte g ((Metrics.incrementCounter g field hostId n next).exec memory).2 slot =
      stateByte g memory slot := by
  refine stateByte_exec_of_outside fun _ ↦ Or.inl ?_
  have hmetrics := PoolGeometry.recordOffset_add_le_metricsOffset hslot hostId.toNat
  have hrecord : recState < recordMetaSize := by decide
  have hmeta : recordMetaSize ≤ g.recordSize := PoolGeometry.recordMetaSize_le
  simp only [Metrics.incrementCounter, BackendCall.offset]
  omega

/-! ### Trims and recoveries -/

variable (g) in
/-- The slots of a recover call are those of the pool. -/
def RuntimeRecoverPoint.Bounded : RuntimeRecoverPoint → Prop
  | .recovery point => point.Bounded g
  | .countRuns _ => True
  | .countAbandoned _ => True

variable (g) in
/-- The call is a trim or a recovery, and its slots are those of the pool. -/
def Call.Marks : Call → Prop
  | .trim upTo task => task.Holds (·.Bounded g upTo.toNat)
  | .recover _ task => task.Holds (·.Bounded g)
  | _ => False

theorem Call.Marks.step {call : Call} (hmarks : call.Marks g) (htail : TailWithin g memory) :
    (call.step g hasher memory).1.Marks g := by
  match call with
  | .trim _ (.returned _) => trivial
  | .recover _ (.returned _) => trivial
  | .trim upTo (.running point) =>
    rw [Call.step_trim]
    exact Compaction.trim_bounded htail hmarks
  | .recover hostId (.running (.recovery point)) =>
    have hnext : ((Recovery.recover g hasher point).exec memory).1.Holds (·.Bounded g) :=
      Recovery.recover_bounded htail hmarks
    rw [Call.step_recover]
    simp only [FenceRuntime.recover, BackendCall.exec_map]
    cases htask : ((Recovery.recover g hasher point).exec memory).1 with
    | running next =>
      rw [htask] at hnext
      exact hnext
    | returned report => trivial
  | .recover hostId (.running (.countRuns report)) =>
    rw [Call.step_recover]
    simp only [FenceRuntime.recover, exec_incrementCounter_fst, Metrics.incrementRecoveryRuns]
    split_ifs <;> trivial
  | .recover hostId (.running (.countAbandoned report)) => trivial

/-- The slot that is marked is one of the pool. -/
theorem Call.Marks.lt_capacity {call : Call} (hmarks : call.Marks g) {slot : ℕ}
    (hslot : call.abandoning = some slot) : slot < g.capacity := by
  match call, hslot with
  | .trim upTo (.running (.storeAbandoned held count)), hslot =>
    obtain rfl := Option.some.inj hslot
    exact hmarks.1
  | .recover hostId (.running (.recovery (.storeAbandoned scan))), hslot =>
    obtain rfl := Option.some.inj hslot
    exact hmarks.2

/-- A step of a trim or of a recovery changes the state it marks, and no other. -/
theorem Call.Marks.stateByte_step {call : Call} (hmarks : call.Marks g) {slot : ℕ}
    (hslot : slot < g.capacity) :
    stateByte g (call.step g hasher memory).2 slot =
      if call.abandoning = some slot then stateAbandoned else stateByte g memory slot := by
  match call with
  | .trim _ (.returned _) => rfl
  | .recover _ (.returned _) => rfl
  | .trim upTo (.running point) =>
    rw [Call.step_trim]
    cases point with
    | storeAbandoned held count =>
      simp only [Call.abandoning, Option.some.injEq]
      exact stateByte_exec_storeAbandoned slot held
    | _ => rfl
  | .recover hostId (.running (.recovery point)) =>
    rw [Call.step_recover]
    simp only [FenceRuntime.recover, BackendCall.exec_map]
    cases point with
    | storeAbandoned scan =>
      simp only [Call.abandoning, Option.some.injEq]
      exact stateByte_exec_storeAbandoned slot scan.slot
    | sweep scan point =>
      simp only [Recovery.recover, BackendCall.exec_map]
      exact Recovery.advanceCommittedTail_stateByte point slot
    | _ => rfl
  | .recover hostId (.running (.countRuns report)) =>
    rw [Call.step_recover]
    exact incrementCounter_stateByte hslot
  | .recover hostId (.running (.countAbandoned report)) =>
    rw [Call.step_recover]
    exact incrementCounter_stateByte hslot

/-! ### Changed slots -/

variable (g) in
/-- The number of slots whose state is not that of the start. -/
def changedSlots (start memory : Memory) : ℕ :=
  Nat.count (fun slot ↦ stateByte g memory slot ≠ stateByte g start slot) g.capacity

/-- What comes to hold of one more number is counted once more. -/
theorem count_eq_count_add_one {first second : ℕ → Prop} [DecidablePred first]
    [DecidablePred second] {slot bound : ℕ} (hslot : slot < bound) (hfirst : ¬ first slot)
    (hsecond : second slot)
    (hothers : ∀ other < bound, other ≠ slot → (second other ↔ first other)) :
    Nat.count second bound = Nat.count first bound + 1 := by
  have hinsert : (Finset.range bound).filter second =
      insert slot ((Finset.range bound).filter first) := by
    ext other
    by_cases hsame : other = slot
    · subst hsame
      simp [hslot, hsecond]
    · simp only [Finset.mem_filter, Finset.mem_range, Finset.mem_insert, hsame, false_or]
      exact and_congr_right fun hother ↦ hothers other hother hsame
  rw [Nat.count_eq_card_filter_range, Nat.count_eq_card_filter_range, hinsert,
    Finset.card_insert_of_notMem (by simp [hfirst])]

theorem changedSlots_self (start : Memory) : changedSlots g start start = 0 := by
  simp [changedSlots, Nat.count_eq_card_filter_range]

theorem changedSlots_congr {start later : Memory}
    (hsame : ∀ slot < g.capacity, stateByte g later slot = stateByte g memory slot) :
    changedSlots g start later = changedSlots g start memory := by
  rw [changedSlots, changedSlots, Nat.count_eq_card_filter_range, Nat.count_eq_card_filter_range]
  refine congrArg Finset.card (Finset.filter_congr fun slot hslot ↦ ?_)
  rw [hsame slot (Finset.mem_range.mp hslot)]

/-- What the next step of a call marks again. -/
def Call.remarks (g : PoolGeometry) (call : Call) (memory : Memory) : ℕ :=
  call.abandoning.elim 0 fun slot ↦ if stateByte g memory slot = stateAbandoned then 1 else 0

/-- A step changes a state or marks one again, if it marks any. -/
theorem Call.Marks.changedSlots_step {call : Call} (hmarks : call.Marks g) {start : Memory}
    (hstates : ∀ slot < g.capacity, stateByte g memory slot = stateByte g start slot ∨
      stateByte g memory slot = stateAbandoned) :
    changedSlots g start (call.step g hasher memory).2 + call.remarks g memory =
      changedSlots g start memory + call.abandoning.elim 0 fun _ ↦ 1 := by
  have hstep : ∀ slot < g.capacity, stateByte g (call.step g hasher memory).2 slot = _ :=
    fun slot hslot ↦ hmarks.stateByte_step hslot
  rw [Call.remarks]
  cases hslot : call.abandoning with
  | none =>
    refine changedSlots_congr fun other hother ↦ ?_
    rw [hstep other hother, hslot, if_neg (by simp)]
  | some slot =>
    have hbound := hmarks.lt_capacity hslot
    rw [Option.elim_some, Option.elim_some]
    by_cases hmarked : stateByte g memory slot = stateAbandoned
    · rw [if_pos hmarked]
      refine congrArg (· + 1) (changedSlots_congr fun other hother ↦ ?_)
      rw [hstep other hother, hslot]
      split_ifs with hsame
      · rw [← Option.some.inj hsame, hmarked]
      · rfl
    · rw [if_neg hmarked, Nat.add_zero]
      have hstart := (hstates slot hbound).resolve_right hmarked
      refine count_eq_count_add_one hbound (not_not.mpr hstart) ?_ fun other hroom hother ↦ ?_
      · rw [hstep slot hbound, if_pos hslot, ← hstart]
        exact Ne.symm hmarked
      · rw [hstep other hroom, if_neg (by simpa [hslot] using Ne.symm hother)]

/-! ### Runs -/

/-- The action starts nothing but trims and recoveries. -/
def TrimsOrRecovers : Action Request Empty → Prop
  | .start (.trim _) => True
  | .start (.recover _) => True
  | .start _ => False
  | .step _ => True
  | .env event => event.elim

variable (g) in
/-- Trims and recoveries keep to the pool, and mark slots abandoned only. -/
structure Marking (start : Memory) (config : Config Call Memory) : Prop where
  rises : TailRises g Call.sweepPoint config
  calls : ∀ call ∈ config.threads, call.Marks g
  states : ∀ slot < g.capacity, stateByte g config.shared slot = stateByte g start slot ∨
    stateByte g config.shared slot = stateAbandoned

theorem Marking.apply {start : Memory} {config : Config Call Memory}
    (hmarking : Marking g start config) {action : Action Request Empty}
    (haction : TrimsOrRecovers action) :
    Marking g start ((runtimeMachine g hasher).apply config action) where
  rises := hmarking.rises.apply runtimeMachine_sweeps action
  calls := by
    cases action with
    | env event => exact event.elim
    | start request =>
      intro call hmem
      rcases List.mem_append.mp hmem with hold | hnew
      · exact hmarking.calls call hold
      · rw [List.mem_singleton.mp hnew]
        cases request with
        | trim upTo => trivial
        | recover hostId => trivial
        | _ => exact haction.elim
    | step index =>
      cases hcall : config.threads[index]? with
      | none => exact (apply_step_of_none _ hcall).symm ▸ hmarking.calls
      | some call =>
        rw [apply_step_of_getElem? _ hcall]
        exact forall_mem_set (·.Marks g) hcall
          ((hmarking.calls call (List.mem_of_getElem? hcall)).step hmarking.rises.tail)
          fun _ other _ hother ↦ hmarking.calls other (List.mem_of_getElem? hother)
  states := by
    cases action with
    | env event => exact event.elim
    | start request => exact hmarking.states
    | step index =>
      cases hcall : config.threads[index]? with
      | none => exact (apply_step_of_none _ hcall).symm ▸ hmarking.states
      | some call =>
        rw [apply_step_of_getElem? _ hcall]
        intro slot hslot
        have hstep : stateByte g (call.step g hasher config.shared).2 slot = _ :=
          (hmarking.calls call (List.mem_of_getElem? hcall)).stateByte_step hslot
        by_cases hmarked : call.abandoning = some slot
        · exact Or.inr (hstep.trans (if_pos hmarked))
        · have hsame := hstep.trans (if_neg hmarked)
          exact (hmarking.states slot hslot).imp hsame.trans hsame.trans

/-- All that trims and recoveries have counted is the slots they changed, and those they marked
again. -/
theorem totalWeight_marked_run {start : Memory}
    (htail : loadWord start hdrCommittedTail 8 ≤ g.capacity)
    {schedule : List (Action Request Empty)}
    (hcalls : ∀ action ∈ schedule, TrimsOrRecovers action) :
    let config := (runtimeMachine g hasher).run schedule ⟨start, []⟩
    totalWeight Call.marked config.threads = changedSlots g start config.shared +
      (runtimeMachine g hasher).spilled (Call.remarks g) schedule ⟨start, []⟩ := by
  have hinit : Marking g start (⟨start, []⟩ : Config Call Memory) :=
    { rises := ⟨htail, fun call hmem ↦ by cases hmem⟩
      calls := fun call hmem ↦ by cases hmem
      states := fun slot _ ↦ Or.inl rfl }
  have htally := @tally_run _ _ _ _ (runtimeMachine g hasher)
    (fun _ action ↦ TrimsOrRecovers action) 0
    (changedSlots g start) Call.marked (Call.remarks g) (Marking g start)
    (fun config action hmarking haction ↦ hmarking.apply haction) ?_ (fun event ↦ event.elim) ?_
    schedule ⟨start, []⟩ (along_of_forall_mem TrimsOrRecovers hcalls _) hinit
  · have hnone : totalWeight Call.marked (⟨start, []⟩ : Config Call Memory).threads = 0 := rfl
    rw [hnone, Nat.mod_zero, Nat.mod_zero, changedSlots_self] at htally
    omega
  · intro request
    cases request with
    | append entry => rfl
    | read hostId index => rfl
    | trim upTo => rfl
    | recover hostId => rfl
  · intro config index call hmarking _ hcall
    have hmarks := hmarking.calls call (List.mem_of_getElem? hcall)
    refine ⟨_, Call.marked_step call config.shared, ?_⟩
    exact congrArg (· % 0) (hmarks.changedSlots_step hmarking.states)

end Fence
