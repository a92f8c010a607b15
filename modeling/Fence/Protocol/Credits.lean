import Fence.Library.Tally
import Fence.Protocol.Bounds
import Fence.Protocol.Represents
import Fence.Protocol.Statistics
import Fence.Protocol.TailRuns

/-!
# What calls in flight have counted

`Call.credits` is what a call has added to the counters so far, in flight or returned, and
`Call.increments` what its next step adds. A step of a call within the pool touches no other counter
(`Call.step_counted`), so the totals of the counters are what all calls have been credited with, in
every interleaving (`total_run`).
-/

set_option autoImplicit false
set_option relaxedAutoImplicit false

namespace Fence

open ByteMemory Interleaving

variable {g : PoolGeometry} {hasher : Hasher} {memory : Memory}

/-! ### Credits -/

/-- What the next step of a call adds to the counters. -/
def Call.increments : Call → List Increment
  | .append entry (.running (.countFailed _)) => [⟨entry.hostId, metricsAppendsFailed, 1⟩]
  | .append entry (.running (.countAppends _)) => [⟨entry.hostId, metricsAppendsTotal, 1⟩]
  | .append entry (.running (.countBytes _)) =>
    [⟨entry.hostId, metricsBytesWritten, entry.data.length⟩]
  | .read hostId _ (.running .countMismatch) => [⟨hostId, metricsChecksumFailures, 1⟩]
  | .read hostId _ (.running (.countRead _)) => [⟨hostId, metricsReadsTotal, 1⟩]
  | .recover hostId (.running (.countRuns _)) => [⟨hostId, metricsRecoveryRuns, 1⟩]
  | .recover hostId (.running (.countAbandoned report)) =>
    [⟨hostId, metricsAbandonedFound, report.abandonedCount⟩]
  | _ => []

/-- What a call has added to the counters so far. -/
def Call.credits : Call → List Increment
  | .append entry (.running (.countBytes _)) => [⟨entry.hostId, metricsAppendsTotal, 1⟩]
  | .recover hostId (.running (.countAbandoned _)) => [⟨hostId, metricsRecoveryRuns, 1⟩]
  | call => (call.answer.map call.request.increments).getD []

/-- How much increments add to a field. -/
def amountOf (field : ℕ) (increments : List Increment) : ℕ :=
  (increments.map fun increment ↦ if increment.field = field then increment.amount else 0).sum

/-- How much a call has added to a field so far. -/
def Call.credit (field : ℕ) (call : Call) : ℕ := amountOf field call.credits

theorem amountOf_append (field : ℕ) (first second : List Increment) :
    amountOf field (first ++ second) = amountOf field first + amountOf field second := by
  rw [amountOf, List.map_append, List.sum_append, amountOf, amountOf]

theorem amountOf_report (field : ℕ) (hostId : UInt16) (report : RecoveryReport) :
    amountOf field (report.increments hostId) = amountOf field [⟨hostId, metricsRecoveryRuns, 1⟩] +
      amountOf field [⟨hostId, metricsAbandonedFound, report.abandonedCount⟩] := by
  rw [RecoveryReport.increments]
  split_ifs with hsome
  · simp [amountOf]
  · have hnone : report.abandonedCount = 0 := by omega
    simp [amountOf, hnone]

/-- A step adds to the credit of a call what it adds to the counters. -/
theorem Call.credit_step (field : ℕ) (call : Call) (memory : Memory) :
    (call.step g hasher memory).1.credit field =
      call.credit field + amountOf field call.increments := by
  match call with
  | .append entry (.returned outcome) => rfl
  | .read hostId index (.returned outcome) => rfl
  | .trim upTo (.returned outcome) => rfl
  | .recover hostId (.returned report) => rfl
  | .append entry (.running point) =>
    rw [Call.step_append]
    cases point with
    | reserve =>
      simp only [FenceRuntime.append, BackendCall.exec]
      split_ifs <;> rfl
    | writeDataLen slot =>
      simp only [FenceRuntime.append, BackendCall.exec]
      split_ifs <;> rfl
    | sweep slot point =>
      simp only [FenceRuntime.append, BackendCall.exec_map]
      cases ((Recovery.advanceCommittedTail g point).exec memory).1 <;> rfl
    | countFailed slot => exact (Nat.zero_add _).symm
    | countAppends slot => exact (Nat.zero_add _).symm
    | countBytes slot =>
      exact amountOf_append field [⟨entry.hostId, metricsAppendsTotal, 1⟩]
        [⟨entry.hostId, metricsBytesWritten, entry.data.length⟩]
    | _ => rfl
  | .read hostId index (.running point) =>
    rw [Call.step_read]
    cases point with
    | loadTail =>
      simp only [FenceRuntime.read, BackendCall.exec]
      split_ifs <;> rfl
    | loadState slot =>
      simp only [FenceRuntime.read, BackendCall.exec]
      split_ifs <;> rfl
    | loadChecksum slot term storedIndex writerId dataLen =>
      simp only [FenceRuntime.read, BackendCall.exec, checkRead]
      split_ifs <;> rfl
    | readPayload slot term storedIndex writerId payloadLen storedChecksum =>
      simp only [FenceRuntime.read, BackendCall.exec, checkRead]
      split_ifs <;> rfl
    | countMismatch => exact (Nat.zero_add _).symm
    | countRead record => exact (Nat.zero_add _).symm
    | _ => rfl
  | .trim upTo (.running point) =>
    rw [Call.step_trim]
    cases ((Compaction.trim g upTo.toNat point).exec memory).1 <;> rfl
  | .recover hostId (.running point) =>
    rw [Call.step_recover]
    cases point with
    | recovery point =>
      simp only [FenceRuntime.recover, BackendCall.exec_map]
      cases ((Recovery.recover g hasher point).exec memory).1 <;> rfl
    | countRuns report =>
      simp only [FenceRuntime.recover, exec_incrementCounter_fst, Metrics.incrementRecoveryRuns]
      split_ifs with hsome
      · exact (Nat.zero_add _).symm
      · have hruns : report.increments hostId = [⟨hostId, metricsRecoveryRuns, 1⟩] := by
          rw [RecoveryReport.increments, if_neg hsome]
        exact (congrArg (amountOf field) hruns).trans (Nat.zero_add _).symm
    | countAbandoned report => exact amountOf_report _ _ _

/-! ### Steps and counters -/

/-- A call that stores before the blocks of the hosts only. -/
def BackendCall.Spares {Next : Type} (g : PoolGeometry) (call : BackendCall Next) : Prop :=
  call.isStore = true → call.offset + call.length ≤ g.metricsOffset 0

section Spares

variable {Next Other : Type} {call : BackendCall Next}

theorem BackendCall.Spares.map (hspares : call.Spares g) (f : Next → Other) :
    (call.map f).Spares g := by
  simpa [BackendCall.Spares] using hspares

/-- Such a call leaves the counters alone. -/
theorem BackendCall.Spares.counted (hspares : call.Spares g) (memory : Memory) :
    Counted g [] memory (call.exec memory).2 := by
  intro hostId field _
  refine loadWord_congr (load_congr fun i hi ↦ ?_)
  refine BackendCall.exec_apply_of_store_outside fun hstore ↦ Or.inr ((hspares hstore).trans ?_)
  unfold PoolGeometry.metricsOffset
  omega

theorem BackendCall.Spares.of_header {offset : ℕ} (hoffset : call.offset = offset)
    (hlength : call.length = 8) (hfits : offset + 8 ≤ headerSize) : call.Spares g := by
  intro _
  have hmetrics := headerSize_le_metricsOffset (g := g) 0
  omega

theorem BackendCall.Spares.of_record {slot field : ℕ} (hslot : slot < g.capacity)
    (hoffset : call.offset = g.recordOffset slot + field)
    (hfits : field + call.length ≤ g.recordSize) : call.Spares g := by
  intro _
  have hmetrics := PoolGeometry.recordOffset_add_le_metricsOffset hslot 0
  omega

theorem BackendCall.Spares.of_meta {slot field length : ℕ} (hslot : slot < g.capacity)
    (hoffset : call.offset = g.recordOffset slot + field) (hlength : call.length = length)
    (hfits : field + length ≤ recordMetaSize) : call.Spares g :=
  .of_record hslot hoffset (hlength ▸ hfits.trans PoolGeometry.recordMetaSize_le)

theorem BackendCall.Spares.of_load (hload : call.isStore = false) : call.Spares g := by
  intro hstore
  rw [hload] at hstore
  cases hstore

end Spares

theorem Recovery.advanceCommittedTail_spares (point : SweepPoint) :
    (Recovery.advanceCommittedTail g point).Spares g := by
  cases point with
  | compareExchange currentTail newTail =>
    exact .of_header (rfl : _ = hdrCommittedTail) rfl (by decide)
  | _ => exact .of_load rfl

/-- An append that is not counting spares the counters. -/
theorem FenceRuntime.append_spares {entry : Entry} (hsize : entry.data.length ≤ g.payloadSize)
    {point : AppendPoint} (hpoint : point.Bounded g)
    (hnone : (Call.append entry (.running point)).increments = []) :
    (FenceRuntime.append g hasher entry point).Spares g := by
  have hpayload : recordMetaSize + entry.data.length ≤ g.recordSize :=
    g.recordSize_eq ▸ Nat.add_le_add_left hsize _
  cases point with
  | reserve => exact .of_header (rfl : _ = hdrReserveTail) rfl (by decide)
  | undo slot => exact .of_header (rfl : _ = hdrReserveTail) rfl (by decide)
  | storeWriting slot =>
    exact .of_meta hpoint (congrArg (· + recState) (appendOffset_of_lt hpoint))
      (rfl : _ = 1) (by decide)
  | storeTerm slot =>
    exact .of_meta hpoint (congrArg (· + recTerm) (appendOffset_of_lt hpoint))
      (rfl : _ = 8) (by decide)
  | storeIndex slot =>
    exact .of_meta hpoint (congrArg (· + recIndex) (appendOffset_of_lt hpoint))
      (rfl : _ = 8) (by decide)
  | storeWriterId slot =>
    exact .of_meta hpoint (congrArg (· + recWriterId) (appendOffset_of_lt hpoint))
      (rfl : _ = 8) (by decide)
  | writeDataLen slot =>
    exact .of_meta hpoint (congrArg (· + recDataLen) (appendOffset_of_lt hpoint))
      (length_leBytes 4 _) (by decide)
  | writePayload slot =>
    exact .of_record hpoint (congrArg (· + recordMetaSize) (appendOffset_of_lt hpoint)) hpayload
  | storeChecksum slot =>
    exact .of_meta hpoint (congrArg (· + recChecksum) (appendOffset_of_lt hpoint))
      (rfl : _ = 8) (by decide)
  | storeCommitted slot =>
    exact .of_meta hpoint (congrArg (· + recState) (appendOffset_of_lt hpoint))
      (rfl : _ = 1) (by decide)
  | flushRecord slot => exact .of_load rfl
  | flushState slot => exact .of_load rfl
  | sweep slot point =>
    simp only [FenceRuntime.append]
    exact (Recovery.advanceCommittedTail_spares point).map _
  | countFailed slot => cases hnone
  | countAppends slot => cases hnone
  | countBytes slot => cases hnone

/-- A step of an append moves on the counters it is at. -/
theorem FenceRuntime.append_counted {entry : Entry} (hsize : entry.data.length ≤ g.payloadSize)
    {point : AppendPoint} (hpoint : point.Bounded g) (memory : Memory) :
    Counted g (Call.append entry (.running point)).increments memory
      ((FenceRuntime.append g hasher entry point).exec memory).2 := by
  cases point with
  | countFailed slot => exact .increment 1 (by decide)
  | countAppends slot => exact .increment 1 (by decide)
  | countBytes slot => exact .increment _ (by decide)
  | _ => exact (FenceRuntime.append_spares hsize hpoint rfl).counted memory

/-- A step of a read moves on the counters it is at. -/
theorem FenceRuntime.read_counted (hostId : UInt16) (index : UInt64) (point : ReadPoint)
    (memory : Memory) :
    Counted g (Call.read hostId index (.running point)).increments memory
      ((FenceRuntime.read g hasher hostId index.toNat point).exec memory).2 := by
  cases point with
  | countMismatch => exact .increment 1 (by decide)
  | countRead record => exact .increment 1 (by decide)
  | _ => exact .refl memory

theorem Compaction.trim_spares {upTo : ℕ} {point : TrimPoint} (hpoint : point.Bounded g upTo) :
    (Compaction.trim g upTo point).Spares g := by
  cases point with
  | storeAbandoned slot trimmedCount =>
    exact .of_meta hpoint.1 (rfl : _ = _ + recState) (rfl : _ = 1) (by decide)
  | _ => exact .of_load rfl

theorem Recovery.recover_spares {point : RecoverPoint} (hpoint : point.Bounded g) :
    (Recovery.recover g hasher point).Spares g := by
  cases point with
  | storeAbandoned scan =>
    exact .of_meta hpoint.2 (rfl : _ = _ + recState) (rfl : _ = 1) (by decide)
  | sweep scan point =>
    simp only [Recovery.recover]
    exact (Recovery.advanceCommittedTail_spares point).map _
  | _ => exact .of_load rfl

/-- A step of a call within the pool adds to the counters what its point says. -/
theorem Call.step_counted {call : Call} (hcall : call.Bounded g) (memory : Memory) :
    Counted g call.increments memory (call.step g hasher memory).2 := by
  rcases call with ⟨entry, point | outcome⟩ | ⟨hostId, index, point | outcome⟩ |
    ⟨upTo, point | outcome⟩ | ⟨hostId, point | report⟩
  · rw [Call.step_append]
    exact FenceRuntime.append_counted hcall.2.1 hcall.2.2 memory
  · exact .refl memory
  · rw [Call.step_read]
    exact FenceRuntime.read_counted hostId index point memory
  · exact .refl memory
  · rw [Call.step_trim]
    exact (Compaction.trim_spares hcall).counted memory
  · exact .refl memory
  · rw [Call.step_recover]
    cases point with
    | recovery point =>
      simp only [FenceRuntime.recover]
      exact ((Recovery.recover_spares hcall.2).map _).counted memory
    | countRuns report => exact .increment 1 (by decide)
    | countAbandoned report => exact .increment _ (by decide)
  · exact .refl memory

/-- The increments of a call are those of a host of the pool. -/
theorem Call.host_lt_of_mem_increments {call : Call} (hcall : call.Bounded g)
    {increment : Increment}
    (hmem : increment ∈ call.increments) : increment.hostId.toNat < g.maxHosts := by
  rcases call with ⟨entry, point | outcome⟩ | ⟨hostId, index, point | outcome⟩ |
    ⟨upTo, point | outcome⟩ | ⟨hostId, point | report⟩
  · cases point <;> simp_all [Call.increments, Call.Bounded]
  · cases hmem
  · cases point <;> simp_all [Call.increments, Call.Bounded]
  · cases hmem
  · cases hmem
  · cases hmem
  · cases point <;> simp_all [Call.increments, Call.Bounded]
  · cases hmem

/-! ### Totals -/

theorem bumpTotal_of_host_lt {totals : ℕ → ℕ} {increment : Increment}
    (hhost : increment.hostId.toNat < g.maxHosts) {field : ℕ} (hlt : totals field < 2 ^ 64) :
    bumpTotal g.maxHosts totals increment field =
      (totals field + amountOf field [increment]) % 2 ^ 64 := by
  unfold bumpTotal amountOf
  by_cases hfield : field = increment.field
  · simp [hhost, hfield]
  · simpa [hfield, Ne.symm hfield] using (Nat.mod_eq_of_lt hlt).symm

/-- The totals move on by what hosts of the pool add. -/
theorem Counted.total_eq_add {increments : List Increment} {later : Memory}
    (hcounted : Counted g increments memory later)
    (hhosts : ∀ increment ∈ increments, increment.hostId.toNat < g.maxHosts) {field : ℕ}
    (hfield : field ∈ metricsFields) :
    total g.maxHosts (counter g later) field =
      (total g.maxHosts (counter g memory) field + amountOf field increments) % 2 ^ 64 := by
  rw [hcounted.total_eq hfield]
  have hlt : total g.maxHosts (counter g memory) field < 2 ^ 64 := Nat.mod_lt _ (by decide)
  generalize total g.maxHosts (counter g memory) = totals at hlt
  clear hcounted
  induction increments generalizing totals with
  | nil => exact (Nat.mod_eq_of_lt hlt).symm
  | cons increment rest ih =>
    have hfirst := bumpTotal_of_host_lt (hhosts increment List.mem_cons_self) hlt
    have hsplit : amountOf field (increment :: rest) =
        amountOf field [increment] + amountOf field rest := amountOf_append field [increment] rest
    rw [List.foldl_cons, ih (fun other hmem ↦ hhosts other (List.mem_cons_of_mem _ hmem)) _
      (hfirst ▸ Nat.mod_lt _ (by decide)), hfirst, hsplit, Nat.mod_add_mod, Nat.add_assoc]

/-- The counters of a pool just created are zero. -/
theorem total_freshMemory {field : ℕ} (hfield : field ∈ metricsFields) :
    total g.maxHosts (counter g (freshMemory g)) field = 0 := by
  have hzero : ∀ hostId held, counter g (fun _ ↦ 0) hostId held = 0 := fun hostId held ↦ by
    simp [counter, loadWord, load, leValue]
  rw [freshMemory, (Counted.createHeader _).total_eq hfield]
  simp [total, sumOf, hzero]

/-! ### Runs -/

variable (g) in
/-- The tail lies within the pool, and every call keeps to it. -/
structure KeepsToPool (config : Config Call Memory) : Prop where
  tail : TailWithin g config.shared
  calls : ∀ call ∈ config.threads, call.Bounded g

variable (g) in
/-- A request of a host of the pool, if the action starts one. -/
def OfHost (action : Action Request Empty) : Prop :=
  ∀ request hostId, action = .start request → request.host = some hostId →
    hostId.toNat < g.maxHosts

theorem KeepsToPool.apply {config : Config Call Memory} (hkeeps : KeepsToPool g config)
    {action : Action Request Empty} (hhost : OfHost g action) :
    KeepsToPool g ((runtimeMachine g hasher).apply config action) := by
  cases action with
  | env event => exact event.elim
  | start request =>
    refine ⟨hkeeps.tail, fun call hmem ↦ ?_⟩
    rcases List.mem_append.mp hmem with hold | hnew
    · exact hkeeps.calls call hold
    · rw [List.mem_singleton.mp hnew]
      exact Request.call_bounded fun hostId hsome ↦ hhost request hostId rfl hsome
  | step index =>
    cases hcall : config.threads[index]? with
    | none => rwa [apply_step_of_none _ hcall]
    | some call =>
      have hbounded := hkeeps.calls call (List.mem_of_getElem? hcall)
      rw [apply_step_of_getElem? _ hcall]
      refine ⟨Call.step_tail hkeeps.tail hbounded, ?_⟩
      exact forall_mem_set (·.Bounded g) hcall (Call.step_bounded hkeeps.tail hbounded)
        fun _ other _ hother ↦ hkeeps.calls other (List.mem_of_getElem? hother)

theorem KeepsToPool.fresh : KeepsToPool g (freshConfig g) where
  tail := (@TailRises.fresh g Call Call.sweepPoint).tail
  calls := fun call hmem ↦ by cases hmem

theorem Request.credit_call {field : ℕ} (request : Request) :
    (request.call g).credit field = 0 := by
  cases request with
  | append entry =>
    rw [Request.call, startAppend]
    split_ifs <;> rfl
  | read hostId index =>
    rw [Request.call, startRead]
    split_ifs <;> rfl
  | _ => rfl

/-- The totals of the counters are what the calls of a run have been credited with. -/
theorem total_run {schedule : List (Action Request Empty)}
    (hhosts : ∀ action ∈ schedule, OfHost g action) {field : ℕ} (hfield : field ∈ metricsFields) :
    total g.maxHosts
        (counter g ((runtimeMachine g hasher).run schedule (freshConfig g)).shared) field =
      totalWeight (Call.credit field)
        ((runtimeMachine g hasher).run schedule (freshConfig g)).threads % 2 ^ 64 := by
  have htally := @tally_run _ _ _ _ (runtimeMachine g hasher)
    (fun _ action ↦ OfHost g action) (2 ^ 64)
    (fun memory ↦ total g.maxHosts (counter g memory) field) (Call.credit field) (fun _ _ ↦ 0)
      (KeepsToPool g)
    (fun config action hkeeps hhost ↦ hkeeps.apply hhost) Request.credit_call
    (fun event ↦ event.elim) ?_ schedule (freshConfig g)
    (along_of_forall_mem (OfHost g) hhosts (freshConfig g)) KeepsToPool.fresh
  · have hstart : totalWeight (Call.credit field) (freshConfig g).threads = 0 := rfl
    have hzero : total g.maxHosts (counter g (freshConfig g).shared) field = 0 :=
      total_freshMemory hfield
    rw [spilled_zero, hstart, hzero, Nat.add_zero, Nat.zero_add] at htally
    exact (Nat.mod_eq_of_lt (Nat.mod_lt _ (by decide))).symm.trans htally
  · intro config index call hkeeps _ hcall
    have hbounded := hkeeps.calls call (List.mem_of_getElem? hcall)
    refine ⟨amountOf field call.increments, Call.credit_step field call config.shared, ?_⟩
    have hcounted : Counted g call.increments config.shared (call.step g hasher config.shared).2 :=
      Call.step_counted hbounded config.shared
    have htotal := hcounted.total_eq_add (fun _ hmem ↦ Call.host_lt_of_mem_increments hbounded hmem)
      hfield
    exact (congrArg (· % 2 ^ 64) htotal).trans (Nat.mod_mod _ _)

/-! ### Sums that do not wrap -/

/-- An increment adds no more than its amount to a sum. -/
theorem sumOf_bump_le (counters : ℕ → ℕ → ℕ) (hosts field : ℕ) (increment : Increment) :
    sumOf (bump counters increment) hosts field ≤
      sumOf counters hosts field + amountOf field [increment] := by
  have hbump : ∀ hostId, bump counters increment hostId field ≤ counters hostId field +
      if hostId = increment.hostId.toNat then amountOf field [increment] else 0 := by
    intro hostId
    have hamount : amountOf field [increment] =
        if increment.field = field then increment.amount else 0 := Nat.add_zero _
    unfold bump
    split_ifs with hboth hhost hhost
    · rw [hamount, if_pos hboth.2.symm]
      exact Nat.mod_le _ _
    · exact absurd hboth.1 hhost
    · exact Nat.le_add_right _ _
    · exact Nat.le_refl _
  refine (Finset.sum_le_sum fun hostId _ ↦ hbump hostId).trans ?_
  rw [Finset.sum_add_distrib, Finset.sum_ite_eq']
  refine Nat.add_le_add_left ?_ _
  split_ifs
  · exact Nat.le_refl _
  · exact Nat.zero_le _

theorem sumOf_foldl_bump_le (hosts field : ℕ) (increments : List Increment)
    (counters : ℕ → ℕ → ℕ) : sumOf (increments.foldl bump counters) hosts field ≤
      sumOf counters hosts field + amountOf field increments := by
  induction increments generalizing counters with
  | nil => exact Nat.le_refl _
  | cons increment rest ih =>
    have hsplit : amountOf field (increment :: rest) =
        amountOf field [increment] + amountOf field rest := amountOf_append field [increment] rest
    have hfirst := sumOf_bump_le counters hosts field increment
    have hrest := ih (bump counters increment)
    rw [List.foldl_cons, hsplit]
    omega

/-- What the counters of the hosts add up to is at most what the calls of a run have been credited
with. -/
theorem sumOf_run_le {schedule : List (Action Request Empty)}
    (hhosts : ∀ action ∈ schedule, OfHost g action) {field : ℕ} (hfield : field ∈ metricsFields) :
    sumOf (counter g ((runtimeMachine g hasher).run schedule (freshConfig g)).shared) g.maxHosts
        field ≤
      totalWeight (Call.credit field)
        ((runtimeMachine g hasher).run schedule (freshConfig g)).threads := by
  refine (invariant_run (fun config : Config Call Memory ↦ KeepsToPool g config ∧
    sumOf (counter g config.shared) g.maxHosts field ≤
      totalWeight (Call.credit field) config.threads) ?_
    (along_of_forall_mem (OfHost g) hhosts (freshConfig g)) ⟨.fresh, ?_⟩).2
  · rintro config action ⟨hkeeps, hle⟩ hhost
    refine ⟨hkeeps.apply hhost, ?_⟩
    cases action with
    | env event => exact event.elim
    | start request =>
      refine hle.trans ?_
      rw [Machine.apply, totalWeight_append]
      exact Nat.le_add_right _ _
    | step index =>
      cases hcall : config.threads[index]? with
      | none => rwa [apply_step_of_none _ hcall]
      | some call =>
        have hcounted : Counted g call.increments config.shared
            (call.step g hasher config.shared).2 :=
          Call.step_counted (hkeeps.calls call (List.mem_of_getElem? hcall)) config.shared
        have hsum : sumOf (counter g (call.step g hasher config.shared).2) g.maxHosts field = _ :=
          sumOf_congr fun hostId _ ↦ hcounted hostId field hfield
        have hadded := sumOf_foldl_bump_le g.maxHosts field call.increments
          (counter g config.shared)
        have hset := totalWeight_set (Call.credit field) hcall (call.step g hasher config.shared).1
        rw [Call.credit_step] at hset
        rw [apply_step_of_getElem? _ hcall]
        show sumOf (counter g (call.step g hasher config.shared).2) g.maxHosts field ≤
          totalWeight (Call.credit field)
            (config.threads.set index (call.step g hasher config.shared).1)
        omega
  · have hzero : sumOf (counter g (freshMemory g)) g.maxHosts field = 0 := by
      refine Finset.sum_eq_zero fun hostId _ ↦ ?_
      exact (Counted.createHeader (fun _ ↦ 0) hostId field hfield).trans (by
        simp [counter, loadWord, load, leValue])
    exact hzero.le.trans (Nat.zero_le _)

end Fence
