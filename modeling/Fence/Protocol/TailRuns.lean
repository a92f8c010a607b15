import Fence.Protocol.Bounds

/-!
# The committed tail in any run

Whatever calls run on a pool, and however they are stalled, the committed tail only rises and stays
within the pool: only sweeps move it, and a sweep moves it from the value it has loaded to one that
is higher (`TailRises`).
-/

set_option autoImplicit false
set_option relaxedAutoImplicit false

namespace Fence

open ByteMemory Interleaving

variable {g : PoolGeometry} {hasher : Hasher} {memory : Memory}

/-- The committed tail of a memory. -/
def tailOf (memory : Memory) : ℕ := loadWord memory hdrCommittedTail 8

variable (g) in
/-- What a sweep knows of the tail: it has reached what was loaded, and the scan goes up from
there. -/
def SweepPoint.Within (tail : ℕ) : SweepPoint → Prop
  | .loadTail => True
  | .loadState currentTail newTail =>
    currentTail ≤ tail ∧ currentTail ≤ newTail ∧ newTail < g.capacity
  | .compareExchange currentTail newTail =>
    currentTail ≤ tail ∧ currentTail < newTail ∧ newTail ≤ g.capacity

theorem SweepPoint.Within.mono {tail later : ℕ} (hle : tail ≤ later) {point : SweepPoint}
    (hwithin : point.Within g tail) : point.Within g later := by
  cases point with
  | loadTail => trivial
  | loadState currentTail newTail => exact ⟨hwithin.1.trans hle, hwithin.2⟩
  | compareExchange currentTail newTail => exact ⟨hwithin.1.trans hle, hwithin.2⟩

/-! ### The sweep -/

theorem SweepPoint.settle_within {tail currentTail newTail : ℕ} (hcurrent : currentTail ≤ tail)
    (hnew : currentTail ≤ newTail) (hcapacity : newTail ≤ g.capacity) :
    (SweepPoint.settle currentTail newTail).Holds (·.Within g tail) := by
  unfold SweepPoint.settle
  split_ifs with hsame
  · trivial
  · exact ⟨hcurrent, by omega, hcapacity⟩

theorem SweepPoint.scanFrom_within {tail currentTail newTail : ℕ} (hcurrent : currentTail ≤ tail)
    (hnew : currentTail ≤ newTail) (hcapacity : newTail ≤ g.capacity) :
    (SweepPoint.scanFrom g currentTail newTail).Holds (·.Within g tail) := by
  unfold SweepPoint.scanFrom
  split_ifs with hroom
  · exact ⟨hcurrent, hnew, hroom⟩
  · exact SweepPoint.settle_within hcurrent hnew hcapacity

/-- A step of a sweep leaves the tail, or moves it up within the pool. -/
theorem Recovery.advanceCommittedTail_tail {point : SweepPoint}
    (hwithin : point.Within g (tailOf memory)) (htail : tailOf memory ≤ g.capacity) :
    tailOf memory ≤ tailOf ((Recovery.advanceCommittedTail g point).exec memory).2 ∧
      tailOf ((Recovery.advanceCommittedTail g point).exec memory).2 ≤ g.capacity := by
  cases point with
  | loadTail => exact ⟨Nat.le_refl _, htail⟩
  | loadState currentTail newTail => exact ⟨Nat.le_refl _, htail⟩
  | compareExchange currentTail newTail =>
    obtain ⟨-, hless, hcapacity⟩ := hwithin
    by_cases hsame : loadWord memory hdrCommittedTail 8 = currentTail
    · have hword : newTail < 256 ^ 8 := by
        have hcapacityLt := g.capacity_lt
        omega
      simp only [Recovery.advanceCommittedTail, BackendCall.exec, if_pos hsame]
      unfold tailOf
      rw [loadWord_storeWord_self, Nat.mod_eq_of_lt hword, hsame]
      exact ⟨hless.le, hcapacity⟩
    · simp only [Recovery.advanceCommittedTail, BackendCall.exec, if_neg hsame]
      exact ⟨Nat.le_refl _, htail⟩

/-- A step of a sweep keeps to what is known of the tail. -/
theorem Recovery.advanceCommittedTail_within {point : SweepPoint}
    (hwithin : point.Within g (tailOf memory)) (htail : tailOf memory ≤ g.capacity) :
    ((Recovery.advanceCommittedTail g point).exec memory).1.Holds (·.Within g (tailOf memory)) := by
  cases point with
  | loadTail => exact SweepPoint.scanFrom_within (Nat.le_refl _) (Nat.le_refl _) htail
  | loadState currentTail newTail =>
    obtain ⟨hcurrent, hnew, hroom⟩ := hwithin
    simp only [Recovery.advanceCommittedTail, BackendCall.exec]
    split_ifs
    · exact SweepPoint.settle_within hcurrent hnew hroom.le
    · exact SweepPoint.scanFrom_within hcurrent (by omega) hroom
  | compareExchange currentTail newTail =>
    simp only [Recovery.advanceCommittedTail, BackendCall.exec]
    split_ifs <;> trivial

/-! ### Other steps -/

/-- A call that stores behind the committed tail only. -/
def BackendCall.Behind {Next : Type} (call : BackendCall Next) : Prop :=
  call.isStore = true → hdrReserveTail ≤ call.offset

theorem BackendCall.Behind.tailOf_eq {Next : Type} {call : BackendCall Next}
    (hbehind : call.Behind) :
    tailOf (call.exec memory).2 = tailOf memory := by
  have hcommitted : hdrCommittedTail = 32 := rfl
  have hreserve : hdrReserveTail = 40 := rfl
  refine loadWord_congr
    (load_congr fun i hi ↦ BackendCall.exec_apply_of_store_outside fun hstore ↦ ?_)
  have := hbehind hstore
  omega

theorem BackendCall.Behind.of_record {Next : Type} {call : BackendCall Next} {slot field : ℕ}
    (hoffset : call.offset = g.recordOffset slot + field) : call.Behind := by
  intro _
  have hheader := g.headerSize_le_recordOffset slot
  have hsize : headerSize = 64 := rfl
  have hreserve : hdrReserveTail = 40 := rfl
  omega

theorem BackendCall.Behind.of_counter {field : ℕ} {hostId : UInt16} {n : ℕ} {Next : Type}
    {next : Next} :
    (Metrics.incrementCounter g field hostId n next).Behind := by
  intro _
  have hheader := headerSize_le_metricsOffset (g := g) hostId.toNat
  have hsize : headerSize = 64 := rfl
  have hreserve : hdrReserveTail = 40 := rfl
  simp only [Metrics.incrementCounter, BackendCall.offset]
  omega

/-- An append stores behind the committed tail, its sweep apart. -/
theorem FenceRuntime.append_behind {entry : Entry} {point : AppendPoint}
    (hpoint : ∀ slot sweep, point ≠ .sweep slot sweep) :
    (FenceRuntime.append g hasher entry point).Behind := by
  cases point with
  | reserve => exact fun _ ↦ Nat.le_refl _
  | undo slot => exact fun _ ↦ Nat.le_refl _
  | countFailed slot => exact .of_counter
  | flushRecord slot => exact fun hstore ↦ by cases hstore
  | flushState slot => exact fun hstore ↦ by cases hstore
  | sweep slot point => exact absurd rfl (hpoint slot point)
  | countAppends slot => exact .of_counter
  | countBytes slot => exact .of_counter
  | _ => exact .of_record (g := g) (rfl : _ = g.recordOffset (asU32 _) + _)

theorem FenceRuntime.read_behind {hostId : UInt16} {index : ℕ} {point : ReadPoint} :
    (FenceRuntime.read g hasher hostId index point).Behind := by
  cases point with
  | countMismatch => exact .of_counter
  | countRead record => exact .of_counter
  | _ => exact fun hstore ↦ by cases hstore

theorem Compaction.trim_behind {upTo : ℕ} {point : TrimPoint} :
    (Compaction.trim g upTo point).Behind := by
  cases point with
  | storeAbandoned slot trimmedCount =>
    exact .of_record (g := g) (rfl : _ = g.recordOffset slot + recState)
  | _ => exact fun hstore ↦ by cases hstore

/-- A recovery stores behind the committed tail, its sweep apart. -/
theorem Recovery.recover_behind {point : RecoverPoint}
    (hpoint : ∀ scan sweep, point ≠ .sweep scan sweep) :
    (Recovery.recover g hasher point).Behind := by
  cases point with
  | storeAbandoned scan => exact .of_record (g := g) (rfl : _ = g.recordOffset scan.slot + recState)
  | sweep scan point => exact absurd rfl (hpoint scan point)
  | _ => exact fun hstore ↦ by cases hstore

/-! ### Steps of calls -/

/-- A step of a call that sweeps is a step of its sweep. -/
theorem Call.step_of_sweepPoint {call : Call} {point : SweepPoint}
    (hpoint : call.sweepPoint = some point) (memory : Memory) :
    (call.step g hasher memory).2 = ((Recovery.advanceCommittedTail g point).exec memory).2 ∧
      (call.step g hasher memory).1.sweepPoint =
        ((Recovery.advanceCommittedTail g point).exec memory).1.fold some fun _ ↦ none := by
  match call, hpoint with
  | .append entry (.running (.sweep held point)), rfl =>
    rw [Call.step_append]
    simp only [FenceRuntime.append, BackendCall.exec_map]
    cases ((Recovery.advanceCommittedTail g point).exec memory).1 <;> exact ⟨trivial, rfl⟩
  | .recover hostId (.running (.recovery (.sweep scan point))), rfl =>
    rw [Call.step_recover]
    simp only [FenceRuntime.recover, Recovery.recover, BackendCall.exec_map]
    cases ((Recovery.advanceCommittedTail g point).exec memory).1 <;> exact ⟨trivial, rfl⟩

/-- A step of an append that does not sweep starts its sweep with a load of the tail, if it does. -/
theorem FenceRuntime.append_sweepPoint {entry : Entry} {point : AppendPoint}
    (hpoint : ∀ slot sweep, point ≠ .sweep slot sweep) {sweep : SweepPoint}
    (hsweep : (Call.append entry ((FenceRuntime.append g hasher entry point).exec
      memory).1).sweepPoint = some sweep) : sweep = .loadTail := by
  cases point with
  | reserve =>
    simp only [FenceRuntime.append, BackendCall.exec] at hsweep
    split_ifs at hsweep <;> cases hsweep
  | writeDataLen slot =>
    simp only [FenceRuntime.append, BackendCall.exec] at hsweep
    split_ifs at hsweep <;> cases hsweep
  | flushState slot =>
    cases hsweep
    rfl
  | sweep slot point => exact absurd rfl (hpoint slot point)
  | _ => cases hsweep

/-- The sweep of a recovery starts with a load of the tail. -/
theorem Scan.head_sweepPoint {hostId : UInt16} {scan : Scan} {sweep : SweepPoint}
    (hsweep : (Call.recover hostId (scan.head.fold (fun point ↦ .running (.recovery point))
      fun report ↦ .running (.countRuns report))).sweepPoint = some sweep) : sweep = .loadTail := by
  unfold Scan.head at hsweep
  split_ifs at hsweep
  · cases hsweep
  · cases hsweep
    rfl

theorem Scan.check_sweepPoint {hostId : UInt16} {scan : Scan} {term index storedChecksum : ℕ}
    {payload : List UInt8} {sweep : SweepPoint}
    (hsweep : (Call.recover hostId ((scan.check hasher term index payload storedChecksum).fold
      (fun point ↦ .running (.recovery point))
      fun report ↦ .running (.countRuns report))).sweepPoint = some sweep) : sweep = .loadTail := by
  unfold Scan.check Scan.next at hsweep
  split_ifs at hsweep
  · exact Scan.head_sweepPoint hsweep
  · cases hsweep

theorem Recovery.recover_sweepPoint {hostId : UInt16} {point : RecoverPoint}
    (hpoint : ∀ scan sweep, point ≠ .sweep scan sweep) {sweep : SweepPoint}
    (hsweep : (Call.recover hostId (((Recovery.recover g hasher point).exec memory).1.fold
      (fun point ↦ .running (.recovery point))
      fun report ↦ .running (.countRuns report))).sweepPoint = some sweep) : sweep = .loadTail := by
  cases point with
  | loadReserveTail => exact Scan.head_sweepPoint hsweep
  | loadState scan =>
    simp only [Recovery.recover, BackendCall.exec] at hsweep
    split_ifs at hsweep
    · cases hsweep
    · cases hsweep
    · exact Scan.head_sweepPoint hsweep
    · cases hsweep
  | flushAbandoned scan => exact Scan.head_sweepPoint hsweep
  | loadChecksum scan term index dataLen =>
    simp only [Recovery.recover, BackendCall.exec] at hsweep
    split_ifs at hsweep
    · cases hsweep
    · exact Scan.check_sweepPoint hsweep
  | readPayload scan term index payloadLen storedChecksum => exact Scan.check_sweepPoint hsweep
  | sweep scan point => exact absurd rfl (hpoint scan point)
  | _ => cases hsweep

/-- A step of a call that does not sweep leaves the tail. A sweep starts with a load of the tail. -/
theorem Call.step_of_no_sweep {call : Call} (hpoint : call.sweepPoint = none) (memory : Memory) :
    tailOf (call.step g hasher memory).2 = tailOf memory ∧
      ∀ point, (call.step g hasher memory).1.sweepPoint = some point → point = .loadTail := by
  match call with
  | .append entry (.returned outcome) => exact ⟨rfl, fun point hsome ↦ by cases hsome⟩
  | .read hostId index (.returned outcome) => exact ⟨rfl, fun point hsome ↦ by cases hsome⟩
  | .trim upTo (.returned outcome) => exact ⟨rfl, fun point hsome ↦ by cases hsome⟩
  | .recover hostId (.returned report) => exact ⟨rfl, fun point hsome ↦ by cases hsome⟩
  | .read hostId index (.running point) =>
    rw [Call.step_read]
    exact ⟨FenceRuntime.read_behind.tailOf_eq, fun point hsome ↦ by cases hsome⟩
  | .trim upTo (.running point) =>
    rw [Call.step_trim]
    exact ⟨Compaction.trim_behind.tailOf_eq, fun point hsome ↦ by cases hsome⟩
  | .append entry (.running point) =>
    rw [Call.step_append]
    have hnot : ∀ slot sweep, point ≠ .sweep slot sweep := by
      rintro slot sweep rfl
      cases hpoint
    exact ⟨(FenceRuntime.append_behind hnot).tailOf_eq,
      fun sweep hsweep ↦ FenceRuntime.append_sweepPoint hnot hsweep⟩
  | .recover hostId (.running (.recovery point)) =>
    have hnot : ∀ scan sweep, point ≠ .sweep scan sweep := by
      rintro scan sweep rfl
      cases hpoint
    rw [Call.step_recover]
    simp only [FenceRuntime.recover, BackendCall.exec_map]
    refine ⟨(Recovery.recover_behind hnot).tailOf_eq, fun sweep hsweep ↦ ?_⟩
    refine @Recovery.recover_sweepPoint g hasher memory hostId point hnot sweep ?_
    cases htask : ((Recovery.recover g hasher point).exec memory).1 <;> rwa [htask] at hsweep
  | .recover hostId (.running (.countRuns report)) =>
    rw [Call.step_recover]
    refine ⟨BackendCall.Behind.of_counter.tailOf_eq, fun sweep hsweep ↦ ?_⟩
    simp only [FenceRuntime.recover, Metrics.incrementRecoveryRuns,
      exec_incrementCounter_fst] at hsweep
    split_ifs at hsweep <;> cases hsweep
  | .recover hostId (.running (.countAbandoned report)) =>
    rw [Call.step_recover]
    exact ⟨BackendCall.Behind.of_counter.tailOf_eq, fun sweep hsweep ↦ by cases hsweep⟩

/-- A call that has left its sweep behind does not sweep again. -/
theorem Call.swept_step {call : Call} (hswept : call.swept = true) (memory : Memory) :
    call.sweepPoint = none ∧ (call.step g hasher memory).1.swept = true := by
  match call, hswept with
  | .append entry (.running (.countAppends slot)), _ => exact ⟨rfl, rfl⟩
  | .append entry (.running (.countBytes slot)), _ => exact ⟨rfl, rfl⟩
  | .append entry (.returned outcome), _ => exact ⟨rfl, rfl⟩
  | .recover hostId (.running (.countRuns report)), _ =>
    refine ⟨rfl, ?_⟩
    rw [Call.step_recover]
    simp only [FenceRuntime.recover, Metrics.incrementRecoveryRuns, exec_incrementCounter_fst]
    split_ifs <;> rfl
  | .recover hostId (.running (.countAbandoned report)), _ => exact ⟨rfl, rfl⟩
  | .recover hostId (.returned report), _ => exact ⟨rfl, rfl⟩

/-- When its sweep returns, a call has left it behind. -/
theorem Call.swept_of_returns {call : Call} {point : SweepPoint} {value : ℕ}
    (hpoint : call.sweepPoint = some point)
    (hreturns : ((Recovery.advanceCommittedTail g point).exec memory).1 = .returned value) :
    (call.step g hasher memory).1.swept = true := by
  match call, hpoint with
  | .append entry (.running (.sweep held point)), rfl =>
    rw [Call.step_append]
    simp only [FenceRuntime.append, BackendCall.exec_map, hreturns]
    rfl
  | .recover hostId (.running (.recovery (.sweep scan point))), rfl =>
    rw [Call.step_recover]
    simp only [FenceRuntime.recover, Recovery.recover, BackendCall.exec_map, hreturns]
    rfl

/-! ### Machines that sweep -/

section Sweeps

variable {Request Thread : Type}

variable (g) in
/-- A machine whose threads may be in a sweep. Such a thread steps as its sweep does, and leaves it
behind when it returns. A sweep starts with a load of the tail, and no other step moves the tail. -/
structure Sweeps (machine : Machine Request Thread Memory Empty)
    (sweepPoint : Thread → Option SweepPoint) (swept : Thread → Prop) : Prop where
  starts : ∀ request point, sweepPoint (machine.start request) = some point → point = .loadTail
  sweep : ∀ thread point memory, sweepPoint thread = some point →
    (machine.step thread memory).2 = ((Recovery.advanceCommittedTail g point).exec memory).2 ∧
      sweepPoint (machine.step thread memory).1 =
        ((Recovery.advanceCommittedTail g point).exec memory).1.fold some fun _ ↦ none
  returns : ∀ thread point memory value, sweepPoint thread = some point →
    ((Recovery.advanceCommittedTail g point).exec memory).1 = .returned value →
    swept (machine.step thread memory).1
  others : ∀ thread memory, sweepPoint thread = none →
    tailOf (machine.step thread memory).2 = tailOf memory ∧
      ∀ point, sweepPoint (machine.step thread memory).1 = some point → point = .loadTail
  stays : ∀ thread memory, swept thread →
    sweepPoint thread = none ∧ swept (machine.step thread memory).1

/-- A call that has just started does not sweep. -/
theorem Request.call_sweepPoint (request : Fence.Request) : (request.call g).sweepPoint = none := by
  cases request with
  | append entry =>
    rw [Request.call, startAppend]
    split_ifs <;> rfl
  | _ => rfl

theorem runtimeMachine_sweeps :
    Sweeps g (runtimeMachine g hasher) Call.sweepPoint (Call.swept · = true) where
  starts := by
    intro request point hpoint
    cases (Request.call_sweepPoint (g := g) request).symm.trans hpoint
  sweep := fun call point memory hpoint ↦ Call.step_of_sweepPoint hpoint memory
  returns := fun call point memory value hpoint hreturns ↦ Call.swept_of_returns hpoint hreturns
  others := fun call memory hpoint ↦ Call.step_of_no_sweep hpoint memory
  stays := fun call memory hswept ↦ Call.swept_step hswept memory

/-- Two machines that sweep, on one memory. -/
theorem Sweeps.sum {Request' Thread' : Type} {first : Machine Request Thread Memory Empty}
    {second : Machine Request' Thread' Memory Empty} {firstPoint : Thread → Option SweepPoint}
    {secondPoint : Thread' → Option SweepPoint} {firstSwept : Thread → Prop}
    {secondSwept : Thread' → Prop} (hfirst : Sweeps g first firstPoint firstSwept)
    (hsecond : Sweeps g second secondPoint secondSwept) :
    Sweeps g (first.sum second) (Sum.elim firstPoint secondPoint)
      (Sum.elim firstSwept secondSwept) where
  starts := by
    rintro (request | request) point hpoint
    · exact hfirst.starts request point hpoint
    · exact hsecond.starts request point hpoint
  sweep := by
    rintro (thread | thread) point memory hpoint
    · exact hfirst.sweep thread point memory hpoint
    · exact hsecond.sweep thread point memory hpoint
  returns := by
    rintro (thread | thread) point memory value hpoint hreturns
    · exact hfirst.returns thread point memory value hpoint hreturns
    · exact hsecond.returns thread point memory value hpoint hreturns
  others := by
    rintro (thread | thread) memory hpoint
    · exact hfirst.others thread memory hpoint
    · exact hsecond.others thread memory hpoint
  stays := by
    rintro (thread | thread) memory hswept
    · exact hfirst.stays thread memory hswept
    · exact hsecond.stays thread memory hswept

/-! ### Runs -/

variable (g) in
/-- The committed tail lies within the pool, and every sweep keeps to what is known of it. -/
structure TailRises (sweepPoint : Thread → Option SweepPoint) (config : Config Thread Memory) :
    Prop where
  tail : tailOf config.shared ≤ g.capacity
  sweeps : ∀ thread ∈ config.threads, ∀ point, sweepPoint thread = some point →
    point.Within g (tailOf config.shared)

variable {machine : Machine Request Thread Memory Empty} {sweepPoint : Thread → Option SweepPoint}
  {swept : Thread → Prop} {config : Config Thread Memory}

/-- A step leaves the tail or moves it up within the pool, and its sweep keeps to it. -/
theorem TailRises.step (hsweeps : Sweeps g machine sweepPoint swept)
    (hrises : TailRises g sweepPoint config) {thread : Thread} (hmem : thread ∈ config.threads) :
    tailOf config.shared ≤ tailOf (machine.step thread config.shared).2 ∧
      tailOf (machine.step thread config.shared).2 ≤ g.capacity ∧
      ∀ point, sweepPoint (machine.step thread config.shared).1 = some point →
        point.Within g (tailOf (machine.step thread config.shared).2) := by
  cases hpoint : sweepPoint thread with
  | none =>
    obtain ⟨hsame, hstarts⟩ := hsweeps.others thread config.shared hpoint
    rw [hsame]
    refine ⟨Nat.le_refl _, hrises.tail, fun point hsome ↦ ?_⟩
    rw [hstarts point hsome]
    trivial
  | some point =>
    have hwithin := hrises.sweeps thread hmem point hpoint
    obtain ⟨hmemory, hnext⟩ := hsweeps.sweep thread point config.shared hpoint
    obtain ⟨hlow, hhigh⟩ := Recovery.advanceCommittedTail_tail hwithin hrises.tail
    have htask := Recovery.advanceCommittedTail_within hwithin hrises.tail
    rw [hmemory, hnext]
    refine ⟨hlow, hhigh, fun later hlater ↦ ?_⟩
    cases hstep : ((Recovery.advanceCommittedTail g point).exec config.shared).1 with
    | returned tail =>
      rw [hstep] at hlater
      cases hlater
    | running next =>
      rw [hstep] at hlater htask
      cases hlater
      exact SweepPoint.Within.mono hlow htask

/-- Every action leaves the tail or moves it up. -/
theorem TailRises.tail_le_apply (hsweeps : Sweeps g machine sweepPoint swept)
    (hrises : TailRises g sweepPoint config) (action : Action Request Empty) :
    tailOf config.shared ≤ tailOf (machine.apply config action).shared := by
  cases action with
  | start request => exact Nat.le_refl _
  | env event => exact event.elim
  | step index =>
    cases hthread : config.threads[index]? with
    | none => rw [apply_step_of_none _ hthread]
    | some thread =>
      rw [apply_step_of_getElem? _ hthread]
      exact (hrises.step hsweeps (List.mem_of_getElem? hthread)).1

theorem TailRises.apply (hsweeps : Sweeps g machine sweepPoint swept)
    (hrises : TailRises g sweepPoint config) (action : Action Request Empty) :
    TailRises g sweepPoint (machine.apply config action) := by
  cases action with
  | env event => exact event.elim
  | start request =>
    refine ⟨hrises.tail, fun thread hmem point hpoint ↦ ?_⟩
    rcases List.mem_append.mp hmem with hold | hnew
    · exact hrises.sweeps thread hold point hpoint
    · obtain rfl := List.mem_singleton.mp hnew
      rw [hsweeps.starts request point hpoint]
      trivial
  | step index =>
    cases hthread : config.threads[index]? with
    | none => rwa [apply_step_of_none _ hthread]
    | some thread =>
      rw [apply_step_of_getElem? _ hthread]
      obtain ⟨hlow, hhigh, hsweep⟩ := hrises.step hsweeps (List.mem_of_getElem? hthread)
      refine ⟨hhigh, forall_mem_set _ hthread hsweep fun _ held _ hheld point hpoint ↦ ?_⟩
      exact (hrises.sweeps held (List.mem_of_getElem? hheld) point hpoint).mono hlow

theorem TailRises.fresh : TailRises g sweepPoint { shared := freshMemory g, threads := [] } where
  tail := by
    have htail : tailOf (freshMemory g) = 0 :=
      congrArg Pool.committedTail (ofMemory_createHeader (g := g) _)
    rw [htail]
    exact Nat.zero_le _
  sweeps := by
    intro thread hmem
    cases hmem

/-- A schedule leaves the tail or moves it up within the pool. -/
theorem TailRises.run (hsweeps : Sweeps g machine sweepPoint swept)
    (hrises : TailRises g sweepPoint config) (schedule : List (Action Request Empty)) :
    TailRises g sweepPoint (machine.run schedule config) :=
  invariant_run_always (TailRises g sweepPoint)
    (fun _ action hrises ↦ hrises.apply hsweeps action) schedule hrises

theorem TailRises.tail_le_run (hsweeps : Sweeps g machine sweepPoint swept)
    (hrises : TailRises g sweepPoint config) (schedule : List (Action Request Empty)) :
    tailOf config.shared ≤ tailOf (machine.run schedule config).shared := by
  induction schedule generalizing config with
  | nil => exact Nat.le_refl _
  | cons action rest ih =>
    exact (hrises.tail_le_apply hsweeps action).trans (ih (hrises.apply hsweeps action))

end Sweeps

/-- The tail rises in every run of calls from a fresh pool. -/
theorem tailRises_of_run (schedule : List (Action Request Empty)) :
    TailRises g Call.sweepPoint ((runtimeMachine g hasher).run schedule (freshConfig g)) :=
  TailRises.fresh.run runtimeMachine_sweeps schedule

end Fence
