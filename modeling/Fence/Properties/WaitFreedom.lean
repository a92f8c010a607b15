import Fence.Properties.SweepTermination
import Fence.Protocol.Serving

/-!
# Every call returns

No call of a runtime waits for another one. Whatever the memory holds, as long as its tail lies
within the pool, and however calls interleave or stall, each of them returns after a number of its
own steps that depends on the capacity alone (`Request.stepBound`). What is left of a call
(`Call.stepsLeft`) is that of its loops, the sweep included, whose retries are paid by the higher
tail they have found.
-/

set_option autoImplicit false
set_option relaxedAutoImplicit false

namespace Fence

open ByteMemory Interleaving

variable {g : PoolGeometry} {hasher : Hasher} {memory : Memory}

/-! ### What a call still has to do -/

variable (g) in
/-- At most so many steps of a whole sweep are left when the tail is known. -/
def sweepSteps (tail : ℕ) : ℕ := (g.capacity - tail + 1) ^ 2

variable (g) in
def AppendPoint.stepsLeft (tail : ℕ) : AppendPoint → ℕ
  | .reserve => 13 + sweepSteps g tail
  | .undo _ => 2
  | .countFailed _ => 1
  | .storeWriting _ => 12 + sweepSteps g tail
  | .storeTerm _ => 11 + sweepSteps g tail
  | .storeIndex _ => 10 + sweepSteps g tail
  | .storeWriterId _ => 9 + sweepSteps g tail
  | .writeDataLen _ => 8 + sweepSteps g tail
  | .writePayload _ => 7 + sweepSteps g tail
  | .storeChecksum _ => 6 + sweepSteps g tail
  | .flushRecord _ => 5 + sweepSteps g tail
  | .storeCommitted _ => 4 + sweepSteps g tail
  | .flushState _ => 3 + sweepSteps g tail
  | .sweep _ point => 2 + point.stepsLeft g tail
  | .countAppends _ => 2
  | .countBytes _ => 1

def ReadPoint.stepsLeft : ReadPoint → ℕ
  | .loadTailOfZero => 1
  | .loadTail => 9
  | .loadState _ => 8
  | .loadTerm _ => 7
  | .loadIndex _ _ => 6
  | .loadWriterId _ _ _ => 5
  | .readDataLen _ _ _ _ => 4
  | .loadChecksum _ _ _ _ _ => 3
  | .readPayload _ _ _ _ _ _ => 2
  | .countMismatch => 1
  | .countRead _ => 1

variable (g) in
/-- A trim takes at most three steps a slot. -/
def TrimPoint.stepsLeft (upTo : ℕ) : TrimPoint → ℕ
  | .loadTail => 1 + 3 * g.capacity
  | .loadState slot _ => 3 + 3 * (asU32 upTo - (slot + 1))
  | .storeAbandoned slot _ => 2 + 3 * (asU32 upTo - (slot + 1))
  | .flushAbandoned slot _ => 1 + 3 * (asU32 upTo - (slot + 1))

/-- How many slots a scan has behind the one it is at. -/
def Scan.slotsLeft (scan : Scan) : ℕ := asU32 scan.slotsToScan - (scan.slot + 1)

variable (g) in
/-- A recovery takes at most eight steps a slot, and then sweeps. -/
def RecoverPoint.stepsLeft (tail : ℕ) : RecoverPoint → ℕ
  | .loadReserveTail => 1 + 8 * g.capacity + sweepSteps g tail
  | .loadState scan => 8 + 8 * scan.slotsLeft + sweepSteps g tail
  | .loadTerm scan => 7 + 8 * scan.slotsLeft + sweepSteps g tail
  | .loadIndex scan _ => 6 + 8 * scan.slotsLeft + sweepSteps g tail
  | .readDataLen scan _ _ => 5 + 8 * scan.slotsLeft + sweepSteps g tail
  | .loadChecksum scan _ _ _ => 4 + 8 * scan.slotsLeft + sweepSteps g tail
  | .readPayload scan _ _ _ _ => 3 + 8 * scan.slotsLeft + sweepSteps g tail
  | .storeAbandoned scan => 2 + 8 * scan.slotsLeft + sweepSteps g tail
  | .flushAbandoned scan => 1 + 8 * scan.slotsLeft + sweepSteps g tail
  | .sweep _ point => point.stepsLeft g tail

variable (g) in
/-- At most so many steps of a call are left. -/
def Call.stepsLeft (tail : ℕ) : Call → ℕ
  | .append _ (.running point) => point.stepsLeft g tail
  | .read _ _ (.running point) => point.stepsLeft
  | .trim upTo (.running point) => point.stepsLeft g upTo.toNat
  | .recover _ (.running (.recovery point)) => 2 + point.stepsLeft g tail
  | .recover _ (.running (.countRuns _)) => 2
  | .recover _ (.running (.countAbandoned _)) => 1
  | _ => 0

variable (g) in
/-- So many steps are enough for any call a request starts. -/
def Request.stepBound : Request → ℕ
  | .append _ => 13 + (g.capacity + 1) ^ 2
  | .read _ _ => 9
  | .trim _ => 1 + 3 * g.capacity
  | .recover _ => 3 + 8 * g.capacity + (g.capacity + 1) ^ 2

/-- Whether a call has not returned yet. -/
def Call.working (call : Call) : Bool := call.answer.isNone

/-- A higher tail leaves no more to do. -/
theorem sweepSteps_antitone {tail later : ℕ} (hle : tail ≤ later) :
    sweepSteps g later ≤ sweepSteps g tail := Nat.pow_le_pow_left (by omega) 2

theorem AppendPoint.stepsLeft_antitone {tail later : ℕ} (hle : tail ≤ later) (point : AppendPoint) :
    point.stepsLeft g later ≤ point.stepsLeft g tail := by
  have hsweep := sweepSteps_antitone (g := g) hle
  cases point with
  | sweep slot point =>
    exact Nat.add_le_add_left (potential_steps.antitone (g := g) tail later point hle) 2
  | _ =>
    simp only [AppendPoint.stepsLeft]
    omega

theorem RecoverPoint.stepsLeft_antitone {tail later : ℕ} (hle : tail ≤ later)
    (point : RecoverPoint) : point.stepsLeft g later ≤ point.stepsLeft g tail := by
  have hsweep := sweepSteps_antitone (g := g) hle
  cases point with
  | sweep scan point => exact potential_steps.antitone (g := g) tail later point hle
  | _ =>
    simp only [RecoverPoint.stepsLeft]
    omega

theorem Call.stepsLeft_antitone {tail later : ℕ} (hle : tail ≤ later) (call : Call) :
    call.stepsLeft g later ≤ call.stepsLeft g tail := by
  match call with
  | .append _ (.running point) => exact point.stepsLeft_antitone hle
  | .recover _ (.running (.recovery point)) =>
    exact Nat.add_le_add_left (point.stepsLeft_antitone hle) 2
  | .recover _ (.running (.countRuns _)) => exact Nat.le_refl _
  | .recover _ (.running (.countAbandoned _)) => exact Nat.le_refl _
  | .read _ _ (.running _) => exact Nat.le_refl _
  | .trim _ (.running _) => exact Nat.le_refl _
  | .append _ (.returned _) => exact Nat.le_refl _
  | .read _ _ (.returned _) => exact Nat.le_refl _
  | .trim _ (.returned _) => exact Nat.le_refl _
  | .recover _ (.returned _) => exact Nat.le_refl _

/-! ### Every step pays for itself -/

/-- A step of an append, its sweep apart. -/
theorem FenceRuntime.append_pays {entry : Entry} {point : AppendPoint} (tail : ℕ)
    (hpoint : ∀ slot sweep, point ≠ .sweep slot sweep) :
    ((FenceRuntime.append g hasher entry point).exec memory).1.fold (·.stepsLeft g tail)
      (fun _ ↦ 0) < point.stepsLeft g tail := by
  cases point with
  | reserve =>
    simp only [FenceRuntime.append, BackendCall.exec]
    split_ifs <;> simp only [Task.fold, AppendPoint.stepsLeft] <;> omega
  | writeDataLen slot =>
    simp only [FenceRuntime.append, BackendCall.exec]
    split_ifs <;> simp only [Task.fold, AppendPoint.stepsLeft] <;> omega
  | sweep slot point => exact absurd rfl (hpoint slot point)
  | flushState slot =>
    simp only [FenceRuntime.append, BackendCall.exec, Task.fold, AppendPoint.stepsLeft,
      SweepPoint.stepsLeft, sweepSteps]
    omega
  | countFailed slot => exact Nat.one_pos
  | countAppends slot => exact Nat.one_lt_two
  | countBytes slot => exact Nat.one_pos
  | _ =>
    simp only [FenceRuntime.append, BackendCall.exec, Task.fold, AppendPoint.stepsLeft]
    omega

theorem checkRead_stepsLeft {term storedIndex writerId : ℕ} {data : List UInt8}
    {storedChecksum : ℕ} :
    (checkRead hasher term storedIndex writerId data storedChecksum).fold ReadPoint.stepsLeft
      (fun _ ↦ 0) = 1 := by
  rw [checkRead]
  split_ifs <;> rfl

/-- A step of a read. -/
theorem FenceRuntime.read_pays {hostId : UInt16} {index : ℕ} {point : ReadPoint} :
    ((FenceRuntime.read g hasher hostId index point).exec memory).1.fold ReadPoint.stepsLeft
      (fun _ ↦ 0) < point.stepsLeft := by
  cases point with
  | loadTail =>
    simp only [FenceRuntime.read, BackendCall.exec]
    split_ifs <;> simp only [Task.fold, ReadPoint.stepsLeft] <;> omega
  | loadState slot =>
    simp only [FenceRuntime.read, BackendCall.exec]
    split_ifs <;> simp only [Task.fold, ReadPoint.stepsLeft] <;> omega
  | loadChecksum slot term storedIndex writerId dataLen =>
    simp only [FenceRuntime.read, BackendCall.exec]
    split_ifs
    · exact Nat.lt_succ_self _
    · rw [checkRead_stepsLeft]
      exact Nat.lt_succ_of_le (Nat.le_succ _)
  | readPayload slot term storedIndex writerId payloadLen storedChecksum =>
    simp only [FenceRuntime.read, BackendCall.exec]
    rw [checkRead_stepsLeft]
    exact Nat.lt_succ_self _
  | _ => exact Nat.lt_succ_self _

/-- The loop of a trim has three steps for each slot that is left. -/
theorem TrimPoint.head_stepsLeft (upTo slot trimmedCount : ℕ) :
    (TrimPoint.head upTo slot trimmedCount).fold (TrimPoint.stepsLeft g upTo) (fun _ ↦ 0) =
      3 * (asU32 upTo - slot) := by
  rw [TrimPoint.head]
  split_ifs with hslot
  · simp only [Task.fold, TrimPoint.stepsLeft]
    omega
  · simp only [Task.fold]
    omega

/-- A step of a trim, on a pool whose tail is within it. -/
theorem Compaction.trim_pays {upTo : ℕ} {point : TrimPoint} (htail : tailOf memory ≤ g.capacity) :
    ((Compaction.trim g upTo point).exec memory).1.fold (TrimPoint.stepsLeft g upTo)
      (fun _ ↦ 0) < point.stepsLeft g upTo := by
  cases point with
  | loadTail =>
    simp only [Compaction.trim, BackendCall.exec]
    split_ifs with hbeyond
    · exact Nat.lt_of_lt_of_le Nat.one_pos (Nat.le_add_right _ _)
    · have hbound : asU32 upTo ≤ g.capacity :=
        (asU32_le upTo).trans ((Nat.le_of_not_lt hbeyond).trans htail)
      rw [TrimPoint.head_stepsLeft, TrimPoint.stepsLeft]
      omega
  | loadState slot trimmedCount =>
    simp only [Compaction.trim, BackendCall.exec]
    split_ifs
    · simp only [Task.fold, TrimPoint.stepsLeft]
      omega
    · rw [TrimPoint.head_stepsLeft, TrimPoint.stepsLeft]
      omega
  | storeAbandoned slot trimmedCount => exact Nat.add_lt_add_right (Nat.lt_succ_self 1) _
  | flushAbandoned slot trimmedCount =>
    simp only [Compaction.trim, BackendCall.exec]
    rw [TrimPoint.head_stepsLeft, TrimPoint.stepsLeft]
    omega

/-- The loop of a recovery has eight steps for each slot that is left, and a sweep behind it. -/
theorem Scan.head_stepsLeft (scan : Scan) (tail : ℕ) :
    scan.head.fold (RecoverPoint.stepsLeft g tail) (fun _ ↦ 0) =
      8 * (asU32 scan.slotsToScan - scan.slot) + sweepSteps g tail := by
  rw [Scan.head]
  split_ifs with hslot
  · simp only [Task.fold, RecoverPoint.stepsLeft, Scan.slotsLeft]
    omega
  · simp only [Task.fold, RecoverPoint.stepsLeft, SweepPoint.stepsLeft, sweepSteps]
    omega

theorem Scan.next_stepsLeft (scan : Scan) (tail : ℕ) :
    scan.next.fold (RecoverPoint.stepsLeft g tail) (fun _ ↦ 0) =
      8 * scan.slotsLeft + sweepSteps g tail := Scan.head_stepsLeft _ tail

theorem Scan.nextAbandoned_stepsLeft (scan : Scan) (tail : ℕ) :
    scan.nextAbandoned.fold (RecoverPoint.stepsLeft g tail) (fun _ ↦ 0) =
      8 * scan.slotsLeft + sweepSteps g tail := Scan.head_stepsLeft _ tail

theorem Scan.check_stepsLeft (scan : Scan) {term index storedChecksum : ℕ} {payload : List UInt8}
    (tail : ℕ) :
    (scan.check hasher term index payload storedChecksum).fold (RecoverPoint.stepsLeft g tail)
      (fun _ ↦ 0) ≤ 2 + 8 * scan.slotsLeft + sweepSteps g tail := by
  rw [Scan.check]
  split_ifs
  · rw [Scan.next_stepsLeft]
    omega
  · exact Nat.le_refl _

/-- A step of a recovery, its sweep apart. -/
theorem Recovery.recover_pays {point : RecoverPoint} (tail : ℕ)
    (hpoint : ∀ scan sweep, point ≠ .sweep scan sweep) :
    ((Recovery.recover g hasher point).exec memory).1.fold (RecoverPoint.stepsLeft g tail)
      (fun _ ↦ 0) < point.stepsLeft g tail := by
  cases point with
  | loadReserveTail =>
    have hscan := (asU32_le (min (loadWord memory hdrReserveTail 8) g.capacity)).trans
      (Nat.min_le_right _ _)
    simp only [Recovery.recover, BackendCall.exec]
    rw [Scan.head_stepsLeft, RecoverPoint.stepsLeft]
    dsimp only
    omega
  | loadState scan =>
    simp only [Recovery.recover, BackendCall.exec]
    split_ifs
    · simp only [Task.fold, RecoverPoint.stepsLeft]
      omega
    · simp only [Task.fold, RecoverPoint.stepsLeft]
      omega
    · rw [Scan.next_stepsLeft, RecoverPoint.stepsLeft]
      omega
    · simp only [Task.fold, RecoverPoint.stepsLeft]
      omega
  | flushAbandoned scan =>
    simp only [Recovery.recover, BackendCall.exec]
    rw [Scan.nextAbandoned_stepsLeft, RecoverPoint.stepsLeft]
    omega
  | loadChecksum scan term index dataLen =>
    simp only [Recovery.recover, BackendCall.exec]
    split_ifs
    · simp only [Task.fold, RecoverPoint.stepsLeft]
      omega
    · have hcheck := @Scan.check_stepsLeft g hasher scan term index
        (loadWord memory (g.recordOffset scan.slot + recChecksum) 8) [] tail
      rw [RecoverPoint.stepsLeft]
      omega
  | readPayload scan term index payloadLen storedChecksum =>
    refine Nat.lt_of_le_of_lt (Scan.check_stepsLeft scan tail) ?_
    rw [RecoverPoint.stepsLeft]
    omega
  | sweep scan point => exact absurd rfl (hpoint scan point)
  | _ =>
    simp only [Recovery.recover, BackendCall.exec, Task.fold, RecoverPoint.stepsLeft]
    omega

/-! ### Calls -/

section Fold

variable (tail : ℕ)

theorem Call.stepsLeft_append (entry : Entry) (task : Task AppendPoint (Except FenceError ℕ)) :
    (Call.append entry task).stepsLeft g tail = task.fold (·.stepsLeft g tail) fun _ ↦ 0 := by
  cases task <;> rfl

theorem Call.stepsLeft_read (hostId : UInt16) (index : UInt64)
    (task : Task ReadPoint (Except FenceError (Option Record))) :
    (Call.read hostId index task).stepsLeft g tail = task.fold ReadPoint.stepsLeft fun _ ↦ 0 := by
  cases task <;> rfl

theorem Call.stepsLeft_trim (upTo : UInt64) (task : Task TrimPoint (Except FenceError TrimResult)) :
    (Call.trim upTo task).stepsLeft g tail =
      task.fold (TrimPoint.stepsLeft g upTo.toNat) fun _ ↦ 0 := by
  cases task <;> rfl

end Fold

/-- A step of a call inside its sweep. -/
theorem Call.pays_of_sweepPoint {call : Call} {point : SweepPoint}
    (hpoint : call.sweepPoint = some point) (hwithin : point.Within g (tailOf memory))
    (htail : tailOf memory ≤ g.capacity) :
    (call.step g hasher memory).1.stepsLeft g (tailOf (call.step g hasher memory).2) <
      call.stepsLeft g (tailOf memory) := by
  have hpays := potential_steps.pays memory point hwithin htail
  rw [(Call.step_of_sweepPoint hpoint memory).1]
  have hpositive := SweepPoint.stepsLeft_pos (g := g) (tailOf memory) point
  match call, hpoint with
  | .append entry (.running (.sweep slot point)), rfl =>
    rw [Call.step_append]
    simp only [FenceRuntime.append, BackendCall.exec_map]
    cases htask : ((Recovery.advanceCommittedTail g point).exec memory).1 with
    | running next =>
      rw [htask] at hpays
      exact Nat.add_lt_add_left (Nat.lt_of_lt_of_le (Nat.lt_add_of_pos_left Nat.one_pos) hpays) 2
    | returned value => exact Nat.lt_add_of_pos_right hpositive
  | .recover hostId (.running (.recovery (.sweep scan point))), rfl =>
    rw [Call.step_recover]
    simp only [FenceRuntime.recover, Recovery.recover, BackendCall.exec_map]
    cases htask : ((Recovery.advanceCommittedTail g point).exec memory).1 with
    | running next =>
      rw [htask] at hpays
      exact Nat.add_lt_add_left (Nat.lt_of_lt_of_le (Nat.lt_add_of_pos_left Nat.one_pos) hpays) 2
    | returned value => exact Nat.lt_add_of_pos_right hpositive

/-- A step of a call outside a sweep. -/
theorem Call.pays_of_no_sweep {call : Call} (hpoint : call.sweepPoint = none)
    (hworking : call.working = true) (htail : tailOf memory ≤ g.capacity) :
    (call.step g hasher memory).1.stepsLeft g (tailOf (call.step g hasher memory).2) <
      call.stepsLeft g (tailOf memory) := by
  rw [(Call.step_of_no_sweep hpoint memory).1]
  match call, hworking with
  | .append entry (.running point), _ =>
    have hnot : ∀ slot sweep, point ≠ .sweep slot sweep := by
      rintro slot sweep rfl
      cases hpoint
    rw [Call.step_append, Call.stepsLeft_append]
    exact FenceRuntime.append_pays _ hnot
  | .read hostId index (.running point), _ =>
    rw [Call.step_read, Call.stepsLeft_read]
    exact FenceRuntime.read_pays
  | .trim upTo (.running point), _ =>
    rw [Call.step_trim, Call.stepsLeft_trim]
    exact Compaction.trim_pays htail
  | .recover hostId (.running (.recovery point)), _ =>
    have hnot : ∀ scan sweep, point ≠ .sweep scan sweep := by
      rintro scan sweep rfl
      cases hpoint
    have hpays := @Recovery.recover_pays g hasher memory point (tailOf memory) hnot
    rw [Call.step_recover]
    simp only [FenceRuntime.recover, BackendCall.exec_map]
    cases htask : ((Recovery.recover g hasher point).exec memory).1 with
    | running next =>
      rw [htask] at hpays
      exact Nat.add_lt_add_left hpays 2
    | returned report =>
      rw [htask] at hpays
      exact Nat.lt_add_of_pos_right hpays
  | .recover hostId (.running (.countRuns report)), _ =>
    rw [Call.step_recover]
    simp only [FenceRuntime.recover, Metrics.incrementRecoveryRuns, exec_incrementCounter_fst]
    split_ifs
    · exact Nat.one_lt_two
    · exact Nat.two_pos
  | .recover hostId (.running (.countAbandoned report)), _ =>
    rw [Call.step_recover]
    exact Nat.one_pos

/-- What a request starts has no more to do than its bound. -/
theorem Request.stepsLeft_call_le (request : Request) (tail : ℕ) :
    (request.call g).stepsLeft g tail ≤ request.stepBound g := by
  have hsweep : sweepSteps g tail ≤ (g.capacity + 1) ^ 2 := Nat.pow_le_pow_left (by omega) 2
  cases request with
  | append entry =>
    rw [Request.call, startAppend]
    split_ifs
    · exact Nat.zero_le _
    · exact Nat.add_le_add_left hsweep 13
  | read hostId index =>
    rw [Request.call, startRead]
    split_ifs
    · exact Nat.le_add_left 1 8
    · exact Nat.le_refl _
  | trim upTo => exact Nat.le_refl _
  | recover hostId =>
    simp only [Request.call, Call.stepsLeft, RecoverPoint.stepsLeft, Request.stepBound]
    omega

/-! ### Runs -/

theorem Call.exists_answer {call : Call} (hdone : call.working = false) :
    ∃ answer, call.answer = some answer := by
  cases hanswer : call.answer with
  | none =>
    rw [Call.working, hanswer] at hdone
    cases hdone
  | some answer => exact ⟨answer, rfl⟩

/-- On a pool whose tail is within it, whatever else it holds, every call has returned once it has
taken so many steps as its request is bound to, whatever calls are started and stepped meanwhile. -/
theorem call_returns_of_run {memory : Memory} (htail : tailOf memory ≤ g.capacity)
    (before after : List (Action Request Empty)) (request : Request)
    (hsteps : request.stepBound g ≤ after.countP (Action.isStep
      ((runtimeMachine g hasher).run before ⟨memory, []⟩).threads.length)) :
    ∃ call answer, ((runtimeMachine g hasher).run (before ++ .start request :: after)
        ⟨memory, []⟩).threads[((runtimeMachine g hasher).run before
          ⟨memory, []⟩).threads.length]? = some call ∧
      call.request = request ∧ call.answer = some answer := by
  have hsweeps : Sweeps g (runtimeMachine g hasher) Call.sweepPoint (Call.swept · = true) :=
    runtimeMachine_sweeps
  have hrises : TailRises g Call.sweepPoint (⟨memory, []⟩ : Config Call Memory) :=
    ⟨htail, fun call hmem ↦ by cases hmem⟩
  have hstarted := (hrises.run hsweeps before).apply hsweeps (.start request)
  have hcall : ((runtimeMachine g hasher).apply ((runtimeMachine g hasher).run before ⟨memory, []⟩)
      (.start request)).threads[((runtimeMachine g hasher).run before
        ⟨memory, []⟩).threads.length]? = some (request.call g) := List.getElem?_concat_length
  rw [run_append, run_cons]
  obtain ⟨last, hlast, hdone⟩ := exists_finished (runtimeMachine g hasher) Call.working
    (fun call memory ↦ call.stepsLeft g (tailOf memory)) (TailRises g Call.sweepPoint)
    (fun config action hrises ↦ hrises.apply hsweeps action)
    (fun call memory hdone ↦ by
      obtain ⟨answer, hanswer⟩ := Call.exists_answer hdone
      show (call.step g hasher memory).1.working = false
      rw [Call.step_of_answer hanswer]
      exact hdone)
    (fun config call hrises hcall hworking ↦ by
      cases hpoint : call.sweepPoint with
      | none => exact Call.pays_of_no_sweep hpoint hworking hrises.tail
      | some point =>
        exact Call.pays_of_sweepPoint hpoint
          (hrises.sweeps call (List.mem_of_getElem? hcall) point hpoint) hrises.tail)
    (fun config action call hrises _ _ ↦
      call.stepsLeft_antitone (hrises.tail_le_apply hsweeps action))
    after hstarted hcall ((request.stepsLeft_call_le _).trans hsteps)
  obtain ⟨same, hsame, hrequest⟩ := exists_of_stable (runtimeMachine g hasher)
    (fun call ↦ call.request = request)
    (fun call memory hkept ↦ (call.request_step memory).trans hkept) after hcall
    request.request_call
  obtain rfl := Option.some.inj (hlast.symm.trans hsame)
  obtain ⟨answer, hanswer⟩ := Call.exists_answer hdone
  exact ⟨last, answer, hlast, hrequest, hanswer⟩

/-- A recovery on a pool full of unknown states, next to an append that has stopped. -/
theorem call_returns_of_run_twoPool :
    ∃ call answer, ((runtimeMachine twoPool crc32fast).run
        ([.start (.append firstEntry), .step 0, .step 0] ++ .start (.recover 0) ::
          List.replicate 28 (.step 1))
        ⟨storeWord (fun _ ↦ 9) hdrCommittedTail 8 1, []⟩).threads[1]? = some call ∧
      call.request = .recover 0 ∧ call.answer = some answer :=
  call_returns_of_run (by decide +kernel)
    [.start (.append firstEntry), .step 0, .step 0] (List.replicate 28 (.step 1)) (.recover 0)
    (by decide +kernel)

end Fence
