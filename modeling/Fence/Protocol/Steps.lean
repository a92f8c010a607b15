import Fence.Protocol.Effects

/-!
# Every step has one of the effects

Under `Rely`, one step of a sound call has one of the effects of `Effect` and leaves the call
sound (`Call.step_spec`). The two facts are proved together, routine by routine, one case for each
program point; callers of a routine use its lemma and never unfold it.
-/

set_option autoImplicit false
set_option relaxedAutoImplicit false

namespace Fence

open ByteMemory Interleaving

variable {g : PoolGeometry} {hasher : Hasher} {threads : List Call} {memory : Memory}

/-! ### Reading the pool -/

/-- The state byte a routine loads is that of the pool. -/
theorem load_state {slot : ℕ} (hslot : slot < g.capacity) :
    memory (g.recordOffset slot + recState) = (Pool.ofMemory g memory).state slot :=
  (Pool.ofMemory_state hslot).symm

/-- A word of the metadata a routine loads is that of the pool. -/
theorem loadWord_meta {slot offset : ℕ} (hslot : slot < g.capacity)
    (hfits : offset + 8 ≤ recordMetaSize) :
    loadWord memory (g.recordOffset slot + offset) 8 =
      loadWord ((Pool.ofMemory g memory).slot slot) offset 8 :=
  (Pool.loadWord_ofMemory_slot hslot
    (Nat.le_trans hfits PoolGeometry.recordMetaSize_le)).symm

/-- The length field a routine reads is that of the pool. -/
theorem load_dataLen {slot : ℕ} (hslot : slot < g.capacity) :
    load memory (g.recordOffset slot + recDataLen) 4 =
      load ((Pool.ofMemory g memory).slot slot) recDataLen 4 :=
  (Pool.load_ofMemory_slot hslot
    (Nat.le_trans (by decide : recDataLen + 4 ≤ recordMetaSize)
      PoolGeometry.recordMetaSize_le)).symm

/-- The payload a routine reads is that of the pool. -/
theorem load_payload {slot length : ℕ} (hslot : slot < g.capacity)
    (hlength : length ≤ g.payloadSize) :
    load memory (g.recordOffset slot + recordMetaSize) length =
      load ((Pool.ofMemory g memory).slot slot) recordMetaSize length :=
  (Pool.load_ofMemory_slot hslot (by
    rw [g.recordSize_eq]
    exact Nat.add_le_add_left hlength _)).symm

/-- A store to the state byte of a slot, on the pool. -/
theorem ofMemory_store_state {slot : ℕ} (hslot : slot < g.capacity) (state : UInt8) :
    Pool.ofMemory g (store memory (g.recordOffset slot + recState) [state]) =
      (Pool.ofMemory g memory).storeSlot slot recState [state] :=
  Pool.ofMemory_store_slot hslot
    (Nat.le_trans (by decide : recState + 1 ≤ recordMetaSize) PoolGeometry.recordMetaSize_le)

/-- The offset of an append with a slot below capacity is that of the slot. -/
theorem appendOffset_of_lt {slot : ℕ} (hslot : slot < g.capacity) :
    appendOffset g slot = g.recordOffset slot := by
  rw [appendOffset, asU32_of_lt hslot (Nat.le_of_lt g.capacity_lt)]

/-- The length of a payload that fits is what `append` stores as a `u32`. -/
theorem asU32_of_le_payloadSize {length : ℕ} (hsize : length ≤ g.payloadSize) :
    asU32 length = length := by
  have hrecord := g.recordSize_lt
  have hrecordEq := g.recordSize_eq
  have hlt : length < 2 ^ 32 := by omega
  exact asU32_of_lt hlt (Nat.le_refl _)

/-- An increment of a metrics counter does not reach the pool. -/
theorem ofMemory_exec_incrementCounter {Next : Type} {field : ℕ} {hostId : UInt16} {n : ℕ}
    {next : Next} :
    Pool.ofMemory g ((Metrics.incrementCounter g field hostId n next).exec memory).2 =
      Pool.ofMemory g memory :=
  Pool.ofMemory_store_metrics

theorem exec_incrementCounter_fst {Next : Type} {field : ℕ} {hostId : UInt16} {n : ℕ}
    {next : Next} :
    ((Metrics.incrementCounter g field hostId n next).exec memory).1 = next := rfl

/-- Creating a pool sets both tails to zero and leaves the slots as they were. -/
theorem ofMemory_createHeader (memory : Memory) :
    Pool.ofMemory g (createHeader g memory) = ⟨0, 0, (Pool.ofMemory g memory).slot⟩ := by
  refine Pool.ext ?_ ?_ ?_
  · simp only [createHeader, Pool.ofMemory]
    rw [storeWord, loadWord_store_outside (by simp [hdrCommittedTail, hdrEpoch]), storeWord,
      loadWord_store_outside (by simp [hdrCommittedTail, hdrReserveTail]),
      loadWord_storeWord_self, Nat.zero_mod]
  · simp only [createHeader, Pool.ofMemory]
    rw [storeWord, loadWord_store_outside (by simp [hdrReserveTail, hdrEpoch]),
      loadWord_storeWord_self, Nat.zero_mod]
  · rw [createHeader]
    simp only [storeWord]
    iterate 7 rw [Pool.ofMemory_slot_store_header (by
      simp [hdrMagic, hdrCapacity, hdrRecordSize, hdrMaxHosts, hdrCommittedTail, hdrReserveTail,
        hdrEpoch, headerSize])]

/-! ### The sweep -/

theorem SweepPoint.settle_sound {tail currentTail newTail : ℕ} (hcurrent : currentTail ≤ tail)
    (hnew : currentTail ≤ newTail) (hcapacity : newTail ≤ g.capacity)
    (hstored : ∀ slot < newTail, ∃ entry, Stored threads slot entry) :
    SweepPoint.SoundTask g tail threads (SweepPoint.settle currentTail newTail) := by
  unfold SweepPoint.settle
  split_ifs with hsame
  · exact hcurrent
  · exact ⟨hcurrent, by omega, hcapacity, hstored⟩

theorem SweepPoint.scanFrom_sound {tail currentTail newTail : ℕ} (hcurrent : currentTail ≤ tail)
    (hnew : currentTail ≤ newTail) (hcapacity : newTail ≤ g.capacity)
    (hstored : ∀ slot < newTail, ∃ entry, Stored threads slot entry) :
    SweepPoint.SoundTask g tail threads (SweepPoint.scanFrom g currentTail newTail) := by
  unfold SweepPoint.scanFrom
  split_ifs with hroom
  · exact ⟨hcurrent, hnew, hroom, hstored⟩
  · exact SweepPoint.settle_sound hcurrent hnew hcapacity hstored

/-- A step of a sweep moves the committed tail over stored slots only, or leaves it. -/
theorem Recovery.advanceCommittedTail_spec
    (hrely : Rely g hasher threads (Pool.ofMemory g memory)) {point : SweepPoint}
    (hsound : point.Sound g (Pool.ofMemory g memory).committedTail threads) :
    ∃ newTail, (newTail = (Pool.ofMemory g memory).committedTail ∨
        point = .compareExchange (Pool.ofMemory g memory).committedTail newTail) ∧
      (Pool.ofMemory g memory).committedTail ≤ newTail ∧ newTail ≤ g.capacity ∧
      (∀ slot < newTail, ∃ entry, Stored threads slot entry) ∧
      Pool.ofMemory g ((Recovery.advanceCommittedTail g point).exec memory).2 =
        { Pool.ofMemory g memory with committedTail := newTail } ∧
      SweepPoint.SoundTask g newTail threads
        ((Recovery.advanceCommittedTail g point).exec memory).1 := by
  have hcapacity := hrely.committedTail_le
  have hpublished := hrely.stored_of_lt_tail
  cases point with
  | loadTail =>
    exact ⟨_, Or.inl rfl, Nat.le_refl _, hcapacity, hpublished, rfl,
      SweepPoint.scanFrom_sound (Nat.le_refl _) (Nat.le_refl _) hcapacity hpublished⟩
  | loadState currentTail newTail =>
    obtain ⟨hcurrent, hnew, hroom, hstored⟩ := hsound
    refine ⟨_, Or.inl rfl, Nat.le_refl _, hcapacity, hpublished, rfl, ?_⟩
    simp only [Recovery.advanceCommittedTail, BackendCall.exec,
      asU32_of_lt hroom (Nat.le_of_lt g.capacity_lt), load_state hroom]
    split_ifs with hstate
    · exact SweepPoint.settle_sound hcurrent hnew (Nat.le_of_lt hroom) hstored
    · refine SweepPoint.scanFrom_sound hcurrent (by omega) hroom fun slot hslot ↦ ?_
      rcases Nat.lt_succ_iff_lt_or_eq.mp hslot with hbelow | rfl
      · exact hstored slot hbelow
      · exact hrely.stored_of_committed slot hroom (not_not.mp hstate)
  | compareExchange currentTail newTail =>
    obtain ⟨hcurrent, hnew, hroom, hstored⟩ := hsound
    by_cases hsame : loadWord memory hdrCommittedTail 8 = currentTail
    · have htail : (Pool.ofMemory g memory).committedTail = currentTail := hsame
      refine ⟨newTail, Or.inr (by rw [htail]), by omega, hroom, hstored, ?_, ?_⟩
      · have hcapacityLt := g.capacity_lt
        simp only [Recovery.advanceCommittedTail, BackendCall.exec, if_pos hsame]
        rw [Pool.ofMemory_storeWord_committedTail, Nat.mod_eq_of_lt (by omega)]
      · simp only [Recovery.advanceCommittedTail, BackendCall.exec, if_pos hsame]
        exact Nat.le_refl _
    · refine ⟨_, Or.inl rfl, Nat.le_refl _, hcapacity, hpublished, ?_, ?_⟩
      · simp only [Recovery.advanceCommittedTail, BackendCall.exec, if_neg hsame]
      · simp only [Recovery.advanceCommittedTail, BackendCall.exec, if_neg hsame]
        trivial

/-! ### Steps of calls, routine by routine -/

theorem Call.step_append (entry : Entry) (point : AppendPoint) :
    (Call.append entry (.running point)).step g hasher memory =
      (.append entry ((FenceRuntime.append g hasher entry point).exec memory).1,
        ((FenceRuntime.append g hasher entry point).exec memory).2) :=
  BackendCall.exec_map _ _ _

theorem Call.step_read (hostId : UInt16) (index : UInt64) (point : ReadPoint) :
    (Call.read hostId index (.running point)).step g hasher memory =
      (.read hostId index ((FenceRuntime.read g hasher hostId index.toNat point).exec memory).1,
        ((FenceRuntime.read g hasher hostId index.toNat point).exec memory).2) :=
  BackendCall.exec_map _ _ _

theorem Call.step_trim (upTo : UInt64) (point : TrimPoint) :
    (Call.trim upTo (.running point)).step g hasher memory =
      (.trim upTo ((Compaction.trim g upTo.toNat point).exec memory).1,
        ((Compaction.trim g upTo.toNat point).exec memory).2) :=
  BackendCall.exec_map _ _ _

theorem Call.step_recover (hostId : UInt16) (point : RuntimeRecoverPoint) :
    (Call.recover hostId (.running point)).step g hasher memory =
      (.recover hostId ((FenceRuntime.recover g hasher hostId point).exec memory).1,
        ((FenceRuntime.recover g hasher hostId point).exec memory).2) :=
  BackendCall.exec_map _ _ _

/-- The request a call was started with. -/
def Call.request : Call → Request
  | .append entry _ => .append entry
  | .read hostId index _ => .read hostId index
  | .trim upTo _ => .trim upTo
  | .recover hostId _ => .recover hostId

theorem Request.request_call (request : Request) : (request.call g).request = request := by
  cases request <;> rfl

theorem Call.request_step (call : Call) (memory : Memory) :
    (call.step g hasher memory).1.request = call.request := by
  match call with
  | .append entry (.running point) => rw [Call.step_append]; rfl
  | .read hostId index (.running point) => rw [Call.step_read]; rfl
  | .trim upTo (.running point) => rw [Call.step_trim]; rfl
  | .recover hostId (.running point) => rw [Call.step_recover]; rfl
  | .append _ (.returned _) => rfl
  | .read _ _ (.returned _) => rfl
  | .trim _ (.returned _) => rfl
  | .recover _ (.returned _) => rfl

variable (g hasher threads memory) in
/-- A step to a call and a memory has an effect and leaves the call sound. -/
def StepSpec (before after : Call) (later : Memory) : Prop :=
  Effect g hasher threads (Pool.ofMemory g memory) before after (Pool.ofMemory g later) ∧
    after.Sound g hasher (Pool.ofMemory g later).committedTail threads

/-- A step that leaves the pool as it is. -/
theorem StepSpec.of_quiet {before after : Call} {later : Memory} (hquiet : Quiet before after)
    (hpool : Pool.ofMemory g later = Pool.ofMemory g memory)
    (hsound : after.Sound g hasher (Pool.ofMemory g memory).committedTail threads) :
    StepSpec g hasher threads memory before after later := by
  refine ⟨?_, by rwa [hpool]⟩
  rw [hpool]
  exact .quiet hquiet

/-- A step of an append that stores the next field of its record. -/
theorem StepSpec.of_fill {before : Call} {later : Memory} {entry : Entry} {slot stage : ℕ}
    {field : RecordField} {point : AppendPoint} (hslot : slot < g.capacity)
    (hsize : entry.data.length ≤ g.payloadSize)
    (hfield : field ∈ recordFields hasher entry slot)
    (hbefore : before.reservation = some ⟨slot, entry, field.stage⟩)
    (hprogress : point.progress = some (slot, stage))
    (hstage : stage = field.stage + 1 ∨ field.stage = 4 ∧ stage = 6 ∧ entry.data = [])
    (hbeforeUndo : before.pendingUndo = false)
    (hsound : ∀ tail, point.Sound g tail threads)
    (hstore : later = store memory (appendOffset g slot + field.offset) field.bytes) :
    StepSpec g hasher threads memory before (.append entry (.running point)) later := by
  have hafterUndo : (Call.append entry (.running point)).pendingUndo = false := by
    cases point <;> first | rfl | simp [AppendPoint.progress] at hprogress
  refine ⟨?_, hsize, hsound _⟩
  rw [hstore, appendOffset_of_lt hslot,
    Pool.ofMemory_store_slot hslot (recordFields_bounds hsize hfield)]
  exact .fill hfield hbefore (by simp [Call.reservation, hprogress]) hstage hbeforeUndo hafterUndo
    hslot

/-- A step of an append. -/
theorem Call.append_stepSpec (hrely : Rely g hasher threads (Pool.ofMemory g memory))
    {entry : Entry} {point : AppendPoint} (hsize : entry.data.length ≤ g.payloadSize)
    (hsound : point.Sound g (Pool.ofMemory g memory).committedTail threads) :
    StepSpec g hasher threads memory (.append entry (.running point))
      ((Call.append entry (.running point)).step g hasher memory).1
      ((Call.append entry (.running point)).step g hasher memory).2 := by
  rw [Call.step_append]
  cases point with
  | reserve =>
    have hpool : Pool.ofMemory g ((FenceRuntime.append g hasher entry .reserve).exec memory).2 =
        { Pool.ofMemory g memory with
          reserveTail := ((Pool.ofMemory g memory).reserveTail + 1) % 2 ^ 64 } := by
      simp only [FenceRuntime.append, BackendCall.exec]
      rw [Pool.ofMemory_storeWord_reserveTail, Nat.mod_mod]
      rfl
    refine ⟨?_, ?_⟩
    · rw [hpool]
      exact .reserve entry hsize
    · simp only [FenceRuntime.append, BackendCall.exec]
      split_ifs with hfull
      · exact ⟨hsize, trivial⟩
      · exact ⟨hsize, Nat.lt_of_not_le hfull⟩
  | undo slot =>
    have hpool : Pool.ofMemory g ((FenceRuntime.append g hasher entry (.undo slot)).exec memory).2 =
        { Pool.ofMemory g memory with
          reserveTail := ((Pool.ofMemory g memory).reserveTail + (2 ^ 64 - 1)) % 2 ^ 64 } := by
      simp only [FenceRuntime.append, BackendCall.exec]
      rw [Pool.ofMemory_storeWord_reserveTail, Nat.mod_mod]
      rfl
    refine ⟨?_, hsize, trivial⟩
    rw [hpool]
    exact .undo entry slot
  | countFailed slot =>
    exact .of_quiet ⟨Or.inl rfl, rfl⟩ ofMemory_exec_incrementCounter trivial
  | storeWriting slot =>
    have hslot : slot < g.capacity := hsound
    refine ⟨?_, hsize, hslot⟩
    simp only [FenceRuntime.append, BackendCall.exec]
    rw [appendOffset_of_lt hslot, ofMemory_store_state hslot]
    exact .begin entry slot hslot
  | storeTerm slot =>
    have hslot : slot < g.capacity := hsound
    have hfield : ⟨1, recTerm, leBytes 8 entry.term.toNat⟩ ∈ recordFields hasher entry slot := by
      simp [recordFields]
    exact .of_fill hslot hsize hfield rfl rfl (Or.inl rfl) rfl (fun _ ↦ hslot) rfl
  | storeIndex slot =>
    have hslot : slot < g.capacity := hsound
    have hfield : ⟨2, recIndex, leBytes 8 (slot + 1)⟩ ∈ recordFields hasher entry slot := by
      simp [recordFields]
    exact .of_fill hslot hsize hfield rfl rfl (Or.inl rfl) rfl (fun _ ↦ hslot) rfl
  | storeWriterId slot =>
    have hslot : slot < g.capacity := hsound
    have hfield : ⟨3, recWriterId, leBytes 8 entry.hostId.toNat⟩ ∈
        recordFields hasher entry slot := by
      simp [recordFields]
    exact .of_fill hslot hsize hfield rfl rfl (Or.inl rfl) rfl (fun _ ↦ hslot) rfl
  | writeDataLen slot =>
    have hslot : slot < g.capacity := hsound
    have hfield : ⟨4, recDataLen, leBytes 4 entry.data.length⟩ ∈
        recordFields hasher entry slot := by
      simp [recordFields]
    simp only [FenceRuntime.append, BackendCall.exec, asU32_of_le_payloadSize hsize]
    split_ifs with hempty
    · exact .of_fill hslot hsize hfield rfl rfl (Or.inr ⟨rfl, rfl, hempty⟩) rfl (fun _ ↦ hslot) rfl
    · exact .of_fill hslot hsize hfield rfl rfl (Or.inl rfl) rfl (fun _ ↦ hslot) rfl
  | writePayload slot =>
    have hslot : slot < g.capacity := hsound
    have hfield : ⟨5, recordMetaSize, entry.data⟩ ∈ recordFields hasher entry slot := by
      simp [recordFields]
    exact .of_fill hslot hsize hfield rfl rfl (Or.inl rfl) rfl (fun _ ↦ hslot) rfl
  | storeChecksum slot =>
    have hslot : slot < g.capacity := hsound
    have hfield : ⟨6, recChecksum, leBytes 8
        (Checksum.compute hasher entry.term.toNat (slot + 1) entry.data)⟩ ∈
        recordFields hasher entry slot := by
      simp [recordFields]
    exact .of_fill hslot hsize hfield rfl rfl (Or.inl rfl) rfl (fun _ ↦ hslot) rfl
  | flushRecord slot =>
    exact .of_quiet ⟨Or.inr ⟨slot, entry, 7, 8, rfl, rfl, by omega, by omega, Or.inl (by omega)⟩,
      rfl⟩ rfl ⟨hsize, hsound⟩
  | storeCommitted slot =>
    have hslot : slot < g.capacity := hsound
    refine ⟨?_, hsize, hslot⟩
    simp only [FenceRuntime.append, BackendCall.exec]
    rw [appendOffset_of_lt hslot, ofMemory_store_state hslot]
    exact .commit entry slot hslot
  | flushState slot =>
    have hslot : slot < g.capacity := hsound
    exact .of_quiet ⟨Or.inr ⟨slot, entry, 9, 10, rfl, rfl, by omega, by omega, Or.inr (by omega)⟩,
      rfl⟩ rfl ⟨hsize, hslot, trivial⟩
  | sweep slot point =>
    obtain ⟨hslot, hpoint⟩ := hsound
    obtain ⟨newTail, hmoved, hle, hcapacity, hstored, hpool, htask⟩ :=
      Recovery.advanceCommittedTail_spec hrely hpoint
    simp only [FenceRuntime.append, BackendCall.exec_map]
    refine ⟨?_, ?_⟩
    · rw [hpool]
      refine .publish ?_ (hmoved.imp_right (congrArg some)) hle hcapacity hstored
      cases ((Recovery.advanceCommittedTail g point).exec memory).1 with
      | running next => exact ⟨Or.inl rfl, rfl⟩
      | returned value =>
        exact ⟨Or.inr ⟨slot, entry, 10, 11, rfl, rfl, by omega, by omega, Or.inr (by omega)⟩, rfl⟩
    · rw [hpool]
      cases hnext : ((Recovery.advanceCommittedTail g point).exec memory).1 with
      | running next =>
        rw [hnext] at htask
        exact ⟨hsize, hslot, htask⟩
      | returned value => exact ⟨hsize, hslot⟩
  | countAppends slot =>
    have hslot : slot < g.capacity := hsound
    exact .of_quiet ⟨Or.inr ⟨slot, entry, 11, 12, rfl, rfl, by omega, by omega,
      Or.inr (by omega)⟩, rfl⟩ ofMemory_exec_incrementCounter ⟨hsize, hslot⟩
  | countBytes slot =>
    have hslot : slot < g.capacity := hsound
    exact .of_quiet ⟨Or.inr ⟨slot, entry, 12, 13, rfl, rfl, by omega, by omega,
      Or.inr (by omega)⟩, rfl⟩ ofMemory_exec_incrementCounter ⟨hsize, by omega, hslot⟩

/-- The checksum test of a reader that loaded the record of an entry. -/
theorem checkRead_of_complete (entry : Entry) (slot writerId : ℕ) :
    checkRead hasher entry.term.toNat (slot + 1) writerId entry.data
        (Checksum.compute hasher entry.term.toNat (slot + 1) entry.data) =
      .running (.countRead ⟨slot + 1, entry.term.toNat, writerId, entry.data⟩) := by
  rw [checkRead, if_pos (Checksum.verify_compute _ _ _)]

/-- A step of a read: it loads one more field of the entry stored in its slot. -/
theorem FenceRuntime.read_sound (hrely : Rely g hasher threads (Pool.ofMemory g memory))
    {hostId : UInt16} {index : ℕ} {point : ReadPoint}
    (hsound : point.Sound hasher (Pool.ofMemory g memory).committedTail threads index) :
    ReadPoint.SoundTask hasher (Pool.ofMemory g memory).committedTail threads index
      ((FenceRuntime.read g hasher hostId index point).exec memory).1 := by
  have hfields : ∀ {slot entry}, Stored threads slot entry → _ := fun {slot entry} hstored ↦
    hrely.complete_of_stored slot entry hstored
  cases point with
  | loadTailOfZero => trivial
  | loadTail =>
    have htail := hrely.committedTail_le
    have hcapacity := g.capacity_lt
    simp only [FenceRuntime.read, BackendCall.exec]
    split_ifs with hbeyond
    · trivial
    · have hindex : index ≤ (Pool.ofMemory g memory).committedTail := Nat.le_of_not_lt hbeyond
      have hpos : 0 < index := hsound
      have hlt : index - 1 < 2 ^ 32 := by omega
      rw [asU32_of_lt hlt (Nat.le_refl _)]
      exact ⟨by omega, by omega⟩
  | loadState slot =>
    obtain ⟨hindex, htail⟩ := hsound
    have hslot := Nat.lt_of_lt_of_le htail hrely.committedTail_le
    simp only [FenceRuntime.read, BackendCall.exec, load_state hslot]
    split_ifs with hstate
    · obtain ⟨entry, hstored⟩ := hrely.stored_of_committed slot hslot hstate
      exact ⟨hindex, entry, hstored, trivial⟩
    · trivial
  | loadTerm slot =>
    obtain ⟨hindex, entry, hstored, -⟩ := hsound
    obtain ⟨hslot, -, hcomplete⟩ := hfields hstored
    exact ⟨hindex, entry, hstored, (loadWord_meta hslot (by decide)).trans hcomplete.term⟩
  | loadIndex slot term =>
    obtain ⟨hindex, entry, hstored, hterm⟩ := hsound
    obtain ⟨hslot, -, hcomplete⟩ := hfields hstored
    exact ⟨hindex, entry, hstored, hterm,
      (loadWord_meta hslot (by decide)).trans hcomplete.index⟩
  | loadWriterId slot term storedIndex =>
    obtain ⟨hindex, entry, hstored, hterm, hstoredIndex⟩ := hsound
    obtain ⟨hslot, -, hcomplete⟩ := hfields hstored
    exact ⟨hindex, entry, hstored, hterm, hstoredIndex,
      (loadWord_meta hslot (by decide)).trans hcomplete.writerId⟩
  | readDataLen slot term storedIndex writerId =>
    obtain ⟨hindex, entry, hstored, hterm, hstoredIndex, hwriter⟩ := hsound
    obtain ⟨hslot, -, hcomplete⟩ := hfields hstored
    exact ⟨hindex, entry, hstored, hterm, hstoredIndex, hwriter,
      (congrArg leValue (load_dataLen hslot)).trans hcomplete.dataLen⟩
  | loadChecksum slot term storedIndex writerId dataLen =>
    obtain ⟨hindex, entry, hstored, hterm, hstoredIndex, hwriter, hlength⟩ := hsound
    obtain ⟨hslot, hsize, hcomplete⟩ := hfields hstored
    have hchecksum : loadWord memory (g.recordOffset slot + recChecksum) 8 = _ :=
      (loadWord_meta hslot (by decide)).trans hcomplete.checksum
    simp only [FenceRuntime.read, BackendCall.exec, hchecksum]
    rw [hlength, Nat.min_eq_left hsize]
    split_ifs with hdata
    · exact ⟨hindex, entry, hstored, hterm, hstoredIndex, hwriter, rfl, rfl⟩
    · have hempty : [] = entry.data :=
        (List.eq_nil_of_length_eq_zero (Nat.eq_zero_of_not_pos hdata)).symm
      subst hterm hstoredIndex hwriter
      rw [hempty, checkRead_of_complete]
      exact ⟨slot, hindex, entry, hstored, rfl⟩
  | readPayload slot term storedIndex writerId payloadLen storedChecksum =>
    obtain ⟨hindex, entry, hstored, rfl, rfl, rfl, rfl, rfl⟩ := hsound
    obtain ⟨hslot, hsize, hcomplete⟩ := hfields hstored
    have hpayload : load memory (g.recordOffset slot + recordMetaSize) entry.data.length = _ :=
      (load_payload hslot hsize).trans hcomplete.payload
    simp only [FenceRuntime.read, BackendCall.exec, hpayload]
    rw [checkRead_of_complete]
    exact ⟨slot, hindex, entry, hstored, rfl⟩
  | countMismatch => exact hsound.elim
  | countRead record => exact hsound

/-- A read leaves the pool alone. -/
theorem FenceRuntime.ofMemory_exec_read {hostId : UInt16} {index : ℕ} {point : ReadPoint} :
    Pool.ofMemory g ((FenceRuntime.read g hasher hostId index point).exec memory).2 =
      Pool.ofMemory g memory := by
  cases point with
  | countMismatch => exact ofMemory_exec_incrementCounter
  | countRead record => exact ofMemory_exec_incrementCounter
  | _ => rfl

/-- A step of a read. -/
theorem Call.read_stepSpec (hrely : Rely g hasher threads (Pool.ofMemory g memory))
    {hostId : UInt16} {index : UInt64} {point : ReadPoint}
    (hsound : point.Sound hasher (Pool.ofMemory g memory).committedTail threads index.toNat) :
    StepSpec g hasher threads memory (.read hostId index (.running point))
      ((Call.read hostId index (.running point)).step g hasher memory).1
      ((Call.read hostId index (.running point)).step g hasher memory).2 := by
  rw [Call.step_read]
  exact .of_quiet ⟨Or.inl rfl, rfl⟩ FenceRuntime.ofMemory_exec_read
    (FenceRuntime.read_sound hrely hsound)

theorem TrimPoint.head_sound {tail upTo slot trimmedCount : ℕ} (hbound : upTo ≤ tail) :
    TrimPoint.SoundTask tail threads upTo (TrimPoint.head upTo slot trimmedCount) := by
  unfold TrimPoint.head
  split_ifs with hslot
  · exact ⟨Nat.lt_of_lt_of_le hslot (asU32_le _), hbound⟩
  · exact hbound

/-- A step of a trim. -/
theorem Call.trim_stepSpec (hrely : Rely g hasher threads (Pool.ofMemory g memory))
    {upTo : UInt64} {point : TrimPoint}
    (hsound : point.Sound (Pool.ofMemory g memory).committedTail threads upTo.toNat) :
    StepSpec g hasher threads memory (.trim upTo (.running point))
      ((Call.trim upTo (.running point)).step g hasher memory).1
      ((Call.trim upTo (.running point)).step g hasher memory).2 := by
  rw [Call.step_trim]
  have hcapacity := hrely.committedTail_le
  have hquiet : ∀ task, Quiet (.trim upTo (.running point)) (.trim upTo task) :=
    fun _ ↦ ⟨Or.inl rfl, rfl⟩
  cases point with
  | loadTail =>
    refine .of_quiet (hquiet _) rfl ?_
    simp only [Compaction.trim, BackendCall.exec, Call.Sound]
    split_ifs with hbeyond
    · trivial
    · exact TrimPoint.head_sound (Nat.le_of_not_lt hbeyond)
  | loadState slot trimmedCount =>
    obtain ⟨hbound, htail⟩ := hsound
    have hslot : slot < g.capacity := by omega
    refine .of_quiet (hquiet _) rfl ?_
    simp only [Compaction.trim, BackendCall.exec, Call.Sound, load_state hslot]
    split_ifs with hstate
    · obtain ⟨entry, hstored⟩ := hrely.stored_of_committed slot hslot hstate
      exact ⟨hbound, htail, entry, hstored, trivial⟩
    · exact TrimPoint.head_sound htail
  | storeAbandoned slot trimmedCount =>
    obtain ⟨hbound, htail, entry, hstored, -⟩ := hsound
    have hslot : slot < g.capacity := by omega
    refine ⟨?_, hbound, ?_⟩
    · simp only [Compaction.trim, BackendCall.exec]
      rw [ofMemory_store_state hslot]
      exact .abandon (hquiet _) rfl hslot ⟨entry, hstored.begun⟩
    · simp only [Compaction.trim, BackendCall.exec]
      rw [ofMemory_store_state hslot]
      exact htail
  | flushAbandoned slot trimmedCount =>
    exact .of_quiet (hquiet _) rfl (TrimPoint.head_sound hsound.2)

/-! ### Recoveries -/

theorem Scan.head_sound {tail : ℕ} {scan : Scan} (hscan : scan.slotsToScan ≤ g.capacity) :
    RecoverPoint.SoundTask g hasher tail threads scan.head := by
  unfold Scan.head
  split_ifs with hslot
  · exact ⟨Nat.lt_of_lt_of_le hslot (asU32_le _), hscan⟩
  · trivial

/-- The checksum test of a recovery that loaded the record of an entry passes. -/
theorem Scan.check_sound {tail : ℕ} {scan : Scan} (hscan : scan.slotsToScan ≤ g.capacity)
    (entry : Entry) :
    RecoverPoint.SoundTask g hasher tail threads
      (scan.check hasher entry.term.toNat (scan.slot + 1) entry.data
        (Checksum.compute hasher entry.term.toNat (scan.slot + 1) entry.data)) := by
  rw [Scan.check, if_pos (Checksum.verify_compute _ _ _)]
  exact Scan.head_sound hscan

/-- A step of a recovery leaves the pool as it is, marks the slot of a begun append abandoned,
or is a step of its sweep. -/
theorem Recovery.recover_spec (hrely : Rely g hasher threads (Pool.ofMemory g memory))
    {point : RecoverPoint}
    (hsound : point.Sound g hasher (Pool.ofMemory g memory).committedTail threads) :
    (Pool.ofMemory g ((Recovery.recover g hasher point).exec memory).2 = Pool.ofMemory g memory ∨
      (∃ scan entry, point = .storeAbandoned scan ∧ scan.slot < g.capacity ∧
        Begun threads scan.slot entry ∧
        Pool.ofMemory g ((Recovery.recover g hasher point).exec memory).2 =
          (Pool.ofMemory g memory).storeSlot scan.slot recState [stateAbandoned]) ∨
      ∃ newTail, (newTail = (Pool.ofMemory g memory).committedTail ∨ ∃ scan,
          point = .sweep scan (.compareExchange (Pool.ofMemory g memory).committedTail newTail)) ∧
        (Pool.ofMemory g memory).committedTail ≤ newTail ∧ newTail ≤ g.capacity ∧
        (∀ slot < newTail, ∃ entry, Stored threads slot entry) ∧
        Pool.ofMemory g ((Recovery.recover g hasher point).exec memory).2 =
          { Pool.ofMemory g memory with committedTail := newTail }) ∧
      RecoverPoint.SoundTask g hasher
        (Pool.ofMemory g ((Recovery.recover g hasher point).exec memory).2).committedTail threads
        ((Recovery.recover g hasher point).exec memory).1 := by
  cases point with
  | loadReserveTail =>
    exact ⟨Or.inl rfl, Scan.head_sound (Nat.min_le_right _ _)⟩
  | loadState scan =>
    obtain ⟨hslot, hscan⟩ := hsound
    have hcapacity := Nat.lt_of_lt_of_le hslot hscan
    refine ⟨Or.inl rfl, ?_⟩
    simp only [Recovery.recover, BackendCall.exec, load_state hcapacity]
    split_ifs with hwriting hcommitted hknown
    · exact ⟨⟨hslot, hscan⟩, hrely.begun_of_not_free _ hcapacity (by rw [hwriting]; decide)⟩
    · obtain ⟨entry, hstored⟩ := hrely.stored_of_committed _ hcapacity hcommitted
      exact ⟨⟨hslot, hscan⟩, entry, hstored, trivial⟩
    · exact Scan.head_sound hscan
    · exact ⟨⟨hslot, hscan⟩, hrely.begun_of_not_free _ hcapacity fun hfree ↦
        hknown (Or.inl hfree)⟩
  | storeAbandoned scan =>
    obtain ⟨⟨hslot, hscan⟩, entry, hbegun⟩ := hsound
    have hcapacity := Nat.lt_of_lt_of_le hslot hscan
    have hpool : Pool.ofMemory g ((Recovery.recover g hasher (.storeAbandoned scan)).exec
        memory).2 = (Pool.ofMemory g memory).storeSlot scan.slot recState [stateAbandoned] := by
      simp only [Recovery.recover, BackendCall.exec]
      exact ofMemory_store_state hcapacity stateAbandoned
    exact ⟨Or.inr (Or.inl ⟨scan, entry, rfl, hcapacity, hbegun, hpool⟩), hslot, hscan⟩
  | flushAbandoned scan => exact ⟨Or.inl rfl, Scan.head_sound hsound.2⟩
  | loadTerm scan =>
    obtain ⟨hscan, entry, hstored, -⟩ := hsound
    obtain ⟨hslot, -, hcomplete⟩ := hrely.complete_of_stored _ _ hstored
    exact ⟨Or.inl rfl, hscan, entry, hstored,
      (loadWord_meta hslot (by decide)).trans hcomplete.term⟩
  | loadIndex scan term =>
    obtain ⟨hscan, entry, hstored, hterm⟩ := hsound
    obtain ⟨hslot, -, hcomplete⟩ := hrely.complete_of_stored _ _ hstored
    exact ⟨Or.inl rfl, hscan, entry, hstored, hterm,
      (loadWord_meta hslot (by decide)).trans hcomplete.index⟩
  | readDataLen scan term index =>
    obtain ⟨hscan, entry, hstored, hterm, hindex⟩ := hsound
    obtain ⟨hslot, -, hcomplete⟩ := hrely.complete_of_stored _ _ hstored
    exact ⟨Or.inl rfl, hscan, entry, hstored, hterm, hindex,
      (congrArg leValue (load_dataLen hslot)).trans hcomplete.dataLen⟩
  | loadChecksum scan term index dataLen =>
    obtain ⟨hscan, entry, hstored, rfl, rfl, rfl⟩ := hsound
    obtain ⟨hslot, hsize, hcomplete⟩ := hrely.complete_of_stored _ _ hstored
    have hchecksum : loadWord memory (g.recordOffset scan.slot + recChecksum) 8 = _ :=
      (loadWord_meta hslot (by decide)).trans hcomplete.checksum
    refine ⟨Or.inl rfl, ?_⟩
    simp only [Recovery.recover, BackendCall.exec, hchecksum]
    rw [Nat.min_eq_left hsize]
    split_ifs with hdata
    · exact ⟨hscan, entry, hstored, rfl, rfl, rfl, rfl⟩
    · have hempty : [] = entry.data :=
        (List.eq_nil_of_length_eq_zero (Nat.eq_zero_of_not_pos hdata)).symm
      rw [hempty]
      exact Scan.check_sound hscan.2 entry
  | readPayload scan term index payloadLen storedChecksum =>
    obtain ⟨hscan, entry, hstored, rfl, rfl, rfl, rfl⟩ := hsound
    obtain ⟨hslot, hsize, hcomplete⟩ := hrely.complete_of_stored _ _ hstored
    have hpayload : load memory (g.recordOffset scan.slot + recordMetaSize)
        entry.data.length = _ := (load_payload hslot hsize).trans hcomplete.payload
    refine ⟨Or.inl rfl, ?_⟩
    simp only [Recovery.recover, BackendCall.exec, hpayload]
    exact Scan.check_sound hscan.2 entry
  | sweep scan point =>
    obtain ⟨newTail, hmoved, hle, hcapacity, hstored, hpool, htask⟩ :=
      Recovery.advanceCommittedTail_spec hrely hsound
    simp only [Recovery.recover, BackendCall.exec_map]
    refine ⟨Or.inr (Or.inr ⟨newTail, hmoved.imp_right fun hpoint ↦ ?_, hle, hcapacity, hstored,
      hpool⟩), ?_⟩
    · exact ⟨scan, congrArg (RecoverPoint.sweep scan) hpoint⟩
    rw [hpool]
    cases hnext : ((Recovery.advanceCommittedTail g point).exec memory).1 with
    | running next =>
      rw [hnext] at htask
      exact htask
    | returned value => trivial

/-- A step of a recovery. -/
theorem Call.recover_stepSpec (hrely : Rely g hasher threads (Pool.ofMemory g memory))
    {hostId : UInt16} {point : RuntimeRecoverPoint}
    (hsound : (Call.recover hostId (.running point)).Sound g hasher
      (Pool.ofMemory g memory).committedTail threads) :
    StepSpec g hasher threads memory (.recover hostId (.running point))
      ((Call.recover hostId (.running point)).step g hasher memory).1
      ((Call.recover hostId (.running point)).step g hasher memory).2 := by
  rw [Call.step_recover]
  have hquiet : ∀ before task, Quiet (.recover hostId before) (.recover hostId task) :=
    fun _ _ ↦ ⟨Or.inl rfl, rfl⟩
  cases point with
  | recovery point =>
    obtain ⟨hpool, htask⟩ := Recovery.recover_spec hrely hsound
    simp only [FenceRuntime.recover, BackendCall.exec_map]
    refine ⟨?_, ?_⟩
    · rcases hpool with hpool | ⟨scan, entry, rfl, hslot, hbegun, hpool⟩ |
        ⟨newTail, hmoved, hle, hcapacity, hstored, hpool⟩
      · rw [hpool]
        exact .quiet (hquiet _ _)
      · rw [hpool]
        exact .abandon (hquiet _ _) rfl hslot ⟨entry, hbegun⟩
      · rw [hpool]
        refine .publish (hquiet _ _) (hmoved.imp_right ?_) hle hcapacity hstored
        rintro ⟨scan, rfl⟩
        rfl
    · cases hnext : ((Recovery.recover g hasher point).exec memory).1 with
      | running next =>
        rw [hnext] at htask
        exact htask
      | returned report => trivial
  | countRuns report =>
    refine .of_quiet (hquiet _ _) ofMemory_exec_incrementCounter ?_
    simp only [FenceRuntime.recover, Metrics.incrementRecoveryRuns, exec_incrementCounter_fst]
    split_ifs <;> trivial
  | countAbandoned report =>
    exact .of_quiet (hquiet _ _) ofMemory_exec_incrementCounter trivial

/-! ### The step lemma -/

/-- Every step of a sound call has one of the effects and leaves the call sound. -/
theorem Call.step_spec (hrely : Rely g hasher threads (Pool.ofMemory g memory)) {call : Call}
    (hsound : call.Sound g hasher (Pool.ofMemory g memory).committedTail threads) :
    StepSpec g hasher threads memory call (call.step g hasher memory).1
      (call.step g hasher memory).2 := by
  match call with
  | .append entry (.running point) => exact Call.append_stepSpec hrely hsound.1 hsound.2
  | .read hostId index (.running point) => exact Call.read_stepSpec hrely hsound
  | .trim upTo (.running point) => exact Call.trim_stepSpec hrely hsound
  | .recover hostId (.running point) => exact Call.recover_stepSpec hrely hsound
  | .append _ (.returned _) => exact .of_quiet (Quiet.refl _) rfl hsound
  | .read _ _ (.returned _) => exact .of_quiet (Quiet.refl _) rfl hsound
  | .trim _ (.returned _) => exact .of_quiet (Quiet.refl _) rfl hsound
  | .recover _ (.returned _) => exact .of_quiet (Quiet.refl _) rfl hsound

/-- A call that was just started is sound. -/
theorem Request.call_sound (request : Request) (tail : ℕ) :
    (request.call g).Sound g hasher tail threads := by
  cases request with
  | append entry =>
    simp only [Request.call, startAppend]
    split_ifs with hsize
    · trivial
    · exact ⟨Nat.le_of_not_lt hsize, trivial⟩
  | read hostId index =>
    simp only [Request.call, startRead]
    split_ifs with hzero
    · exact hzero
    · exact Nat.pos_of_ne_zero hzero
  | trim upTo => trivial
  | recover hostId => trivial

end Fence
