import Fence.Core.Routine
import Fence.Protocol.RecoveryOutcome
import Fence.Protocol.Steps

/-!
# A read that runs alone

`readOutcome` says what a read returns that runs alone, on any memory at all, and `countOutcome`
what memory it leaves: that of before, with a counter moved on (`read_ends`). `Reads` says that a
read returns a record, whatever host makes it. It returns the record of a complete slot whose state
is committed and that lies below the committed tail (`reads_of_complete`), and a record of no other
slot (`Reads.visible`).
-/

set_option autoImplicit false
set_option relaxedAutoImplicit false

namespace Fence

open ByteMemory Interleaving

variable {g : PoolGeometry} {hasher : Hasher}

/-! ### What a read returns -/

section Outcome

variable (g : PoolGeometry) (hasher : Hasher) (memory : Memory)

/-- The record in a slot, its payload clamped to what fits. -/
def decodedRecord (slot : ℕ) : Record where
  index := loadWord memory (g.recordOffset slot + recIndex) 8
  term := loadWord memory (g.recordOffset slot + recTerm) 8
  writerId := loadWord memory (g.recordOffset slot + recWriterId) 8
  data := load memory (g.recordOffset slot + recordMetaSize) (payloadLength g memory slot)

/-- What a read of a slot below the tail returns. -/
def slotOutcome (index slot : ℕ) : Except FenceError (Option Record) :=
  if stateByte g memory slot = stateCommitted then
    if checksumOk g hasher memory slot then .ok (some (decodedRecord g memory slot))
    else .error (.checksumMismatch index)
  else .ok none

/-- What a read of an index returns. -/
def readOutcome (index : ℕ) : Except FenceError (Option Record) :=
  if index = 0 ∨ loadWord memory hdrCommittedTail 8 < index then
    .error (.indexOutOfBounds index (loadWord memory hdrCommittedTail 8))
  else slotOutcome g hasher memory index (asU32 (index - 1))

/-- The memory a read leaves that returns the outcome. -/
def countOutcome (hostId : UInt16) : Except FenceError (Option Record) → Memory
  | .ok (some _) => ((Metrics.incrementReads g hostId ()).exec memory).2
  | .error (.checksumMismatch _) =>
    ((Metrics.incrementChecksumFailures g hostId ()).exec memory).2
  | _ => memory

end Outcome

/-- A read of an index up to the committed tail is a read of its slot. -/
theorem readOutcome_of_lt {memory : Memory} {slot : ℕ} (hslot : slot < g.capacity)
    (htail : slot < loadWord memory hdrCommittedTail 8) :
    readOutcome g hasher memory (slot + 1) = slotOutcome g hasher memory (slot + 1) slot := by
  have hplace : asU32 (slot + 1 - 1) = slot := asU32_of_lt hslot (Nat.le_of_lt g.capacity_lt)
  rw [readOutcome, if_neg (by omega), hplace]

section Ends

variable (g hasher)

/-- A read that has loaded a record counts it, or counts the mismatch. -/
theorem checkRead_ends (memory : Memory) (hostId : UInt16) (index : ℕ) {slot : ℕ}
    (hstate : stateByte g memory slot = stateCommitted) :
    (routineMachine (FenceRuntime.read g hasher hostId index)).Ends
      (checkRead hasher (loadWord memory (g.recordOffset slot + recTerm) 8)
        (loadWord memory (g.recordOffset slot + recIndex) 8)
        (loadWord memory (g.recordOffset slot + recWriterId) 8)
        (load memory (g.recordOffset slot + recordMetaSize) (payloadLength g memory slot))
        (loadWord memory (g.recordOffset slot + recChecksum) 8)) memory
      (.returned (slotOutcome g hasher memory index slot))
      (countOutcome g memory hostId (slotOutcome g hasher memory index slot)) := by
  have hchecked : checkRead hasher (loadWord memory (g.recordOffset slot + recTerm) 8)
      (loadWord memory (g.recordOffset slot + recIndex) 8)
      (loadWord memory (g.recordOffset slot + recWriterId) 8)
      (load memory (g.recordOffset slot + recordMetaSize) (payloadLength g memory slot))
      (loadWord memory (g.recordOffset slot + recChecksum) 8) =
        if checksumOk g hasher memory slot then .running (.countRead (decodedRecord g memory slot))
        else .running .countMismatch := rfl
  rw [hchecked, slotOutcome, if_pos hstate]
  split_ifs with hok
  · exact .step (.refl _ _)
  · exact .step (.refl _ _)

/-- A read of a slot loads its state and, when that is committed, its fields one by one. -/
theorem read_slot_ends (memory : Memory) (hostId : UInt16) (index slot : ℕ) :
    (routineMachine (FenceRuntime.read g hasher hostId index)).Ends (.running (.loadState slot))
      memory (.returned (slotOutcome g hasher memory index slot))
      (countOutcome g memory hostId (slotOutcome g hasher memory index slot)) := by
  refine .step ?_
  simp only [routineMachine_step_running, FenceRuntime.read, BackendCall.exec]
  by_cases hstate : memory (g.recordOffset slot + recState) = stateCommitted
  · have hchecked := checkRead_ends g hasher memory hostId index hstate
    rw [if_pos hstate]
    refine .step ?_
    simp only [routineMachine_step_running, FenceRuntime.read, BackendCall.exec]
    refine .step ?_
    simp only [routineMachine_step_running, FenceRuntime.read, BackendCall.exec]
    refine .step ?_
    simp only [routineMachine_step_running, FenceRuntime.read, BackendCall.exec]
    refine .step ?_
    simp only [routineMachine_step_running, FenceRuntime.read, BackendCall.exec]
    refine .step ?_
    simp only [routineMachine_step_running, FenceRuntime.read, BackendCall.exec]
    have hclamped : min (leValue (load memory (g.recordOffset slot + recDataLen) 4))
        g.payloadSize = payloadLength g memory slot := rfl
    rw [hclamped]
    by_cases hsome : 0 < payloadLength g memory slot
    · rw [if_pos hsome]
      refine .step ?_
      simp only [routineMachine_step_running, FenceRuntime.read, BackendCall.exec]
      exact hchecked
    · rw [if_neg hsome]
      have hlength : payloadLength g memory slot = 0 := Nat.eq_zero_of_not_pos hsome
      rw [hlength] at hchecked
      exact hchecked
  · have hbyte : stateByte g memory slot ≠ stateCommitted := hstate
    rw [if_neg hstate, slotOutcome, if_neg hbyte]
    exact .refl _ _

/-- The routine of a read that runs alone. -/
theorem startRead_ends (memory : Memory) (hostId : UInt16) (index : ℕ) :
    (routineMachine (FenceRuntime.read g hasher hostId index)).Ends (startRead index) memory
      (.returned (readOutcome g hasher memory index))
      (countOutcome g memory hostId (readOutcome g hasher memory index)) := by
  rw [startRead, readOutcome]
  by_cases hzero : index = 0
  · rw [if_pos hzero, if_pos (Or.inl hzero)]
    exact .step (.refl _ _)
  · rw [if_neg hzero]
    refine .step ?_
    simp only [routineMachine_step_running, FenceRuntime.read, BackendCall.exec]
    by_cases hbeyond : loadWord memory hdrCommittedTail 8 < index
    · rw [if_pos hbeyond, if_pos (Or.inr hbeyond)]
      exact .refl _ _
    · rw [if_neg hbeyond, if_neg (not_or.mpr ⟨hzero, hbeyond⟩)]
      exact read_slot_ends g hasher memory hostId index _

/-- What a read that runs alone returns, and the memory it leaves. -/
theorem read_ends (memory : Memory) (hostId : UInt16) (index : UInt64) :
    (runtimeMachine g hasher).Ends (Request.call g (.read hostId index)) memory
      (.read hostId index (.returned (readOutcome g hasher memory index.toNat)))
      (countOutcome g memory hostId (readOutcome g hasher memory index.toNat)) :=
  routine_ends_inside (Call.read hostId index) (fun _ _ ↦ Call.step_read _ _ _)
    (startRead_ends g hasher memory hostId index.toNat)

end Ends

/-! ### Reading a record -/

variable (g hasher) in
/-- A read of the index that runs alone returns the record, whatever host makes it. -/
def Reads (memory : Memory) (index : UInt64) (record : Record) : Prop :=
  ∀ hostId, (runtimeMachine g hasher).Leads (Request.call g (.read hostId index)) memory
    (.read hostId index (.returned (.ok (some record))))

/-- A read returns the record when that is its outcome. -/
theorem reads_iff {memory : Memory} {index : UInt64} {record : Record} :
    Reads g hasher memory index record ↔
      readOutcome g hasher memory index.toNat = .ok (some record) := by
  constructor
  · intro hreads
    have hsame := (hreads 0).unique (read_ends g hasher memory 0 index).leads
      (fun _ ↦ rfl) fun _ ↦ rfl
    rw [Call.read.injEq, Task.returned.injEq] at hsame
    exact hsame.2.2.symm
  · intro houtcome hostId
    have hleads := (read_ends g hasher memory hostId index).leads
    rwa [houtcome] at hleads

section Complete

variable {memory : Memory} {slot : ℕ} {entry : Entry}
  (hcomplete : Complete hasher entry slot ((Pool.ofMemory g memory).slot slot))
  (hslot : slot < g.capacity) (hsize : entry.data.length ≤ g.payloadSize)

include hcomplete hslot hsize

/-- The payload of a complete record is as long as its entry. -/
theorem Complete.payloadLength_eq : payloadLength g memory slot = entry.data.length := by
  have hlength : leValue (load memory (g.recordOffset slot + recDataLen) 4) = _ :=
    (congrArg leValue (load_dataLen hslot)).trans hcomplete.dataLen
  rw [payloadLength, hlength, Nat.min_eq_left hsize]

omit hsize in
/-- The term and the index of a complete record are loaded from its slot. -/
theorem Complete.loadWord_eq :
    loadWord memory (g.recordOffset slot + recTerm) 8 = entry.term.toNat ∧
      loadWord memory (g.recordOffset slot + recIndex) 8 = slot + 1 :=
  ⟨(loadWord_meta hslot (by decide)).trans hcomplete.term,
    (loadWord_meta hslot (by decide)).trans hcomplete.index⟩

/-- A complete record decodes to its entry. -/
theorem Complete.decodedRecord_eq : decodedRecord g memory slot = entry.record slot := by
  obtain ⟨hterm, hindex⟩ := hcomplete.loadWord_eq hslot
  have hwriter : loadWord memory (g.recordOffset slot + recWriterId) 8 = _ :=
    (loadWord_meta hslot (by decide)).trans hcomplete.writerId
  have hpayload : load memory (g.recordOffset slot + recordMetaSize) entry.data.length = _ :=
    (load_payload hslot hsize).trans hcomplete.payload
  rw [decodedRecord, hcomplete.payloadLength_eq hslot hsize, hterm, hindex, hwriter, hpayload]
  rfl

/-- The checksum of a complete record verifies. -/
theorem Complete.checksumOk : checksumOk g hasher memory slot = true := by
  obtain ⟨hterm, hindex⟩ := hcomplete.loadWord_eq hslot
  have hchecksum : loadWord memory (g.recordOffset slot + recChecksum) 8 = _ :=
    (loadWord_meta hslot (by decide)).trans hcomplete.checksum
  have hpayload : load memory (g.recordOffset slot + recordMetaSize) entry.data.length = _ :=
    (load_payload hslot hsize).trans hcomplete.payload
  rw [Fence.checksumOk, hcomplete.payloadLength_eq hslot hsize, hterm, hindex, hchecksum, hpayload]
  exact Checksum.verify_compute _ _ _

end Complete

/-- A read of a committed and complete slot below the tail returns its record. -/
theorem reads_of_complete {memory : Memory} {index : UInt64} {slot : ℕ} {entry : Entry}
    (hindex : index.toNat = slot + 1) (hslot : slot < g.capacity)
    (hsize : entry.data.length ≤ g.payloadSize)
    (htail : slot < (Pool.ofMemory g memory).committedTail)
    (hstate : (Pool.ofMemory g memory).state slot = stateCommitted)
    (hcomplete : Complete hasher entry slot ((Pool.ofMemory g memory).slot slot)) :
    Reads g hasher memory index (entry.record slot) := by
  have hbyte : stateByte g memory slot = stateCommitted :=
    (Pool.ofMemory_state hslot).symm.trans hstate
  rw [reads_iff, hindex, readOutcome_of_lt hslot htail, slotOutcome, if_pos hbyte,
    if_pos (hcomplete.checksumOk hslot hsize), hcomplete.decodedRecord_eq hslot hsize]

/-- A read that returns a record has found its slot below the tail and committed. -/
theorem Reads.visible {memory : Memory} {index : UInt64} {slot : ℕ} {record : Record}
    (hreads : Reads g hasher memory index record) (hindex : index.toNat = slot + 1)
    (hslot : slot < g.capacity) :
    slot < (Pool.ofMemory g memory).committedTail ∧
      (Pool.ofMemory g memory).state slot = stateCommitted := by
  have hplace : asU32 (index.toNat - 1) = slot := by
    rw [hindex, Nat.add_sub_cancel, asU32_of_lt hslot (Nat.le_of_lt g.capacity_lt)]
  rw [reads_iff, readOutcome, hplace, slotOutcome] at hreads
  rw [Pool.ofMemory_state hslot]
  split_ifs at hreads with hbounds hstate
  · have htail : slot < loadWord memory hdrCommittedTail 8 := by omega
    exact ⟨htail, hstate⟩
  · cases hreads

end Fence
