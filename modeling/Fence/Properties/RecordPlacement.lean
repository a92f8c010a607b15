import Fence.Properties.DamagedPools
import Fence.Protocol.RangeAlone
import Fence.Protocol.RecoverAlone

/-!
# Records in their own slots

The checksum of a record covers its index, and `checksum.rs` says that records that were reordered
are found out. Neither `read` nor `recover` compares the index with the slot, though. `InPlace` is
the guarantee, of any pool: what is read under an index has that index, ranges are read in
increasing order, and a recovery leaves no record of another slot. It holds when every committed
record that verifies is in its own slot, and only then (`inPlace_iff`).
-/

set_option autoImplicit false
set_option relaxedAutoImplicit false

namespace Fence

open ByteMemory Interleaving

/-- The index a slot stores. -/
def storedIndex (g : PoolGeometry) (memory : Memory) (slot : ℕ) : ℕ :=
  loadWord memory (g.recordOffset slot + recIndex) 8

/-- A record is only accepted in its own slot. -/
structure InPlace (g : PoolGeometry) (hasher : Hasher) (memory : Memory) : Prop where
  read : ∀ (hostId : UInt16) (index : UInt64) (record : Record) (later : Memory),
    (runtimeMachine g hasher).Ends (Request.call g (.read hostId index)) memory
      (.read hostId index (.returned (.ok (some record)))) later → record.index = index.toNat
  range : ∀ (hostId : UInt16) (checked : Bool) (startIndex endIndex : UInt64)
      (task : Task RangePoint (Except FenceError (List Record))) (records : List Record)
      (later : Memory), startReadRange checked startIndex endIndex = some task →
    (routineMachine (FenceRuntime.readRange g hasher hostId endIndex.toNat)).Ends task memory
      (.returned (.ok records)) later → (records.map Record.index).Pairwise (· < ·)
  recover : ∀ (hostId : UInt16) (report : RecoveryReport) (later : Memory),
    (runtimeMachine g hasher).Ends (Request.call g (.recover hostId)) memory
      (.recover hostId (.returned report)) later →
    ∀ slot < claimedSlots g memory, stateByte g later slot = stateCommitted →
      storedIndex g later slot = slot + 1

/-- Every committed record that verifies, below the committed tail or claimed, is in the slot of its
index. -/
def VerifiesInPlace (g : PoolGeometry) (hasher : Hasher) (memory : Memory) : Prop :=
  ∀ slot, slot < loadWord memory hdrCommittedTail 8 ∨ slot < claimedSlots g memory →
    stateByte g memory slot = stateCommitted → checksumOk g hasher memory slot = true →
      storedIndex g memory slot = slot + 1

variable {g : PoolGeometry} {hasher : Hasher} {hostId : UInt16} {memory later : Memory}
  {report : RecoveryReport}

/-! ### Reads -/

/-- What a read has found has the index its slot stores. -/
theorem exists_slot_of_readOutcome (htail : loadWord memory hdrCommittedTail 8 ≤ g.capacity)
    {index : ℕ} {record : Record}
    (houtcome : readOutcome g hasher memory index = .ok (some record)) :
    ∃ slot, index = slot + 1 ∧ slot < loadWord memory hdrCommittedTail 8 ∧
      stateByte g memory slot = stateCommitted ∧ checksumOk g hasher memory slot = true ∧
      record.index = storedIndex g memory slot := by
  rw [readOutcome] at houtcome
  split_ifs at houtcome with hbounds
  have hplace : asU32 (index - 1) = index - 1 :=
    asU32_of_lt (by omega : index - 1 < g.capacity) (Nat.le_of_lt g.capacity_lt)
  rw [hplace, slotOutcome] at houtcome
  split_ifs at houtcome with hstate hchecksum
  · rw [Except.ok.injEq, Option.some.injEq] at houtcome
    exact ⟨index - 1, by omega, by omega, hstate, hchecksum, houtcome ▸ rfl⟩
  · cases houtcome

/-- A committed record that verifies is read. -/
theorem readOutcome_of_verifies (htail : loadWord memory hdrCommittedTail 8 ≤ g.capacity) {slot : ℕ}
    (hslot : slot < loadWord memory hdrCommittedTail 8)
    (hstate : stateByte g memory slot = stateCommitted)
    (hchecksum : checksumOk g hasher memory slot = true) :
    readOutcome g hasher memory (slot + 1) = .ok (some (decodedRecord g memory slot)) := by
  rw [readOutcome_of_lt (hslot.trans_le htail) hslot, slotOutcome, if_pos hstate,
    if_pos hchecksum]

/-- The records of a range in place have indices of the range, in order. -/
theorem sublist_of_rangeOutcome
    (hread : ∀ index record, readOutcome g hasher memory index = .ok (some record) →
      record.index = index)
    {indices : List UInt64} {records : List Record}
    (houtcome : rangeOutcome g hasher memory indices = .ok records) :
    (records.map Record.index).Sublist (indices.map UInt64.toNat) := by
  induction indices generalizing records with
  | nil =>
    rw [rangeOutcome, Except.ok.injEq] at houtcome
    rw [← houtcome]
    exact List.Sublist.refl _
  | cons index rest ih =>
    rw [rangeOutcome] at houtcome
    cases hfound : readOutcome g hasher memory index.toNat with
    | error error =>
      rw [hfound] at houtcome
      cases houtcome
    | ok found =>
      rw [hfound] at houtcome
      cases hrest : rangeOutcome g hasher memory rest with
      | error error =>
        rw [hrest] at houtcome
        cases houtcome
      | ok others =>
        rw [hrest] at houtcome
        obtain rfl := Except.ok.inj houtcome
        cases found with
        | none => exact (ih hrest).cons _
        | some record =>
          have hindex := hread _ _ hfound
          simpa [hindex] using (ih hrest).cons_cons index.toNat

/-- The indices of a range increase. -/
theorem pairwise_rangeIndices {startIndex endIndex : ℕ} (hend : endIndex < 2 ^ 64) :
    ((rangeIndices startIndex endIndex).map UInt64.toNat).Pairwise (· < ·) := by
  have hsame : (rangeIndices startIndex endIndex).map UInt64.toNat =
      List.range' startIndex (endIndex - startIndex) := by
    rw [rangeIndices, List.map_map]
    refine (List.map_congr_left fun index hmem ↦ ?_).trans (List.map_id _)
    have hbound := List.mem_range'_1.mp hmem
    exact UInt64.toNat_ofNat_of_lt' (show index < 2 ^ 64 by omega)
  rw [hsame]
  exact List.pairwise_lt_range'

/-! ### Recoveries -/

/-- What a recover call leaves committed was committed and verified, and its slot stores the index
it did. -/
theorem recover_kept (hends : (runtimeMachine g hasher).Ends (Request.call g (.recover hostId))
      memory (.recover hostId (.returned report)) later) {slot : ℕ}
    (hslot : slot < claimedSlots g memory) :
    storedIndex g later slot = storedIndex g memory slot ∧
      (stateByte g later slot = stateCommitted ↔
        stateByte g memory slot = stateCommitted ∧ checksumOk g hasher memory slot = true) := by
  have hcapacity : slot < g.capacity := hslot.trans_le (Nat.min_le_right _ _)
  obtain ⟨recovered, other, hother, hrecovered, hpool, -⟩ := recover_ends g hasher memory hostId
  obtain ⟨-, rfl⟩ := hends.unique hother (fun _ ↦ rfl) fun _ ↦ rfl
  have hstate : stateByte g later slot = stateByte g recovered slot :=
    (load_state hcapacity).trans (hpool ▸ (load_state hcapacity).symm)
  have hindex : storedIndex g later slot = storedIndex g recovered slot := by
    rw [storedIndex, storedIndex, loadWord_meta hcapacity (by decide),
      loadWord_meta hcapacity (by decide), hpool]
  refine ⟨hindex.trans (hrecovered.between.loadWord_record hcapacity (by decide) (by decide)), ?_⟩
  rw [hstate, hrecovered.committed_iff hcapacity, Kept, torn_iff_damaged hslot]
  constructor
  · rintro ⟨hcommitted, hdamaged⟩
    refine ⟨hcommitted, ?_⟩
    by_contra hfails
    exact hdamaged (Or.inr (Or.inr ⟨hcommitted, Bool.eq_false_iff.mpr hfails⟩))
  · rintro ⟨hcommitted, hchecksum⟩
    refine ⟨hcommitted, ?_⟩
    rw [Damaged, hcommitted, hchecksum]
    decide

/-! ### The guarantee -/

/-- Records are only accepted in their own slots when all that verify are there, and only then. -/
theorem inPlace_iff (htail : loadWord memory hdrCommittedTail 8 ≤ g.capacity) :
    InPlace g hasher memory ↔ VerifiesInPlace g hasher memory := by
  constructor
  · rintro ⟨hread, -, hrecover⟩ slot hslot hstate hchecksum
    rcases hslot with hbelow | hclaimed
    · have hindex : (UInt64.ofNat (slot + 1)).toNat = slot + 1 := by
        have hcapacity := g.capacity_lt
        exact UInt64.toNat_ofNat_of_lt' (show slot + 1 < 2 ^ 64 by omega)
      have hends := read_ends g hasher memory 0 (UInt64.ofNat (slot + 1))
      rw [hindex, readOutcome_of_verifies htail hbelow hstate hchecksum] at hends
      exact (hread 0 _ _ _ hends).trans hindex
    · obtain ⟨recovered, later, hends, -⟩ := recover_ends g hasher memory 0
      obtain ⟨hindex, hkept⟩ := recover_kept hends hclaimed
      exact hindex ▸ hrecover 0 _ later hends slot hclaimed (hkept.mpr ⟨hstate, hchecksum⟩)
  · intro hplace
    have hread : ∀ index record, readOutcome g hasher memory index = .ok (some record) →
        record.index = index := by
      intro index record houtcome
      obtain ⟨slot, rfl, hbelow, hstate, hchecksum, hindex⟩ :=
        exists_slot_of_readOutcome htail houtcome
      exact hindex.trans (hplace slot (Or.inl hbelow) hstate hchecksum)
    refine ⟨?_, ?_, ?_⟩
    · intro hostId index record later hends
      obtain ⟨hcall, -⟩ := hends.unique (read_ends g hasher memory hostId index)
        (fun _ ↦ rfl) fun _ ↦ rfl
      rw [Call.read.injEq, Task.returned.injEq] at hcall
      exact hread _ _ hcall.2.2.symm
    · intro hostId checked startIndex endIndex task records later hstart hends
      have hrecords := (startReadRange_ends hstart hends).eq_rangeOutcome rfl htail
      exact (pairwise_rangeIndices endIndex.toNat_lt).sublist
        (sublist_of_rangeOutcome hread hrecords.symm)
    · intro hostId report later hends slot hslot hcommitted
      obtain ⟨hindex, hkept⟩ := recover_kept hends hslot
      obtain ⟨hstate, hchecksum⟩ := hkept.mp hcommitted
      exact hindex.trans (hplace slot (Or.inr hslot) hstate hchecksum)

/-- A record with an empty payload, stored in a slot under an index. -/
def storeRecord (g : PoolGeometry) (slot index : ℕ) (memory : Memory) : Memory :=
  let memory := storeWord memory (g.recordOffset slot + recTerm) 8 1
  let memory := storeWord memory (g.recordOffset slot + recIndex) 8 index
  let memory := storeWord memory (g.recordOffset slot + recChecksum) 8
    (Checksum.compute crc32fast 1 index [])
  store memory (g.recordOffset slot + recState) [stateCommitted]

/-- A pool with two records. -/
def orderedMemory : Memory :=
  storeWord (storeWord (storeRecord twoPool 0 1 (storeRecord twoPool 1 2 (freshMemory twoPool)))
    hdrCommittedTail 8 2) hdrReserveTail 8 2

/-- Both of its records are read, and each is only accepted in its own slot. -/
theorem inPlace_iff_orderedMemory :
    readOutcome twoPool crc32fast orderedMemory 1 = .ok (some ⟨1, 1, 0, []⟩) ∧
      readOutcome twoPool crc32fast orderedMemory 2 = .ok (some ⟨2, 1, 0, []⟩) ∧
      InPlace twoPool crc32fast orderedMemory := by
  refine ⟨by decide +kernel, by decide +kernel, (inPlace_iff (by decide +kernel)).mpr ?_⟩
  have htail : loadWord orderedMemory hdrCommittedTail 8 = 2 := by decide +kernel
  have hclaimed : claimedSlots twoPool orderedMemory = 2 := by decide +kernel
  have hindex : ∀ slot < 2, storedIndex twoPool orderedMemory slot = slot + 1 := by decide +kernel
  intro slot hslot _ _
  rw [htail, hclaimed, or_self] at hslot
  exact hindex slot hslot

/-- A pool whose two records were swapped. -/
def swappedMemory : Memory :=
  storeWord (storeWord (storeRecord twoPool 0 2 (storeRecord twoPool 1 1 (freshMemory twoPool)))
    hdrCommittedTail 8 2) hdrReserveTail 8 2

/-- Its first record is read under the index of the second. -/
theorem not_inPlace_of_swapped :
    loadWord swappedMemory hdrCommittedTail 8 ≤ twoPool.capacity ∧
      ¬ InPlace twoPool crc32fast swappedMemory := by
  refine ⟨by decide +kernel, fun hplace ↦ ?_⟩
  have hends := read_ends twoPool crc32fast swappedMemory 0 1
  have houtcome : readOutcome twoPool crc32fast swappedMemory (1 : UInt64).toNat =
      .ok (some ⟨2, 1, 0, []⟩) := by decide +kernel
  rw [houtcome] at hends
  exact absurd (hplace.read 0 1 _ _ hends) (by decide)

end Fence
