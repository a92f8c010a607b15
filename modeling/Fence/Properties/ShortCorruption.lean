import Fence.Properties.DamagedPools
import Fence.Properties.ReserveWrap
import Fence.Protocol.AppendAlone
import Fence.Protocol.Invariant
import Fence.Protocol.RecoverAlone

/-!
# Short corruption is found out

The checksum of a record is a 32-bit cyclic redundancy check of its term, its index and its payload,
one after another (`stream`), although they do not lie next to each other in the pool. A change that
keeps to four bytes in a row of that stream is noticed by `read` and by `recover`, wherever the
window lies and however long the payload is (`shortChange_detected`). The record may be any that an
append wrote: an append that ran alone (`Appended.intact`), or appends of any run
(`Rely.exists_intact`).
-/

set_option autoImplicit false
set_option relaxedAutoImplicit false

namespace Fence

open ByteMemory Interleaving

variable {g : PoolGeometry} {hasher : Hasher} {memory changed : Memory} {slot : ℕ}

/-! ### What the checksum covers -/

variable (g) in
/-- The bytes the checksum of a record covers: its term, its index and its payload. -/
def stream (memory : Memory) (slot : ℕ) : List UInt8 :=
  load memory (g.recordOffset slot + recTerm) 8 ++ load memory (g.recordOffset slot + recIndex) 8 ++
    load memory (g.recordOffset slot + recordMetaSize) (payloadLength g memory slot)

/-- A checksum verifies when it is the hash of the stream. -/
theorem checksumOk_iff : checksumOk g hasher memory slot = true ↔
    (hasher (stream g memory slot)).toNat =
      loadWord memory (g.recordOffset slot + recChecksum) 8 := by
  rw [checksumOk, Checksum.verify, Checksum.compute, leBytes_loadWord, leBytes_loadWord, beq_iff_eq]
  rfl

/-! ### Records and changes -/

/-- A slot holds, committed, the record that append writes for an entry. -/
structure Intact (g : PoolGeometry) (hasher : Hasher) (memory : Memory) (slot : ℕ)
    (entry : Entry) : Prop where
  slot_lt : slot < g.capacity
  size : entry.data.length ≤ g.payloadSize
  complete : Complete hasher entry slot ((Pool.ofMemory g memory).slot slot)
  state : stateByte g memory slot = stateCommitted

/-- The record of an append that ran alone is intact. -/
theorem Appended.intact {entry : Entry} {start : Memory} (hslot : slot < g.capacity)
    (hsize : entry.data.length ≤ g.payloadSize)
    (happended : Appended g hasher entry start slot memory) :
    Intact g hasher memory slot entry where
  slot_lt := hslot
  size := hsize
  complete := happended.written.complete (Nat.le_refl _) hslot hsize
  state := (Pool.ofMemory_state hslot).symm.trans happended.state

/-- Every committed slot of a run holds an intact record. -/
theorem Rely.exists_intact {threads : List Call}
    (hrely : Rely g hasher threads (Pool.ofMemory g memory)) (hslot : slot < g.capacity)
    (hstate : stateByte g memory slot = stateCommitted) :
    ∃ entry, Stored threads slot entry ∧ Intact g hasher memory slot entry := by
  have hpool := (Pool.ofMemory_state hslot).trans hstate
  obtain ⟨entry, hstored⟩ := hrely.stored_of_committed slot hslot hpool
  obtain ⟨-, hsize, hcomplete⟩ := hrely.complete_of_stored slot entry hstored
  exact ⟨entry, hstored, hslot, hsize, hcomplete, hstate⟩

/-- A change of a pool that leaves state, length and stored checksum of a record, and changes
something of what the checksum covers, but nothing outside four bytes in a row. -/
structure ShortChange (g : PoolGeometry) (slot : ℕ) (memory changed : Memory) : Prop where
  state : stateByte g changed slot = stateByte g memory slot
  dataLen : load changed (g.recordOffset slot + recDataLen) 4 =
    load memory (g.recordOffset slot + recDataLen) 4
  checksum : load changed (g.recordOffset slot + recChecksum) 8 =
    load memory (g.recordOffset slot + recChecksum) 8
  differs : stream g changed slot ≠ stream g memory slot
  window : ∃ start, ∀ position, position < start ∨ start + 4 ≤ position →
    (stream g changed slot)[position]? = (stream g memory slot)[position]?

/-- A record is found out to be corrupt: a read of its index returns a checksum mismatch, and a
recovery that scans the slot marks it abandoned. -/
structure FoundOut (g : PoolGeometry) (hasher : Hasher) (memory : Memory) (slot : ℕ) : Prop where
  read : ∀ (hostId : UInt16) (index : UInt64), index.toNat = slot + 1 →
    index.toNat ≤ loadWord memory hdrCommittedTail 8 →
    (runtimeMachine g hasher).Leads (Request.call g (.read hostId index)) memory
      (.read hostId index (.returned (.error (.checksumMismatch index.toNat))))
  recover : slot < loadWord memory hdrReserveTail 8 → ∀ hostId : UInt16, ∃ report later,
    (runtimeMachine g hasher).Ends (Request.call g (.recover hostId)) memory
        (.recover hostId (.returned report)) later ∧
      stateByte g later slot = stateAbandoned

/-! ### The argument -/

/-- The length of the payload is that of before. -/
theorem ShortChange.payloadLength_eq (hchange : ShortChange g slot memory changed) :
    payloadLength g changed slot = payloadLength g memory slot := by
  rw [payloadLength, payloadLength, hchange.dataLen]

/-- After a short change the checksum does not verify. -/
theorem ShortChange.checksumOk_eq_false {polynomial : UInt32}
    (hpolynomial : 2 ^ 31 ≤ polynomial.toNat) (hchange : ShortChange g slot memory changed)
    (hchecksum : checksumOk g (Crc.checkValue polynomial) memory slot = true) :
    checksumOk g (Crc.checkValue polynomial) changed slot = false := by
  refine Bool.eq_false_iff.mpr fun hverifies ↦ ?_
  rw [checksumOk_iff] at hchecksum hverifies
  obtain ⟨start, hwindow⟩ := hchange.window
  have hlength : (stream g changed slot).length = (stream g memory slot).length := by
    simp [stream, hchange.payloadLength_eq]
  refine Crc.checkValue_ne hpolynomial hlength hchange.differs hwindow (UInt32.toNat_inj.mp ?_)
  rw [hverifies, hchecksum]
  exact loadWord_congr hchange.checksum

/-- A committed record whose checksum does not verify is found out. -/
theorem foundOut_of_checksumOk_eq_false (hslot : slot < g.capacity)
    (hstate : stateByte g memory slot = stateCommitted)
    (hchecksum : checksumOk g hasher memory slot = false) : FoundOut g hasher memory slot where
  read := by
    intro hostId index hindex htail
    have houtcome : readOutcome g hasher memory index.toNat =
        .error (.checksumMismatch index.toNat) := by
      rw [hindex, readOutcome_of_lt hslot (by omega), slotOutcome, if_pos hstate,
        if_neg (Bool.not_eq_true _ ▸ hchecksum)]
    exact houtcome ▸ (read_ends g hasher memory hostId index).leads
  recover := by
    intro hreserve hostId
    have hclaimed : slot < claimedSlots g memory := Nat.lt_min.mpr ⟨hreserve, hslot⟩
    obtain ⟨recovered, later, hends, hrecovered, hpool, -⟩ := recover_ends g hasher memory hostId
    refine ⟨_, later, hends, ?_⟩
    have hmarked : stateByte g recovered slot = stateAbandoned :=
      hrecovered.marked slot hclaimed
        ((torn_iff_damaged hclaimed).mpr (Or.inr (Or.inr ⟨hstate, hchecksum⟩)))
    exact ((load_state hslot).trans (hpool ▸ (load_state hslot).symm)).trans hmarked

/-- A change within four bytes in a row of what the checksum of an intact record covers is found
out. -/
theorem shortChange_detected {polynomial : UInt32} (hpolynomial : 2 ^ 31 ≤ polynomial.toNat)
    {entry : Entry} (hintact : Intact g (Crc.checkValue polynomial) memory slot entry)
    (hchange : ShortChange g slot memory changed) :
    FoundOut g (Crc.checkValue polynomial) changed slot :=
  foundOut_of_checksumOk_eq_false hintact.slot_lt (hchange.state.trans hintact.state)
    (hchange.checksumOk_eq_false hpolynomial
      (hintact.complete.checksumOk hintact.slot_lt hintact.size))

/-- A single record with the byte of its payload changed. -/
def corruptRecord : Memory := store singleRecord (onePool.recordOffset 0 + recordMetaSize) [8]

theorem shortChange_corruptRecord : ShortChange onePool 0 singleRecord corruptRecord where
  state := by decide +kernel
  dataLen := by decide +kernel
  checksum := by decide +kernel
  differs := by decide +kernel
  window := by
    have hlength : (stream onePool corruptRecord 0).length = 17 ∧
        (stream onePool singleRecord 0).length = 17 := by decide +kernel
    have hbefore : ∀ position < 16, (stream onePool corruptRecord 0)[position]? =
        (stream onePool singleRecord 0)[position]? := by decide +kernel
    refine ⟨16, fun position houtside ↦ ?_⟩
    rcases houtside with hlow | hhigh
    · exact hbefore position hlow
    · rw [List.getElem?_eq_none (by omega), List.getElem?_eq_none (by omega)]

/-- A read and a recovery find it out. -/
theorem shortChange_detected_onePool : FoundOut onePool crc32fast corruptRecord 0 :=
  @shortChange_detected onePool singleRecord corruptRecord 0 Crc.ieee (by decide) firstEntry
    ⟨by decide, by decide, by constructor <;> decide +kernel, by decide +kernel⟩
    shortChange_corruptRecord

end Fence
