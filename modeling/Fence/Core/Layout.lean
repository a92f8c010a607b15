import Fence.Library.ByteMemory
import Mathlib.Logic.Function.Basic

/-!
# The binary layout of a pool

A pool is one run of bytes: a header of one cacheline, `capacity` record slots of `recordSize`
bytes each, and one metrics block of one cacheline for every host. This module has the offsets
of `layout.rs` and `PoolGeometry`, whose values carry the facts the constructor establishes: the
three dimensions are positive and fit their machine types, and the two derived sizes are the
exact sums. `PoolGeometry.new` returns `none` on a zero dimension, where the source panics, and
when the `u32` addition overflows that computes the record size: there a build that checks for
overflows panics, and a release build goes on with sizes that have wrapped, which are those of
`Core.RawGeometry`. For all other dimensions both builds get the same geometry.

`Pool` is what the log protocol sees of a pool: the two tails, and every record slot as a small
memory of its own that starts at offset zero. `Pool.ofMemory` reads it off the bytes, and the
lemmas after it say what a store to a tail, to a slot or to the metrics does to it, so that the
protocol can be reasoned about without addresses. `Pool.memory_ext` is the way back: memories
with the same pool and the same other bytes are equal.
-/

set_option autoImplicit false
set_option relaxedAutoImplicit false

namespace Fence

open ByteMemory

/-! ### Constants -/

/-- The magic number at byte zero of every valid pool. -/
def magicNumber : ℕ := 0x46454E43455F4C4F

/-- Size of the pool header in bytes. -/
def headerSize : ℕ := 64

/-- Size of the fixed metadata of a record in bytes. -/
def recordMetaSize : ℕ := 64

/-- The cacheline width in bytes. -/
def cacheline : ℕ := 64

/-- The record slot is empty. -/
def stateFree : UInt8 := 0

/-- A writer has claimed the slot and is writing it. -/
def stateWriting : UInt8 := 1

/-- The record is complete and readers may read it. -/
def stateCommitted : UInt8 := 2

/-- The writer crashed, or the record was trimmed. -/
def stateAbandoned : UInt8 := 3

def hdrMagic : ℕ := 0
def hdrCapacity : ℕ := 8
def hdrRecordSize : ℕ := 16
def hdrMaxHosts : ℕ := 24
def hdrCommittedTail : ℕ := 32
def hdrReserveTail : ℕ := 40
def hdrEpoch : ℕ := 48

def recState : ℕ := 0
def recTerm : ℕ := 8
def recIndex : ℕ := 16
def recWriterId : ℕ := 24
def recDataLen : ℕ := 32
def recChecksum : ℕ := 40

/-! ### Geometry -/

/-- The dimensions of a pool. -/
structure PoolGeometry where
  /-- Number of record slots. -/
  capacity : ℕ
  /-- Payload bytes of a record. -/
  payloadSize : ℕ
  /-- Number of hosts that share the pool. -/
  maxHosts : ℕ
  /-- Bytes of one record. -/
  recordSize : ℕ
  /-- Bytes of the pool. -/
  totalSize : ℕ
  capacity_pos : 0 < capacity
  capacity_lt : capacity < 2 ^ 32
  payloadSize_pos : 0 < payloadSize
  maxHosts_pos : 0 < maxHosts
  maxHosts_lt : maxHosts < 2 ^ 16
  recordSize_eq : recordSize = recordMetaSize + payloadSize
  recordSize_lt : recordSize < 2 ^ 32
  totalSize_eq : totalSize = headerSize + recordSize * capacity + cacheline * maxHosts

/-- `PoolGeometry::new` of either build, for records that fit 32 bits. The result is `none` for
others, and where an assertion fails. -/
def PoolGeometry.new (capacity payloadSize : UInt32) (maxHosts : UInt16) : Option PoolGeometry :=
  if h : 0 < capacity.toNat ∧ 0 < payloadSize.toNat ∧ 0 < maxHosts.toNat ∧
      recordMetaSize + payloadSize.toNat < 2 ^ 32 then
    some
      { capacity := capacity.toNat
        payloadSize := payloadSize.toNat
        maxHosts := maxHosts.toNat
        recordSize := recordMetaSize + payloadSize.toNat
        totalSize := headerSize + (recordMetaSize + payloadSize.toNat) * capacity.toNat +
          cacheline * maxHosts.toNat
        capacity_pos := h.1
        capacity_lt := capacity.toNat_lt
        payloadSize_pos := h.2.1
        maxHosts_pos := h.2.2.1
        maxHosts_lt := maxHosts.toNat_lt
        recordSize_eq := rfl
        recordSize_lt := h.2.2.2
        totalSize_eq := rfl }
  else none

variable (g : PoolGeometry)

/-- Absolute byte offset of a record slot. -/
def PoolGeometry.recordOffset (slot : ℕ) : ℕ := headerSize + slot * g.recordSize

/-- Absolute byte offset of the metrics block of a host. -/
def PoolGeometry.metricsOffset (hostId : ℕ) : ℕ :=
  headerSize + g.capacity * g.recordSize + hostId * cacheline

variable {g}

theorem PoolGeometry.recordMetaSize_le : recordMetaSize ≤ g.recordSize := by
  rw [g.recordSize_eq]
  exact Nat.le_add_right _ _

/-- A record slot lies after the header. -/
theorem PoolGeometry.headerSize_le_recordOffset (slot : ℕ) :
    headerSize ≤ g.recordOffset slot :=
  Nat.le_add_right _ _

/-- A record slot ends before any later one starts. -/
theorem PoolGeometry.recordOffset_add_le {slot other : ℕ} (hlt : slot < other) :
    g.recordOffset slot + g.recordSize ≤ g.recordOffset other := by
  have hmul : (slot + 1) * g.recordSize ≤ other * g.recordSize := Nat.mul_le_mul_right _ hlt
  rw [Nat.succ_mul] at hmul
  unfold PoolGeometry.recordOffset
  omega

/-- Every record slot ends before the metrics start. -/
theorem PoolGeometry.recordOffset_add_le_metricsOffset {slot : ℕ} (hslot : slot < g.capacity)
    (hostId : ℕ) : g.recordOffset slot + g.recordSize ≤ g.metricsOffset hostId :=
  Nat.le_trans (PoolGeometry.recordOffset_add_le hslot) (Nat.le_add_right _ _)

/-! ### The pool seen by the protocol -/

/-- The two tails of a pool, and every record slot as a memory that starts at offset zero. -/
@[ext] structure Pool where
  committedTail : ℕ
  reserveTail : ℕ
  slot : ℕ → Memory

variable (g) in
/-- The pool a memory holds. -/
def Pool.ofMemory (memory : Memory) : Pool where
  committedTail := loadWord memory hdrCommittedTail 8
  reserveTail := loadWord memory hdrReserveTail 8
  slot := fun slot offset ↦
    if slot < g.capacity ∧ offset < g.recordSize then memory (g.recordOffset slot + offset) else 0

/-- The state byte of a slot. -/
def Pool.state (pool : Pool) (slot : ℕ) : UInt8 := pool.slot slot recState

/-- The pool with bytes written into a slot. -/
def Pool.storeSlot (pool : Pool) (slot offset : ℕ) (bytes : List UInt8) : Pool :=
  { pool with slot := Function.update pool.slot slot (store (pool.slot slot) offset bytes) }

@[simp] theorem Pool.storeSlot_committedTail (pool : Pool) (slot offset : ℕ)
    (bytes : List UInt8) :
    (pool.storeSlot slot offset bytes).committedTail = pool.committedTail := rfl

@[simp] theorem Pool.storeSlot_reserveTail (pool : Pool) (slot offset : ℕ)
    (bytes : List UInt8) :
    (pool.storeSlot slot offset bytes).reserveTail = pool.reserveTail := rfl

@[simp] theorem Pool.storeSlot_slot_self (pool : Pool) (slot offset : ℕ) (bytes : List UInt8) :
    (pool.storeSlot slot offset bytes).slot slot = store (pool.slot slot) offset bytes := by
  simp [Pool.storeSlot]

theorem Pool.storeSlot_slot_ne (pool : Pool) {slot other : ℕ} (hne : other ≠ slot) (offset : ℕ)
    (bytes : List UInt8) : (pool.storeSlot slot offset bytes).slot other = pool.slot other := by
  simp [Pool.storeSlot, hne]

theorem Pool.state_congr {first second : Pool} (hslot : first.slot = second.slot) (slot : ℕ) :
    first.state slot = second.state slot := by
  rw [Pool.state, hslot, Pool.state]

theorem Pool.state_storeSlot_ne (pool : Pool) {slot other : ℕ} (hne : other ≠ slot) (offset : ℕ)
    (bytes : List UInt8) : (pool.storeSlot slot offset bytes).state other = pool.state other := by
  rw [Pool.state, Pool.storeSlot_slot_ne _ hne, Pool.state]

/-- A store behind the state byte leaves the states alone. -/
theorem Pool.state_storeSlot_of_lt (pool : Pool) {slot other offset : ℕ} (hlow : recState < offset)
    (bytes : List UInt8) : (pool.storeSlot slot offset bytes).state other = pool.state other := by
  by_cases hsame : other = slot
  · subst hsame
    rw [Pool.state, Pool.storeSlot_slot_self, store_apply_outside (Or.inl hlow), Pool.state]
  · exact pool.state_storeSlot_ne hsame offset bytes

theorem Pool.state_storeSlot_self (pool : Pool) (slot : ℕ) (state : UInt8) :
    (pool.storeSlot slot recState [state]).state slot = state := by
  rw [Pool.state, Pool.storeSlot_slot_self]
  simp [store]

section OfMemory

variable {memory : Memory}

theorem Pool.ofMemory_slot {slot offset : ℕ} (hslot : slot < g.capacity)
    (hoffset : offset < g.recordSize) :
    (Pool.ofMemory g memory).slot slot offset = memory (g.recordOffset slot + offset) :=
  if_pos ⟨hslot, hoffset⟩

/-- The state byte of a slot, read at its address. -/
theorem Pool.ofMemory_state {slot : ℕ} (hslot : slot < g.capacity) :
    (Pool.ofMemory g memory).state slot = memory (g.recordOffset slot + recState) :=
  Pool.ofMemory_slot hslot
    (Nat.lt_of_lt_of_le (by decide : recState < recordMetaSize) PoolGeometry.recordMetaSize_le)

/-- A run of bytes inside a slot, read at its address. -/
theorem Pool.load_ofMemory_slot {slot offset length : ℕ} (hslot : slot < g.capacity)
    (hfits : offset + length ≤ g.recordSize) :
    load ((Pool.ofMemory g memory).slot slot) offset length =
      load memory (g.recordOffset slot + offset) length := by
  refine load_congr fun i hi ↦ ?_
  rw [Pool.ofMemory_slot hslot (by omega), Nat.add_assoc]

/-- A word inside a slot, read at its address. -/
theorem Pool.loadWord_ofMemory_slot {slot offset width : ℕ} (hslot : slot < g.capacity)
    (hfits : offset + width ≤ g.recordSize) :
    loadWord ((Pool.ofMemory g memory).slot slot) offset width =
      loadWord memory (g.recordOffset slot + offset) width := by
  rw [loadWord, Pool.load_ofMemory_slot hslot hfits, loadWord]

/-- A store that does not reach a slot leaves it alone. -/
theorem Pool.ofMemory_slot_store_outside {slot offset : ℕ} {bytes : List UInt8}
    (houtside : slot < g.capacity → offset + bytes.length ≤ g.recordOffset slot ∨
      g.recordOffset slot + g.recordSize ≤ offset) :
    (Pool.ofMemory g (store memory offset bytes)).slot slot =
      (Pool.ofMemory g memory).slot slot := by
  funext i
  by_cases hin : slot < g.capacity ∧ i < g.recordSize
  · rw [Pool.ofMemory_slot hin.1 hin.2, Pool.ofMemory_slot hin.1 hin.2]
    have houtside := houtside hin.1
    exact store_apply_outside (by omega)
  · exact (if_neg hin).trans (if_neg hin).symm

/-- A store behind the header leaves the tails alone. -/
theorem Pool.ofMemory_tails_store {offset : ℕ} {bytes : List UInt8}
    (hheader : headerSize ≤ offset) :
    (Pool.ofMemory g (store memory offset bytes)).committedTail =
        (Pool.ofMemory g memory).committedTail ∧
      (Pool.ofMemory g (store memory offset bytes)).reserveTail =
        (Pool.ofMemory g memory).reserveTail := by
  have hcommitted : hdrCommittedTail + 8 ≤ headerSize := by decide
  have hreserve : hdrReserveTail + 8 ≤ headerSize := by decide
  exact ⟨loadWord_store_outside (Or.inl (by omega)), loadWord_store_outside (Or.inl (by omega))⟩

/-- A store inside a slot changes that slot only. -/
theorem Pool.ofMemory_store_slot {slot offset : ℕ} {bytes : List UInt8}
    (hslot : slot < g.capacity) (hfits : offset + bytes.length ≤ g.recordSize) :
    Pool.ofMemory g (store memory (g.recordOffset slot + offset) bytes) =
      (Pool.ofMemory g memory).storeSlot slot offset bytes := by
  have hheader := g.headerSize_le_recordOffset slot
  have htails : headerSize ≤ g.recordOffset slot + offset := by omega
  refine Pool.ext (Pool.ofMemory_tails_store htails).1 (Pool.ofMemory_tails_store htails).2 ?_
  funext other
  by_cases hother : other = slot
  · subst hother
    funext i
    by_cases hi : i < g.recordSize
    · rw [Pool.storeSlot_slot_self, Pool.ofMemory_slot hslot hi]
      by_cases hin : offset ≤ i ∧ i < offset + bytes.length
      · obtain ⟨j, rfl⟩ := Nat.exists_eq_add_of_le hin.1
        rw [← Nat.add_assoc, store_apply_inside (by omega), store_apply_inside (by omega)]
      · rw [store_apply_outside (by omega), store_apply_outside (by omega),
          Pool.ofMemory_slot hslot hi]
    · have hzero : ∀ held : Memory, (Pool.ofMemory g held).slot other i = 0 := fun _ ↦
        if_neg (fun h ↦ hi h.2)
      rw [Pool.storeSlot_slot_self, store_apply_outside (by omega), hzero, hzero]
  · rw [Pool.storeSlot_slot_ne _ hother]
    refine Pool.ofMemory_slot_store_outside fun _ ↦ ?_
    rcases Nat.lt_or_gt_of_ne hother with hlt | hlt
    · have := PoolGeometry.recordOffset_add_le (g := g) hlt
      omega
    · have := PoolGeometry.recordOffset_add_le (g := g) hlt
      omega

/-- A store into the metrics does not reach the pool. -/
theorem Pool.ofMemory_store_metrics {hostId offset : ℕ} {bytes : List UInt8} :
    Pool.ofMemory g (store memory (g.metricsOffset hostId + offset) bytes) =
      Pool.ofMemory g memory := by
  have htails : headerSize ≤ g.metricsOffset hostId + offset := by
    unfold PoolGeometry.metricsOffset
    omega
  refine Pool.ext (Pool.ofMemory_tails_store htails).1 (Pool.ofMemory_tails_store htails).2 ?_
  funext slot
  refine Pool.ofMemory_slot_store_outside fun hslot ↦ Or.inr ?_
  have := PoolGeometry.recordOffset_add_le_metricsOffset hslot hostId
  omega

/-- A store into the header leaves the slots alone. -/
theorem Pool.ofMemory_slot_store_header {offset : ℕ} {bytes : List UInt8}
    (hheader : offset + bytes.length ≤ headerSize) :
    (Pool.ofMemory g (store memory offset bytes)).slot = (Pool.ofMemory g memory).slot := by
  funext slot
  refine Pool.ofMemory_slot_store_outside fun _ ↦ Or.inl ?_
  exact Nat.le_trans hheader (g.headerSize_le_recordOffset slot)

/-- A store to the committed tail changes it only. -/
theorem Pool.ofMemory_storeWord_committedTail (value : ℕ) :
    Pool.ofMemory g (storeWord memory hdrCommittedTail 8 value) =
      { Pool.ofMemory g memory with committedTail := value % 2 ^ 64 } := by
  refine Pool.ext ?_ ?_ ?_
  · exact loadWord_storeWord_self memory hdrCommittedTail 8 value
  · exact loadWord_store_outside (by simp [hdrReserveTail, hdrCommittedTail])
  · exact Pool.ofMemory_slot_store_header (by simp [hdrCommittedTail, headerSize])

/-- A store to the reserve tail changes it only. -/
theorem Pool.ofMemory_storeWord_reserveTail (value : ℕ) :
    Pool.ofMemory g (storeWord memory hdrReserveTail 8 value) =
      { Pool.ofMemory g memory with reserveTail := value % 2 ^ 64 } := by
  refine Pool.ext ?_ ?_ ?_
  · exact loadWord_store_outside (by simp [hdrReserveTail, hdrCommittedTail])
  · exact loadWord_storeWord_self memory hdrReserveTail 8 value
  · exact Pool.ofMemory_slot_store_header (by simp [hdrReserveTail, headerSize])

theorem Pool.reserveTail_lt : (Pool.ofMemory g memory).reserveTail < 2 ^ 64 :=
  loadWord_lt memory hdrReserveTail 8

/-- Memories that hold the same committed tail and the same slots, and agree on every other
byte, are equal. -/
theorem Pool.memory_ext {first second : Memory}
    (htail : (Pool.ofMemory g first).committedTail = (Pool.ofMemory g second).committedTail)
    (hslot : ∀ slot < g.capacity, ∀ offset < g.recordSize,
      (Pool.ofMemory g first).slot slot offset = (Pool.ofMemory g second).slot slot offset)
    (hother : ∀ address, ¬ (hdrCommittedTail ≤ address ∧ address < hdrCommittedTail + 8) →
      (∀ slot < g.capacity, ∀ offset < g.recordSize, address ≠ g.recordOffset slot + offset) →
      first address = second address) : first = second := by
  funext address
  by_cases hcommitted : hdrCommittedTail ≤ address ∧ address < hdrCommittedTail + 8
  · obtain ⟨i, rfl⟩ := Nat.exists_eq_add_of_le hcommitted.1
    have hload : load first hdrCommittedTail 8 = load second hdrCommittedTail 8 :=
      load_eq_of_loadWord_eq htail
    exact eq_of_load_eq hload (by omega)
  · by_cases hrecord : ∃ slot < g.capacity, ∃ offset < g.recordSize,
      address = g.recordOffset slot + offset
    · obtain ⟨slot, hin, offset, hoffset, rfl⟩ := hrecord
      have heq := hslot slot hin offset hoffset
      rwa [Pool.ofMemory_slot hin hoffset, Pool.ofMemory_slot hin hoffset] at heq
    · push Not at hrecord
      exact hother address hcommitted hrecord

end OfMemory

/-! ### Small pools -/

/-- A pool of one slot with eight payload bytes, for one host. -/
def onePool : PoolGeometry where
  capacity := 1
  payloadSize := 8
  maxHosts := 1
  recordSize := 72
  totalSize := 200
  capacity_pos := by decide
  capacity_lt := by decide
  payloadSize_pos := by decide
  maxHosts_pos := by decide
  maxHosts_lt := by decide
  recordSize_eq := rfl
  recordSize_lt := by decide
  totalSize_eq := rfl

/-- A pool of two slots with eight payload bytes, for one host. -/
def twoPool : PoolGeometry where
  capacity := 2
  payloadSize := 8
  maxHosts := 1
  recordSize := 72
  totalSize := 272
  capacity_pos := by decide
  capacity_lt := by decide
  payloadSize_pos := by decide
  maxHosts_pos := by decide
  maxHosts_lt := by decide
  recordSize_eq := rfl
  recordSize_lt := by decide
  totalSize_eq := rfl

end Fence
