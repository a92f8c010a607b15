import Fence.Core.Persistence
import Fence.Runtime.CachedEngine

/-!
# What a flush covers

`flush_range` issues one `clwb` for each line that has a byte of the range, in increasing order, and
then one `sfence` (`flushRange_covers`). A backend maps a pool at an address that is a line boundary
and flushes a range of the pool through `flush_range`. Once the fence has completed the write-backs,
the media is as the flush of a cached memory leaves it (`flushRange_execCached`), which is what all
results about crashes rest on.
-/

set_option autoImplicit false
set_option relaxedAutoImplicit false

namespace Fence

open ByteMemory Interleaving

/-- The line that starts at an address has a byte of the range. -/
def LineMeets (addr len line : UInt64) : Prop :=
  ∃ address, addr.toNat ≤ address ∧ address < addr.toNat + len.toNat ∧
    line.toNat ≤ address ∧ address < line.toNat + cacheline

/-- The numbers of the lines of a range that is not empty. -/
def lineNumbers (addr len : UInt64) : List ℕ :=
  List.range' (addr.toNat / cacheline)
    ((addr.toNat + len.toNat + 63) / cacheline - addr.toNat / cacheline)

/-- Their addresses. -/
def flushLines (addr len : UInt64) : List UInt64 := (lineNumbers addr len).map lineAddress

section Lines

variable {addr len : UInt64}

theorem toNat_pos_of_ne_zero (hlen : len ≠ 0) : 0 < len.toNat :=
  Nat.pos_of_ne_zero fun hzero ↦ hlen (UInt64.toNat_inj.mp hzero)

theorem mem_lineNumbers_iff {number : ℕ} : number ∈ lineNumbers addr len ↔
    addr.toNat / cacheline ≤ number ∧ number < (addr.toNat + len.toNat + 63) / cacheline := by
  rw [lineNumbers, List.mem_range'_1]
  unfold cacheline
  omega

variable (hfits : addr.toNat + len.toNat + 63 < 2 ^ 64)

include hfits

/-- The address of a line of the range is a word. -/
theorem toNat_lineAddress_of_mem {number : ℕ} (hnumber : number ∈ lineNumbers addr len) :
    (lineAddress number).toNat = number * cacheline := by
  rw [mem_lineNumbers_iff] at hnumber
  apply toNat_lineAddress
  unfold cacheline at *
  omega

/-- The lines of a range are increasing. -/
theorem flushLines_pairwise : (flushLines addr len).Pairwise (· < ·) := by
  refine List.pairwise_map.mpr (List.Pairwise.imp_of_mem ?_ List.pairwise_lt_range')
  intro first second hfirst hsecond hlt
  rw [UInt64.lt_iff_toNat_lt, toNat_lineAddress_of_mem hfits hfirst,
    toNat_lineAddress_of_mem hfits hsecond]
  exact Nat.mul_lt_mul_of_pos_right hlt (by decide)

/-- The lines of a range that is not empty are those that have a byte of it. -/
theorem mem_flushLines_iff (hlen : len ≠ 0) {line : UInt64} :
    line ∈ flushLines addr len ↔ line.toNat % cacheline = 0 ∧ LineMeets addr len line := by
  have hpos := toNat_pos_of_ne_zero hlen
  constructor
  · intro hmem
    obtain ⟨number, hnumber, rfl⟩ := List.mem_map.mp hmem
    unfold LineMeets
    rw [toNat_lineAddress_of_mem hfits hnumber]
    rw [mem_lineNumbers_iff] at hnumber
    unfold cacheline at *
    -- the first byte of the range that is on the line
    exact ⟨by omega, max addr.toNat (number * 64), by omega, by omega, by omega, by omega⟩
  · rintro ⟨haligned, address, hlow, hhigh, hstart, hend⟩
    have hnumber : line.toNat / cacheline ∈ lineNumbers addr len := by
      rw [mem_lineNumbers_iff]
      unfold cacheline at *
      omega
    refine List.mem_map.mpr ⟨line.toNat / cacheline, hnumber, UInt64.toNat_inj.mp ?_⟩
    rw [toNat_lineAddress_of_mem hfits hnumber]
    exact Nat.div_mul_cancel (Nat.dvd_of_mod_eq_zero haligned)

/-- `flush_range` of a range that is not empty. -/
theorem flushRange_ends (hlen : len ≠ 0) :
    (flushMachine addr len).Ends (startFlush addr len) [] (.returned ())
      ((flushLines addr len).map .clwb ++ [.sfence]) := by
  have hsum : (addr + len).toNat = addr.toNat + len.toNat := by
    rw [UInt64.toNat_add]
    exact Nat.mod_eq_of_lt (by omega)
  have hcount : ((addr + len).toNat + 63) / cacheline = addr.toNat / cacheline +
      ((addr.toNat + len.toNat + 63) / cacheline - addr.toNat / cacheline) := by
    rw [hsum]
    unfold cacheline
    omega
  have hloop := flushLoop_ends (hsum ▸ hfits) _ _ hcount []
  rw [startFlush, if_neg hlen, alignedStart_eq, flushLines, lineNumbers, List.map_map]
  exact hloop.trans (.step (.refl _ _))

end Lines

/-- `flush_range` of an empty range does nothing. Of any other range it writes back each line that
has a byte of it, once and in increasing order, no other line, and issues one fence at the end. -/
theorem flushRange_covers (addr len : UInt64) (hfits : addr.toNat + len.toNat + 63 < 2 ^ 64) :
    (len = 0 → startFlush addr len = .returned ()) ∧
    (len ≠ 0 → ∃ lines : List UInt64,
      (flushMachine addr len).Ends (startFlush addr len) [] (.returned ())
        (lines.map .clwb ++ [.sfence]) ∧
      lines.Pairwise (· < ·) ∧
      ∀ line, line ∈ lines ↔ line.toNat % cacheline = 0 ∧ LineMeets addr len line) := by
  refine ⟨fun hzero ↦ if_pos hzero, fun hlen ↦ ?_⟩
  exact ⟨flushLines addr len, flushRange_ends hfits hlen, flushLines_pairwise hfits,
    fun _ ↦ mem_flushLines_iff hfits hlen⟩

/-- A range of two lines that starts and ends within them. -/
theorem flushRange_covers_unaligned :
    ((100 : UInt64) = 0 → startFlush 4103 100 = .returned ()) ∧
    ((100 : UInt64) ≠ 0 → ∃ lines : List UInt64,
      (flushMachine 4103 100).Ends (startFlush 4103 100) [] (.returned ())
        (lines.map .clwb ++ [.sfence]) ∧
      lines.Pairwise (· < ·) ∧
      ∀ line, line ∈ lines ↔ line.toNat % cacheline = 0 ∧ LineMeets 4103 100 line) :=
  flushRange_covers 4103 100 (by decide)

/-! ### What reaches the media -/

/-- A mapped pool, with the lines that are to be written back. -/
structure MappedPool where
  memory : CachedMemory
  pending : List ℕ

/-- What an instruction does to a pool that is mapped at an address. The write-backs are complete at
the next fence. -/
def Instruction.exec (mapping : ℕ) (pool : MappedPool) : Instruction → MappedPool
  | .clwb addr => { pool with pending := pool.pending ++ [(addr.toNat - mapping) / cacheline] }
  | .sfence => ⟨pool.memory.persist cacheline (· ∈ pool.pending), []⟩

theorem foldl_exec_clwb (mapping : ℕ) (lines : List UInt64) (pool : MappedPool) :
    (lines.map Instruction.clwb).foldl (Instruction.exec mapping) pool =
      { pool with pending := pool.pending ++
          lines.map fun line ↦ (line.toNat - mapping) / cacheline } := by
  induction lines generalizing pool with
  | nil => rw [List.map_nil, List.map_nil, List.append_nil, List.foldl_nil]
  | cons line rest ih =>
    rw [List.map_cons, List.foldl_cons, ih, List.map_cons, List.append_cons]
    rfl

/-- The lines of a flushed range of a pool. -/
theorem exists_mem_flushLines_iff {addr len : UInt64} {mapping offset : ℕ}
    (hmapping : mapping % cacheline = 0) (haddr : addr.toNat = mapping + offset)
    (hfits : addr.toNat + len.toNat + 63 < 2 ^ 64) (hlen : len ≠ 0) (number : ℕ) :
    (∃ line ∈ flushLines addr len, (line.toNat - mapping) / cacheline = number) ↔
      CachedMemory.Covers cacheline offset len.toNat number := by
  have hpos := toNat_pos_of_ne_zero hlen
  unfold flushLines CachedMemory.Covers
  simp only [List.mem_map, exists_exists_and_eq_and]
  constructor
  · rintro ⟨line, hline, rfl⟩
    rw [toNat_lineAddress_of_mem hfits hline]
    rw [mem_lineNumbers_iff] at hline
    unfold cacheline at *
    omega
  · rintro ⟨-, hlow, hhigh⟩
    have hline : number + mapping / cacheline ∈ lineNumbers addr len := by
      rw [mem_lineNumbers_iff]
      unfold cacheline at *
      omega
    refine ⟨_, hline, ?_⟩
    rw [toNat_lineAddress_of_mem hfits hline]
    unfold cacheline at *
    omega

/-- `MmapBackend::flush` calls `flush_range` at the address of the range in the mapping. What it
does to a mapped pool is what the backend call does to the cached memory. -/
theorem flushRange_execCached {Next : Type} {addr len : UInt64} {mapping offset : ℕ}
    (hmapping : mapping % cacheline = 0) (haddr : addr.toNat = mapping + offset)
    (hfits : addr.toNat + len.toNat + 63 < 2 ^ 64) (memory : CachedMemory) (next : Next) :
    ∃ issued, (flushMachine addr len).Ends (startFlush addr len) [] (.returned ()) issued ∧
      issued.foldl (Instruction.exec mapping) ⟨memory, []⟩ =
        ⟨((BackendCall.flush offset len.toNat next).execCached memory).2, []⟩ := by
  simp only [BackendCall.execCached]
  by_cases hlen : len = 0
  · refine ⟨[], ?_, ?_⟩
    · rw [startFlush, if_pos hlen]
      exact .refl _ _
    · rw [hlen]
      exact congrArg (MappedPool.mk · []) (CachedMemory.flush_zero offset memory).symm
  · refine ⟨_, flushRange_ends hfits hlen, ?_⟩
    rw [List.foldl_append, foldl_exec_clwb, List.foldl_cons, List.foldl_nil, Instruction.exec,
      CachedMemory.flush]
    refine congrArg (MappedPool.mk · []) (CachedMemory.persist_congr (fun number ↦ ?_) memory)
    rw [List.nil_append, List.mem_map]
    exact exists_mem_flushLines_iff hmapping haddr hfits hlen number

end Fence
