import Fence.Protocol.RecoveryRun
import Fence.Runtime.CachedEngine

/-!
# Recovery on a cached memory

The routine of `recovery.rs` on a memory with a volatile cache. It flushes the state bytes it
stores, but not the tail, which reaches the media when its line happens to be written back, and then
as a whole, since it lies within one line (`tail_writeBack`). So a media that mixes bytes of two
memories on the way of recovery is on the way too (`Between.mix`).
-/

set_option autoImplicit false
set_option relaxedAutoImplicit false

namespace Fence

open ByteMemory FirstGap Interleaving

variable {g : PoolGeometry} {hasher : Hasher} {start memory : Memory}

/-- A mix of two memories on the way, with the tail of one of them, is on the way. -/
theorem Between.mix {first second : Memory} (hfirst : Between g hasher start first)
    (hsecond : Between g hasher start second)
    (htail : loadWord memory hdrCommittedTail 8 = loadWord first hdrCommittedTail 8 ∨
      loadWord memory hdrCommittedTail 8 = loadWord second hdrCommittedTail 8)
    (hbytes : ∀ address, memory address = first address ∨ memory address = second address) :
    Between g hasher start memory where
  tail := by
    rcases htail with hsame | hsame
    · rw [hsame]
      exact hfirst.tail
    · rw [hsame]
      exact hsecond.tail
  state := by
    intro slot hslot
    rw [stateByte]
    rcases hbytes (g.recordOffset slot + recState) with hsame | hsame
    · rw [hsame]
      exact hfirst.state slot hslot
    · rw [hsame]
      exact hsecond.state slot hslot
  other := by
    intro address htail hstate
    rcases hbytes address with hsame | hsame
    · rw [hsame]
      exact hfirst.other address htail hstate
    · rw [hsame]
      exact hsecond.other address htail hstate

/-! ### Recoveries with a cache -/

/-- Any number of recoveries on one cached memory. The environment writes back lines. -/
def cachedRecoverMachine (g : PoolGeometry) (hasher : Hasher) :
    Machine Unit (Task RecoverPoint RecoveryReport) CachedMemory ℕ where
  start := fun _ ↦ .running .loadReserveTail
  step := fun task memory ↦
    match task with
    | .running point => (Recovery.recover g hasher point).execCached memory
    | .returned report => (.returned report, memory)
  env := fun line memory ↦ memory.writeBack cacheline line

theorem cachedRecoverMachine_step (task : Task RecoverPoint RecoveryReport)
    (memory : CachedMemory) :
    (recoverMachine g hasher).step task memory.cached =
      (((cachedRecoverMachine g hasher).step task memory).1,
        ((cachedRecoverMachine g hasher).step task memory).2.cached) := by
  cases task with
  | running point =>
    obtain ⟨hnext, hcached⟩ := (Recovery.recover g hasher point).execCached_eq memory
    exact Prod.ext hnext.symm hcached.symm
  | returned report => rfl

theorem cachedRecoverMachine_start :
    (recoverMachine g hasher).start = (cachedRecoverMachine g hasher).start := rfl

theorem cachedRecoverMachine_apply_start
    (config : Config (Task RecoverPoint RecoveryReport) CachedMemory) :
    ((cachedRecoverMachine g hasher).apply config (.start ())).project CachedMemory.cached =
      (recoverMachine g hasher).apply (config.project CachedMemory.cached) (.start ()) :=
  apply_start_project cachedRecoverMachine_start () config

theorem cachedRecoverMachine_apply_step (index : ℕ)
    (config : Config (Task RecoverPoint RecoveryReport) CachedMemory) :
    ((cachedRecoverMachine g hasher).apply config (.step index)).project CachedMemory.cached =
      (recoverMachine g hasher).apply (config.project CachedMemory.cached) (.step index) :=
  apply_step_project cachedRecoverMachine_step index config

/-- A recovery flushes behind the header only. -/
theorem Recovery.headerSize_le_of_flush {point : RecoverPoint} {offset length : ℕ}
    {next : Task RecoverPoint RecoveryReport}
    (hflush : Recovery.recover g hasher point = .flush offset length next) :
    headerSize ≤ offset := by
  cases point with
  | flushAbandoned scan => cases hflush; exact g.headerSize_le_recordOffset _
  | sweep scan point => cases point <;> cases hflush
  | _ => cases hflush

/-- A line that is written back takes the committed tail along as a whole. -/
theorem tail_writeBack (line : ℕ) (memory : CachedMemory) :
    loadWord (memory.writeBack cacheline line).media hdrCommittedTail 8 =
        loadWord memory.media hdrCommittedTail 8 ∨
      loadWord (memory.writeBack cacheline line).media hdrCommittedTail 8 =
        loadWord memory.cached hdrCommittedTail 8 := by
  have hline : ∀ i < 8, (hdrCommittedTail + i) / cacheline = 0 := by
    intro i hi
    unfold hdrCommittedTail cacheline
    omega
  by_cases hzero : line = 0
  · exact Or.inr (loadWord_congr (load_congr fun i hi ↦
      CachedMemory.writeBack_media_of_eq ((hline i hi).trans hzero.symm)))
  · exact Or.inl (loadWord_congr (load_congr fun i hi ↦
      CachedMemory.writeBack_media_of_ne (by rw [hline i hi]; exact Ne.symm hzero)))

end Fence
