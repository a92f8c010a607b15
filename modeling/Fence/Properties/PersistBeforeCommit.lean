import Fence.Properties.ReserveWrap
import Fence.Protocol.Reopen

/-!
# Records reach the media before their committed state

At every moment, and so at every crash, a slot that is committed on the media has there exactly
what its append wrote, and an append that returned has its record there, committed or covered by
a trim. This holds for every geometry, so for records that share lines with their neighbours too.
It needs the bound on pending undos: after the wrap another append marks the slot of a returned
one as being written (`not_persistBeforeCommit_of_wrap`).
-/

set_option autoImplicit false
set_option relaxedAutoImplicit false

namespace Fence

open ByteMemory Interleaving

variable {g : PoolGeometry} {hasher : Hasher}

/-- What a crash leaves of committed and of returned records. -/
structure PersistBeforeCommit (g : PoolGeometry) (hasher : Hasher)
    (config : Config Call CachedMemory) : Prop where
  committed : ∀ slot < g.capacity,
    (Pool.ofMemory g config.shared.media).state slot = stateCommitted →
      ∃ writer entry, Writes config.threads writer slot entry ∧
        (∀ other, Holds config.threads other slot → other = writer) ∧
        Complete hasher entry slot ((Pool.ofMemory g config.shared.media).slot slot) ∧
        checksumOk g hasher config.shared.media slot = true
  returned : ∀ (entry : Entry) (index : ℕ),
    .append entry (.returned (.ok index)) ∈ config.threads →
      ((Pool.ofMemory g config.shared.media).state (index - 1) = stateCommitted ∨
        (Pool.ofMemory g config.shared.media).state (index - 1) = stateAbandoned ∧
          ∃ call ∈ config.threads, call.Trims (index - 1)) ∧
      Complete hasher entry (index - 1)
        ((Pool.ofMemory g config.shared.media).slot (index - 1))

theorem DurableTrimming.persistBeforeCommit {config : Config Call CachedMemory}
    (hdurable : DurableTrimming g hasher config) : PersistBeforeCommit g hasher config where
  committed := by
    intro slot hslot hstate
    obtain ⟨entry, hstored⟩ := hdurable.persisted.committed slot hslot hstate
    obtain ⟨-, hsize, hcomplete⟩ := hdurable.complete hstored
    obtain ⟨call, hmem, stage, -, hreservation⟩ := hstored
    obtain ⟨writer, hwriter⟩ := List.mem_iff_getElem?.mp hmem
    refine ⟨writer, entry, ⟨call, stage, hwriter, hreservation⟩, fun other hother ↦ ?_, hcomplete,
      hcomplete.checksumOk hslot hsize⟩
    exact hdurable.invariant.reserved.exclusive _ _ _ hother
      (holds_of_reservation hwriter hreservation)
  returned := by
    intro entry index hmem
    have hreached : Reached config.threads (index - 1) entry 10 :=
      ⟨_, hmem, 13, by decide, rfl⟩
    obtain ⟨hslot, -, hcomplete⟩ := hdurable.complete (hreached.mono_stage (by decide))
    refine ⟨?_, hcomplete⟩
    rcases hdurable.persisted.flushed _ _ hreached with hcommitted | habandoned
    · exact Or.inl hcommitted
    · exact Or.inr ⟨habandoned, hdurable.trimmed _ hslot habandoned⟩

/-- Records reach the media before their committed state in every run of appends, reads and trims
in which the pending undos stay bounded, whatever lines are written back. -/
theorem persist_before_commit {schedule : List (Action Request ℕ)}
    (hrecover : ∀ action ∈ schedule, startsRecover action = false)
    (hbounded : (cachedMachine g hasher).Along (UndosBoundedCached g hasher) schedule
      (freshCached g)) :
    PersistBeforeCommit g hasher ((cachedMachine g hasher).run schedule (freshCached g)) :=
  (durableTrimming_of_run hrecover hbounded).persistBeforeCommit

/-- Two appends to records of 72 bytes, so that the second record starts inside a line of the
first one, with lines written back and a trim between them. -/
theorem persist_before_commit_twoPool :
    PersistBeforeCommit twoPool crc32fast ((cachedMachine twoPool crc32fast).run
      (alone (.append firstEntry) 0 5 ++ [.env 1, .env 2] ++ alone (.append secondEntry) 1 9 ++
        [.env 0] ++ List.replicate 12 (.step 0) ++ alone (.trim 1) 2 3 ++ [.env 1])
      (freshCached twoPool)) :=
  persist_before_commit (by decide) (by decide +kernel)

/-! ### A returned record overwritten -/

/-- After `2 ^ 64 - 1` stalled appends the slot of the first one is handed out again and marked as
being written, and its line is written back. -/
def overwriteReturned {Event : Type} (count : ℕ) : List (Action Request Event) :=
  fillPool ++ flood (.append secondEntry) 1 count ++ alone (.append secondEntry) (1 + count) 2

theorem run_overwriteReturned {count : ℕ} (hcount : count + 1 = 2 ^ 64) :
    (.append firstEntry (.returned (.ok 1))) ∈ ((runtimeMachine onePool crc32fast).run
      (overwriteReturned count) (freshConfig onePool)).threads ∧
    ((runtimeMachine onePool crc32fast).run (overwriteReturned count)
      (freshConfig onePool)).shared (onePool.recordOffset 0 + recState) = stateWriting := by
  have hagain : ((runtimeMachine onePool crc32fast).solo 2
      ((runtimeMachine onePool crc32fast).start (.append secondEntry))
      (storeWord singleRecord hdrReserveTail 8 0)).2 (onePool.recordOffset 0 + recState) =
      stateWriting := by decide +kernel
  rw [overwriteReturned, run_fillPool_wrapped 2 hcount]
  exact ⟨by simp, hagain⟩

theorem not_persistBeforeCommit_overwriteReturned {count : ℕ} (hcount : count + 1 = 2 ^ 64) :
    ¬ PersistBeforeCommit onePool crc32fast ((cachedMachine onePool crc32fast).run
      (overwriteReturned count ++ [.env 1]) (freshCached onePool)) := by
  have hcached := @cachedMachine_run_cached onePool crc32fast
    (overwriteReturned count) (freshCached onePool)
  have herase : (overwriteReturned count : List (Action Request ℕ)).filterMap Action.erase =
      (overwriteReturned count : List (Action Request Empty)) := by
    simp only [overwriteReturned, fillPool, List.filterMap_append, filterMap_erase_alone,
      filterMap_erase_flood]
  obtain ⟨hreturned, hwriting⟩ := run_overwriteReturned hcount
  rw [herase, withoutMedia_freshCached] at hcached
  rw [← hcached] at hreturned hwriting
  intro hpersist
  rw [run_append] at hpersist
  generalize (cachedMachine onePool crc32fast).run (overwriteReturned count)
    (freshCached onePool) = config at hreturned hwriting hpersist
  have hslot : 0 < onePool.capacity := by decide
  have hstate : (Pool.ofMemory onePool ((cachedMachine onePool crc32fast).run [.env 1]
      config).shared.media).state 0 = stateWriting := by
    rw [Pool.ofMemory_state hslot]
    exact (CachedMemory.writeBack_media_of_eq (by decide)).trans hwriting
  rcases (hpersist.returned firstEntry 1 hreturned).1 with hcommitted | ⟨habandoned, -⟩
  · exact absurd (hstate.symm.trans hcommitted) (by decide)
  · exact absurd (hstate.symm.trans habandoned) (by decide)

/-- The run with its last line written back leaves the returned record marked as being
written. -/
theorem not_persistBeforeCommit_of_wrap :
    ¬ PersistBeforeCommit onePool crc32fast ((cachedMachine onePool crc32fast).run
      (overwriteReturned (2 ^ 64 - 1) ++ [.env 1]) (freshCached onePool)) :=
  not_persistBeforeCommit_overwriteReturned (Nat.sub_add_cancel (by decide : 1 ≤ 2 ^ 64))

end Fence
