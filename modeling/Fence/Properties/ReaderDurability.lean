import Fence.Properties.ReserveWrap
import Fence.Protocol.ReadAlone
import Fence.Protocol.Reopen

/-!
# What a reader has seen, after a crash

A record that was read can be lost by a crash, in two ways. Any sweep publishes a record from its
cached state byte, which its own writer may not have flushed yet. And the committed tail is never
flushed, so it falls back, and recovery does not get past an abandoned slot between the old tail
and the record (`not_readsSurvive_of_crash`). A record survives exactly when its committed state
and those of all slots from the tail on the media up to it have reached the media
(`read_survives_iff`).
-/

set_option autoImplicit false
set_option relaxedAutoImplicit false

namespace Fence

open ByteMemory Interleaving

variable {g : PoolGeometry} {hasher : Hasher}

/-- Whatever was read, and is not covered by a trim that was started, is read again after a crash
in this state. -/
def ReadsSurvive (g : PoolGeometry) (hasher : Hasher) (config : Config Call CachedMemory) : Prop :=
  ∀ (hostId : UInt16) (index : UInt64) (record : Record),
    .read hostId index (.returned (.ok (some record))) ∈ config.threads →
    (∀ call ∈ config.threads, ∀ upTo, call.request = .trim upTo → upTo.toNat < index.toNat) →
    ∀ recovered, Reopened g hasher config.shared.media recovered →
      Reads g hasher recovered index record

/-- The committed state of a slot, and those of all slots before it from the committed tail on,
are on the media. -/
def PublishedOnMedia (g : PoolGeometry) (media : Memory) (slot : ℕ) : Prop :=
  (Pool.ofMemory g media).state slot = stateCommitted ∧
    ∀ before < slot, (Pool.ofMemory g media).committedTail ≤ before →
      (Pool.ofMemory g media).state before = stateCommitted

instance (media : Memory) (slot : ℕ) : Decidable (PublishedOnMedia g media slot) :=
  inferInstanceAs (Decidable (_ ∧ ∀ before, before < slot → _))

section Survives

variable {config : Config Call CachedMemory} {recovered : Memory} {slot : ℕ}

/-- After reopening, a slot is committed below the tail exactly when it is published on the
media. -/
theorem Durable.published_iff (hdurable : Durable g hasher config)
    (hreopened : Reopened g hasher config.shared.media recovered) (hslot : slot < g.capacity) :
    (slot < (Pool.ofMemory g recovered).committedTail ∧
      (Pool.ofMemory g recovered).state slot = stateCommitted) ↔
      PublishedOnMedia g config.shared.media slot := by
  rw [hreopened.lt_tail_iff hslot, hreopened.committed_iff hslot, hdurable.kept_iff hslot]
  constructor
  · rintro ⟨hkept, hstate⟩
    refine ⟨hstate, fun before hbefore hlow ↦ ?_⟩
    exact (hdurable.kept_iff (Nat.lt_trans hbefore hslot)).mp
      (hkept before hlow (Nat.le_of_lt hbefore))
  · rintro ⟨hstate, hbefore⟩
    refine ⟨fun between hlow hhigh ↦ ?_, hstate⟩
    rw [hdurable.kept_iff (Nat.lt_of_le_of_lt hhigh hslot)]
    rcases Nat.lt_or_eq_of_le hhigh with hlt | rfl
    · exact hbefore between hlt hlow
    · exact hstate

/-- A stored record is read after reopening exactly when it is published on the media. -/
theorem Durable.reads_iff (hdurable : Durable g hasher config)
    (hreopened : Reopened g hasher config.shared.media recovered) {entry : Entry}
    {index : UInt64} (hindex : index.toNat = slot + 1)
    (hstored : Stored config.threads slot entry) :
    Reads g hasher recovered index (entry.record slot) ↔
      PublishedOnMedia g config.shared.media slot := by
  obtain ⟨hslot, hsize, -⟩ := hdurable.complete hstored
  rw [← hdurable.published_iff hreopened hslot]
  constructor
  · intro hreads
    exact hreads.visible hindex hslot
  · rintro ⟨htail, hstate⟩
    have hwritten := hdurable.persisted.written slot entry (hstored.mono_stage (by decide))
    exact reads_of_complete hindex hslot hsize htail hstate
      ((hreopened.written hslot hsize hwritten).complete (Nat.le_refl _) hslot hsize)

end Survives

/-- After every run in which the pending undos stay bounded, a record that was read is read again
after a crash exactly when it is published on the media. -/
theorem read_survives_iff {schedule : List (Action Request ℕ)}
    (hbounded : (cachedMachine g hasher).Along (UndosBoundedCached g hasher) schedule
      (freshCached g)) {hostId : UInt16} {index : UInt64} {record : Record}
    (hread : .read hostId index (.returned (.ok (some record))) ∈
      ((cachedMachine g hasher).run schedule (freshCached g)).threads) {recovered : Memory}
    (hreopened : Reopened g hasher
      ((cachedMachine g hasher).run schedule (freshCached g)).shared.media recovered) :
    Reads g hasher recovered index record ↔
      PublishedOnMedia g ((cachedMachine g hasher).run schedule (freshCached g)).shared.media
        (index.toNat - 1) := by
  have hdurable := durable_of_run hbounded
  obtain ⟨slot, hindex, entry, hstored, rfl⟩ := hdurable.invariant.contents.sound _ hread
  have hslot : index.toNat - 1 = slot := by omega
  rw [hslot]
  exact hdurable.reads_iff hreopened hindex.symm hstored

/-- Two appends, the second one read, and the header written back before the first one is
trimmed. -/
theorem read_survives_twoPool : ∃ recovered,
    Reopened twoPool crc32fast ((cachedMachine twoPool crc32fast).run
      (alone (.append firstEntry) 0 17 ++ alone (.append secondEntry) 1 17 ++
        alone (.read 0 2) 2 10 ++ [.env 0] ++ alone (.trim 1) 3 4)
      (freshCached twoPool)).shared.media recovered ∧
    Reads twoPool crc32fast recovered 2 ⟨2, 2, 0, [9]⟩ := by
  have hreopened : Reopened twoPool crc32fast ((cachedMachine twoPool crc32fast).run
      (alone (.append firstEntry) 0 17 ++ alone (.append secondEntry) 1 17 ++
        alone (.read 0 2) 2 10 ++ [.env 0] ++ alone (.trim 1) 3 4)
      (freshCached twoPool)).shared.media _ :=
    ⟨0, 11, ⟨0, 2, 2⟩, Prod.ext (by decide +kernel) rfl⟩
  exact ⟨_, hreopened, (read_survives_iff (by decide +kernel)
    (by decide +kernel : Call.read 0 2 (.returned (.ok (some ⟨2, 2, 0, [9]⟩))) ∈ _)
    hreopened).mpr (by decide +kernel)⟩

/-- Two appends, the second one read and the first one trimmed, and no line written back. -/
def trimBelowRead : List (Action Request ℕ) :=
  alone (.append firstEntry) 0 17 ++ alone (.append secondEntry) 1 17 ++
    alone (.read 0 2) 2 10 ++ alone (.trim 1) 3 4

/-- The crash leaves the committed tail at zero and the first slot abandoned, and recovery does
not get to the second one. -/
theorem not_readsSurvive_of_crash :
    ¬ ReadsSurvive twoPool crc32fast
      ((cachedMachine twoPool crc32fast).run trimBelowRead (freshCached twoPool)) := by
  intro hsurvive
  have hread : .read 0 2 (.returned (.ok (some ⟨2, 2, 0, [9]⟩))) ∈ ((cachedMachine twoPool
      crc32fast).run trimBelowRead (freshCached twoPool)).threads := by decide +kernel
  have hrequests : ((cachedMachine twoPool crc32fast).run trimBelowRead
      (freshCached twoPool)).threads.map Call.request =
        [.append firstEntry, .append secondEntry, .read 0 2, .trim 1] := by decide +kernel
  have hreopened : Reopened twoPool crc32fast ((cachedMachine twoPool crc32fast).run
      trimBelowRead (freshCached twoPool)).shared.media _ :=
    ⟨0, 4, ⟨0, 0, 0⟩, Prod.ext (by decide +kernel) rfl⟩
  have hreads := hsurvive 0 2 _ hread ?_ _ hreopened
  · have htail := (hreads.visible (by decide : (2 : UInt64).toNat = 1 + 1) (by decide)).1
    exact absurd htail (by decide +kernel)
  · intro call hmem upTo hrequest
    have hstarted := List.mem_map_of_mem (f := Call.request) hmem
    rw [hrequests, hrequest] at hstarted
    simp only [List.mem_cons, Request.trim.injEq, reduceCtorEq, List.not_mem_nil, or_false,
      false_or] at hstarted
    rw [hstarted]
    decide

end Fence
