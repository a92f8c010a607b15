import Fence.Library.Eras
import Fence.Library.Moments
import Fence.Properties.CreatedPools
import Fence.Runtime.OpenCalls

/-!
# Creating a pool through power failures

Any number of hosts create and open a pool on a file of zeros, and power failures cut them off any
number of times, with the header partly written or not written back. The magic number is the first
word of the header, so a pool that was created in part can be opened, but it is as empty as one
that was created as a whole (`Newborn`). Whatever the failures leave is refused for its magic number
of zero or opened as an empty log, and once a creation has returned, every call opens it
(`creation_survives_power_failures`).
-/

set_option autoImplicit false
set_option relaxedAutoImplicit false

namespace Fence

open ByteMemory Interleaving

variable {checked : Bool} {g : PoolGeometry} {hasher : Hasher}

/-! ### New pools -/

/-- The magic number is there. -/
def HasMagic (memory : Memory) : Prop := loadWord memory hdrMagic 8 = magicNumber

/-- A file of zeros on which words of the header of a new pool were written. -/
structure Newborn (memory : Memory) : Prop where
  behind : ∀ address, headerSize ≤ address → memory address = 0
  committedTail : loadWord memory hdrCommittedTail 8 = 0
  reserveTail : loadWord memory hdrReserveTail 8 = 0
  magic : loadWord memory hdrMagic 8 = 0 ∨ HasMagic memory

theorem loadWord_zeros (offset : ℕ) : loadWord (fun _ ↦ 0) offset 8 = 0 := by
  simp [loadWord, load, leValue]

theorem Newborn.zeros : Newborn fun _ ↦ 0 where
  behind := fun _ _ ↦ rfl
  committedTail := loadWord_zeros _
  reserveTail := loadWord_zeros _
  magic := Or.inl (loadWord_zeros _)

section Newborn

variable {memory : Memory} (hnewborn : Newborn memory)

include hnewborn

/-- Whoever opens such a pool finds it empty. -/
theorem Newborn.logIsEmpty : LogIsEmpty checked g hasher memory := by
  have hserves : Serves checked g hasher .empty memory := by
    constructor
    · refine Represents.nil hnewborn.committedTail hnewborn.reserveTail fun slot hslot ↦ ?_
      have hheader := g.headerSize_le_recordOffset slot
      rw [Pool.ofMemory_state hslot, hnewborn.behind _ (by omega)]
      decide
    · refine .of_eq fun hostId _ field _ ↦ ?_
      have hheader := @headerSize_le_metricsOffset g hostId
      have hload : loadWord memory (g.metricsOffset hostId + field) 8 = loadWord (fun _ ↦ 0) 0 8 :=
        loadWord_congr (load_congr fun i _ ↦ hnewborn.behind _ (by omega))
      exact hload.trans (loadWord_zeros 0)
  exact hserves.logIsEmpty

/-- A word of the header that is none of the tails, or is zero, and the magic number where it
belongs. -/
theorem Newborn.storeWord {offset value : ℕ} (hheader : offset + 8 ≤ headerSize)
    (hmagic : offset = hdrMagic ∧ value = magicNumber ∨ hdrMagic + 8 ≤ offset)
    (hcommitted : offset = hdrCommittedTail ∧ value = 0 ∨ offset + 8 ≤ hdrCommittedTail ∨
      hdrCommittedTail + 8 ≤ offset)
    (hreserve : offset = hdrReserveTail ∧ value = 0 ∨ offset + 8 ≤ hdrReserveTail ∨
      hdrReserveTail + 8 ≤ offset) :
    Newborn (storeWord memory offset 8 value) ∧
      (HasMagic memory → HasMagic (storeWord memory offset 8 value)) := by
  have hkept : ∀ {other : ℕ}, other + 8 ≤ offset ∨ offset + 8 ≤ other →
      loadWord (ByteMemory.storeWord memory offset 8 value) other 8 = loadWord memory other 8 :=
    fun hoff ↦ loadWord_store_outside (by rwa [length_leBytes])
  have hzero : ∀ {other : ℕ}, loadWord memory other 8 = 0 →
      (offset = other ∧ value = 0 ∨ offset + 8 ≤ other ∨ other + 8 ≤ offset) →
      loadWord (ByteMemory.storeWord memory offset 8 value) other 8 = 0 := by
    rintro other hbefore (⟨rfl, rfl⟩ | hoff)
    · rw [loadWord_storeWord_self, Nat.zero_mod]
    · rw [hkept hoff.symm, hbefore]
  have hborn : HasMagic memory → HasMagic (ByteMemory.storeWord memory offset 8 value) := by
    intro hbefore
    rcases hmagic with ⟨rfl, rfl⟩ | hoff
    · exact (loadWord_storeWord_self _ _ _ _).trans (by decide)
    · exact (hkept (Or.inl hoff)).trans hbefore
  refine ⟨⟨fun address haddress ↦ ?_, hzero hnewborn.committedTail hcommitted,
    hzero hnewborn.reserveTail hreserve, ?_⟩, hborn⟩
  · rw [ByteMemory.storeWord, store_apply_outside (by rw [length_leBytes]; omega)]
    exact hnewborn.behind address haddress
  · rcases hmagic with ⟨rfl, rfl⟩ | hoff
    · exact Or.inr ((loadWord_storeWord_self _ _ _ _).trans (by decide))
    · exact hnewborn.magic.imp (hkept (Or.inl hoff)).trans hborn

/-- A backend call of a creation or an opening leaves a new pool new. -/
theorem Newborn.exec (point : PoolOpenPoint) :
    Newborn ((FenceRuntime.openMapped g point).exec memory).2 ∧
      (HasMagic memory → HasMagic ((FenceRuntime.openMapped g point).exec memory).2) := by
  cases point with
  | flushHeader => exact ⟨hnewborn, id⟩
  | loadMagic => exact ⟨hnewborn, id⟩
  | _ =>
    simp only [FenceRuntime.openMapped, BackendCall.exec]
    refine hnewborn.storeWord ?_ ?_ ?_ ?_ <;>
      simp [headerSize, hdrMagic, hdrCapacity, hdrRecordSize, hdrMaxHosts, hdrCommittedTail,
        hdrReserveTail, hdrEpoch]

end Newborn

/-! ### A cache -/

/-- The header lies in one line, which reaches the media as a whole or not at all. -/
theorem header_persist (memory : CachedMemory) (lines : ℕ → Prop) [DecidablePred lines] :
    (∀ address < headerSize,
      (memory.persist cacheline lines).media address = memory.media address) ∨
    (∀ address < headerSize,
      (memory.persist cacheline lines).media address = memory.cached address) := by
  have hline : ∀ address < headerSize, address / cacheline = 0 := fun address hlt ↦
    Nat.div_eq_of_lt hlt
  by_cases hzero : lines 0
  · exact Or.inr fun address hlt ↦ if_pos (by rwa [hline address hlt])
  · exact Or.inl fun address hlt ↦ if_neg (by rwa [hline address hlt])

/-- A word of the header is that of the media or of the cache. -/
theorem loadWord_of_header {memory other : Memory}
    (hsame : ∀ address < headerSize, memory address = other address) {offset : ℕ}
    (hheader : offset + 8 ≤ headerSize) : loadWord memory offset 8 = loadWord other offset 8 :=
  loadWord_congr (load_congr fun i hi ↦ hsame _ (by omega))

/-- The cache and the media hold new pools, and the media has the magic number only if the cache
has it. -/
structure NewbornBoth (memory : CachedMemory) : Prop where
  cached : Newborn memory.cached
  media : Newborn memory.media
  caught : HasMagic memory.media → HasMagic memory.cached

/-- Whatever lines reach the media, it holds a new pool, and the magic number if it held it. -/
theorem NewbornBoth.persist {memory : CachedMemory} (hnewborn : NewbornBoth memory)
    (lines : ℕ → Prop) [DecidablePred lines] :
    NewbornBoth (memory.persist cacheline lines) ∧
      (HasMagic memory.media → HasMagic (memory.persist cacheline lines).media) := by
  have hof : ∀ other : Memory, Newborn other →
      (∀ address < headerSize, (memory.persist cacheline lines).media address = other address) →
      Newborn (memory.persist cacheline lines).media ∧
        (HasMagic (memory.persist cacheline lines).media ↔ HasMagic other) := by
    intro other hother hsame
    have hmagic := @loadWord_of_header _ other hsame hdrMagic (by decide)
    refine ⟨⟨fun address haddress ↦ ?_, ?_, ?_, ?_⟩, ?_⟩
    · rcases memory.persist_media lines address with hmedia | hmedia
      · exact hmedia.trans (hnewborn.media.behind address haddress)
      · exact hmedia.trans (hnewborn.cached.behind address haddress)
    · exact (loadWord_of_header hsame (by decide)).trans hother.committedTail
    · exact (loadWord_of_header hsame (by decide)).trans hother.reserveTail
    · exact hother.magic.imp hmagic.trans hmagic.trans
    · rw [HasMagic, hmagic, HasMagic]
  rcases header_persist memory lines with hsame | hsame
  · obtain ⟨hmedia, hmagic⟩ := hof _ hnewborn.media hsame
    exact ⟨⟨hnewborn.cached, hmedia, fun hhas ↦ hnewborn.caught (hmagic.mp hhas)⟩, hmagic.mpr⟩
  · obtain ⟨hmedia, hmagic⟩ := hof _ hnewborn.cached hsame
    exact ⟨⟨hnewborn.cached, hmedia, hmagic.mp⟩, fun hhas ↦ hmagic.mpr (hnewborn.caught hhas)⟩

/-- A backend call of a creation or an opening keeps both, and takes no magic number away. -/
theorem NewbornBoth.execCached {memory : CachedMemory} (hnewborn : NewbornBoth memory)
    (point : PoolOpenPoint) :
    NewbornBoth ((FenceRuntime.openMapped g point).execCached memory).2 ∧
      (HasMagic memory.cached →
        HasMagic ((FenceRuntime.openMapped g point).execCached memory).2.cached) ∧
      (HasMagic memory.media →
        HasMagic ((FenceRuntime.openMapped g point).execCached memory).2.media) := by
  obtain ⟨hcached, hmagic⟩ := hnewborn.cached.exec (g := g) point
  have hsame := ((FenceRuntime.openMapped g point).execCached_eq memory).2
  rcases (FenceRuntime.openMapped g point).execCached_media memory with
    hmedia | ⟨offset, length, next, -, hflush⟩
  · rw [← hsame] at hcached hmagic
    refine ⟨⟨hcached, hmedia ▸ hnewborn.media, fun hhas ↦ hmagic (hnewborn.caught ?_)⟩, hmagic,
      fun hhas ↦ ?_⟩
    · rwa [hmedia] at hhas
    · rwa [hmedia]
  · obtain ⟨hboth, hkept⟩ := hnewborn.persist (CachedMemory.Covers cacheline offset length)
    rw [hflush]
    exact ⟨hboth, id, hkept⟩

/-! ### Calls -/

/-- What a call knows of the magic number. With `born` the magic number was in the cache when the
call began. -/
def OpenCall.Knows (born : Prop) (memory : CachedMemory) (call : OpenCall) : Prop :=
  match call.task with
  | .running .storeMagic => True
  | .running .loadMagic => call.create = false
  | .running _ => HasMagic memory.cached
  | .returned (.ok ()) => HasMagic memory.cached ∧ (call.create = true → HasMagic memory.media)
  | .returned (.error error) =>
    call.create = false ∧ ¬ born ∧ error = .invalidMagic magicNumber 0

/-- What a call knows it knows for good. -/
theorem OpenCall.Knows.mono {born : Prop} {memory later : CachedMemory} {call : OpenCall}
    (hknows : call.Knows born memory) (hcached : HasMagic memory.cached → HasMagic later.cached)
    (hmedia : HasMagic memory.media → HasMagic later.media) : call.Knows born later := by
  match call with
  | ⟨create, .running point⟩ =>
    cases point with
    | storeMagic => trivial
    | loadMagic => exact hknows
    | _ => exact hcached hknows
  | ⟨create, .returned (.ok ())⟩ =>
    exact ⟨hcached hknows.1, fun hcreate ↦ hmedia (hknows.2 hcreate)⟩
  | ⟨create, .returned (.error error)⟩ => exact hknows

theorem OpenCall.Knows.imp {born earlier : Prop} {memory : CachedMemory} {call : OpenCall}
    (hknows : call.Knows born memory) (hborn : earlier → born) : call.Knows earlier memory := by
  match call with
  | ⟨create, .running point⟩ => cases point <;> exact hknows
  | ⟨create, .returned (.ok ())⟩ => exact hknows
  | ⟨create, .returned (.error error)⟩ => exact ⟨hknows.1, mt hborn hknows.2.1, hknows.2.2⟩

/-- What a call knows after a step. -/
theorem OpenCall.Knows.step {born : Prop} {memory : CachedMemory} {create : Bool}
    {point : PoolOpenPoint} (hnewborn : NewbornBoth memory) (hborn : born → HasMagic memory.cached)
    (hknows : OpenCall.Knows born memory ⟨create, .running point⟩) :
    OpenCall.Knows born ((FenceRuntime.openMapped g point).execCached memory).2
      ⟨create, ((FenceRuntime.openMapped g point).execCached memory).1⟩ := by
  obtain ⟨-, hcached, -⟩ := hnewborn.execCached (g := g) point
  cases point with
  | storeMagic =>
    have hword := loadWord_storeWord_self memory.cached hdrMagic 8 magicNumber
    exact hword.trans (by decide)
  | flushHeader =>
    refine ⟨hknows, fun _ ↦ ?_⟩
    have hmedia : ∀ address < headerSize,
        (memory.flush cacheline 0 headerSize).media address = memory.cached address :=
      fun address hlt ↦ CachedMemory.flush_media_inside (Nat.zero_le _) (by omega)
    exact (loadWord_of_header hmedia (by decide)).trans hknows
  | loadMagic =>
    have hcreate : create = false := hknows
    rcases hnewborn.cached.magic with hzero | hmagic
    · have htask : ((FenceRuntime.openMapped g .loadMagic).execCached memory).1 =
          .returned (.error (.invalidMagic magicNumber 0)) := by
        show Task.returned (checkMagic (loadWord memory.cached hdrMagic 8)) = _
        rw [hzero]
        rfl
      rw [htask]
      refine ⟨hcreate, fun hhas ↦ ?_, rfl⟩
      have hmagic := hborn hhas
      rw [HasMagic, hzero] at hmagic
      cases hmagic
    · have htask : ((FenceRuntime.openMapped g .loadMagic).execCached memory).1 =
          .returned (.ok ()) := by
        show Task.returned (checkMagic (loadWord memory.cached hdrMagic 8)) = _
        rw [checkMagic, if_neg fun hne ↦ hne hmagic]
      rw [htask]
      refine ⟨hmagic, fun htrue ↦ ?_⟩
      rw [hcreate] at htrue
      cases htrue
  | _ => exact hcached hknows

/-! ### Runs and failures -/

/-- What an action leaves of a new pool. -/
theorem NewbornBoth.apply {config : Config OpenCall CachedMemory}
    (hnewborn : NewbornBoth config.shared) (action : Interleaving.Action Bool ℕ) :
    NewbornBoth ((cachedOpenMachine g).apply config action).shared ∧
      (HasMagic config.shared.cached →
        HasMagic ((cachedOpenMachine g).apply config action).shared.cached) ∧
      (HasMagic config.shared.media →
        HasMagic ((cachedOpenMachine g).apply config action).shared.media) := by
  cases action with
  | start create => exact ⟨hnewborn, id, id⟩
  | env line =>
    obtain ⟨hboth, hkept⟩ := hnewborn.persist fun other ↦ other = line
    exact ⟨hboth, id, hkept⟩
  | step index =>
    cases hcall : config.threads[index]? with
    | none =>
      rw [apply_step_of_none _ hcall]
      exact ⟨hnewborn, id, id⟩
    | some call =>
      rw [apply_step_of_getElem? _ hcall]
      match call with
      | ⟨create, .returned outcome⟩ => exact ⟨hnewborn, id, id⟩
      | ⟨create, .running point⟩ => exact hnewborn.execCached point

/-- Hosts open a new pool. The calls that are `born` began when the magic number was in the cache.
-/
structure Opening (born : ℕ → Prop) (config : Config OpenCall CachedMemory) : Prop
    extends NewbornBoth config.shared where
  kept : ∀ index, born index → HasMagic config.shared.cached
  calls : ∀ (index : ℕ) (call : OpenCall), config.threads[index]? = some call →
    call.Knows (born index) config.shared

theorem Opening.apply {born : ℕ → Prop} {config : Config OpenCall CachedMemory}
    (hopening : Opening born config) (action : Interleaving.Action Bool ℕ) :
    Opening born ((cachedOpenMachine g).apply config action) := by
  obtain ⟨hboth, hcached, hmedia⟩ := hopening.toNewbornBoth.apply (g := g) action
  refine ⟨hboth, fun index hborn ↦ hcached (hopening.kept index hborn), fun index call hcall ↦ ?_⟩
  rcases @getElem?_apply_cases _ _ _ _ (cachedOpenMachine g) config action index with
    hsame | ⟨create, -, hstarted⟩ | ⟨before, rfl, hbefore, hmoved⟩
  · exact (hopening.calls index call (hsame.symm.trans hcall)).mono hcached hmedia
  · obtain rfl := Option.some.inj (hstarted.symm.trans hcall)
    cases create with
    | true => trivial
    | false => rfl
  · have hknows := hopening.calls index before hbefore
    obtain rfl := Option.some.inj (hmoved.symm.trans hcall)
    match before with
    | ⟨create, .returned outcome⟩ => exact hknows.mono hcached hmedia
    | ⟨create, .running point⟩ =>
      rw [apply_step_of_getElem? _ hbefore]
      exact hknows.step hopening.toNewbornBoth (hopening.kept index)

theorem Opening.run {born : ℕ → Prop} {config : Config OpenCall CachedMemory}
    (hopening : Opening born config) (schedule : List (Interleaving.Action Bool ℕ)) :
    Opening born ((cachedOpenMachine g).run schedule config) :=
  invariant_run_always (Opening born) (fun _ action hreached ↦ hreached.apply action) schedule
    hopening

/-- Hosts open a pool that was created in part, or as a whole. -/
theorem Opening.of_clean {memory : Memory} (hnewborn : Newborn memory) :
    Opening (fun _ ↦ HasMagic memory) ⟨.clean memory, []⟩ where
  cached := hnewborn
  media := hnewborn
  caught := id
  kept := fun _ hmagic ↦ hmagic
  calls := fun _ _ hcall ↦ by cases hcall

/-- The magic number stays on the media. -/
theorem NewbornBoth.media_run {config : Config OpenCall CachedMemory}
    (hnewborn : NewbornBoth config.shared) (hmagic : HasMagic config.shared.media)
    (schedule : List (Interleaving.Action Bool ℕ)) :
    HasMagic ((cachedOpenMachine g).run schedule config).shared.media := by
  refine (invariant_run_always (fun reached : Config OpenCall CachedMemory ↦
    NewbornBoth reached.shared ∧ HasMagic reached.shared.media) ?_ schedule
      ⟨hnewborn, hmagic⟩).2
  rintro reached action ⟨hreached, hhas⟩
  obtain ⟨hboth, -, hmedia⟩ := hreached.apply (g := g) action
  exact ⟨hboth, hmedia hhas⟩

/-- What a number of failures leave is a new pool, with the magic number if it was there. -/
theorem exists_newborn_of_failures {memory : Memory} (hnewborn : Newborn memory)
    (eras : List (List (Interleaving.Action Bool ℕ))) :
    ∃ later, (cachedOpenMachine g).survives CachedMemory.powerFailure eras (.clean memory) =
      .clean later ∧ Newborn later ∧ (HasMagic memory → HasMagic later) := by
  refine survives_invariant (fun shared : CachedMemory ↦ ∃ later, shared = .clean later ∧
    Newborn later ∧ (HasMagic memory → HasMagic later)) ?_ eras ⟨memory, rfl, hnewborn, id⟩
  rintro shared schedule ⟨later, rfl, hlater, hkept⟩
  have hopening := Opening.of_clean hlater
  exact ⟨_, rfl, (hopening.run schedule).media,
    fun hmagic ↦ hopening.media_run (hkept hmagic) schedule⟩

/-- Hosts open a file of zeros, after a number of power failures that cut off others. -/
def openAfterFailures (g : PoolGeometry) (eras : List (List (Interleaving.Action Bool ℕ)))
    (schedule : List (Interleaving.Action Bool ℕ)) : Config OpenCall CachedMemory :=
  (cachedOpenMachine g).run schedule
    ⟨(cachedOpenMachine g).survives CachedMemory.powerFailure eras (.clean fun _ ↦ 0), []⟩

/-- Whatever failures cut off, the pool is empty in the cache and on the media, and every call that
has returned has opened it or has found a magic number of zero. Once a creation has returned, every
call opens it that begins later, also after further failures. -/
theorem creation_survives_power_failures (checked : Bool) (g : PoolGeometry) (hasher : Hasher)
    (eras : List (List (Interleaving.Action Bool ℕ)))
    (first : List (Interleaving.Action Bool ℕ)) :
    LogIsEmpty checked g hasher (openAfterFailures g eras first).shared.cached ∧
      LogIsEmpty checked g hasher (openAfterFailures g eras first).shared.media ∧
      (∀ create outcome, ⟨create, .returned outcome⟩ ∈ (openAfterFailures g eras first).threads →
        outcome = .ok () ∧ HasMagic (openAfterFailures g eras first).shared.cached ∨
          create = false ∧ outcome = .error (.invalidMagic magicNumber 0)) ∧
      (⟨true, .returned (.ok ())⟩ ∈ (openAfterFailures g eras first).threads →
        ∀ second,
          (∀ index create outcome, (openAfterFailures g eras first).threads.length ≤ index →
            (openAfterFailures g eras (first ++ second)).threads[index]? =
              some ⟨create, .returned outcome⟩ → outcome = .ok ()) ∧
          ∀ more last create outcome, ⟨create, .returned outcome⟩ ∈
              (openAfterFailures g (eras ++ (first ++ second) :: more) last).threads →
            outcome = .ok ()) := by
  obtain ⟨memory, hmemory, hnewborn, -⟩ := exists_newborn_of_failures (g := g) Newborn.zeros eras
  have hrun : ∀ schedule, openAfterFailures g eras schedule =
      (cachedOpenMachine g).run schedule ⟨.clean memory, []⟩ := fun schedule ↦ by
    rw [openAfterFailures, hmemory]
  have hopening := (Opening.of_clean hnewborn).run (g := g) first
  rw [← hrun] at hopening
  refine ⟨hopening.cached.logIsEmpty, hopening.media.logIsEmpty, ?_, ?_⟩
  · intro create outcome hmem
    obtain ⟨index, hindex⟩ := List.mem_iff_getElem?.mp hmem
    have hknows := hopening.calls index _ hindex
    cases outcome with
    | ok done => exact Or.inl ⟨rfl, hknows.1⟩
    | error error => exact Or.inr ⟨hknows.1, congrArg Except.error hknows.2.2⟩
  · intro hcreated second
    obtain ⟨creator, hcreator⟩ := List.mem_iff_getElem?.mp hcreated
    obtain ⟨hcached, hmedia⟩ := hopening.calls creator _ hcreator
    have hlater : openAfterFailures g eras (first ++ second) =
        (cachedOpenMachine g).run second (openAfterFailures g eras first) := by
      rw [hrun, hrun, run_append]
    have hborn : Opening ((openAfterFailures g eras first).threads.length ≤ ·)
        (openAfterFailures g eras first) :=
      { toNewbornBoth := hopening.toNewbornBoth
        kept := fun _ _ ↦ hcached
        calls := fun index call hcall ↦ (hopening.calls index call hcall).imp fun hle ↦ by
          rw [List.getElem?_eq_none hle] at hcall
          cases hcall }
    constructor
    · intro index create outcome hindex hreturned
      rw [hlater] at hreturned
      have hknows := (hborn.run second).calls index _ hreturned
      cases outcome with
      | ok done => rfl
      | error error => exact absurd hindex hknows.2.1
    · intro more last create outcome hmem
      have hend := hborn.run (g := g) second
      have hkept := hopening.media_run (g := g) (hmedia rfl) second
      rw [← hlater] at hend hkept
      obtain ⟨last', hlast, hstill, hmagic⟩ := exists_newborn_of_failures (g := g) hend.media more
      have hsurvives : (cachedOpenMachine g).survives CachedMemory.powerFailure
          (eras ++ (first ++ second) :: more) (.clean fun _ ↦ 0) = .clean last' := by
        rw [← hlast, Machine.survives, List.foldl_append]
        rfl
      obtain ⟨index, hindex⟩ := List.mem_iff_getElem?.mp hmem
      rw [openAfterFailures, hsurvives] at hindex
      have hknows := ((Opening.of_clean hstill).run last).calls index _ hindex
      cases outcome with
      | ok done => rfl
      | error error => exact absurd (hmagic hkept) hknows.2.1

/-- A creation that is cut off when the magic number was stored and written back. -/
def tornCreation : List (Interleaving.Action Bool ℕ) := [.start true, .step 0, .env 0]

/-- A creation that returns. -/
def wholeCreation : List (Interleaving.Action Bool ℕ) := alone true 0 8

theorem creation_survives_power_failures_twoPool :
    ∀ second,
      (∀ index create outcome,
        (openAfterFailures twoPool [tornCreation] wholeCreation).threads.length ≤ index →
          (openAfterFailures twoPool [tornCreation] (wholeCreation ++ second)).threads[index]? =
            some ⟨create, .returned outcome⟩ → outcome = .ok ()) ∧
      ∀ more last create outcome, ⟨create, .returned outcome⟩ ∈
          (openAfterFailures twoPool ([tornCreation] ++ (wholeCreation ++ second) :: more)
            last).threads →
        outcome = .ok () :=
  (creation_survives_power_failures true twoPool crc32fast [tornCreation] wholeCreation).2.2.2
    (List.mem_of_getElem? (by decide +kernel :
      (openAfterFailures twoPool [tornCreation] wholeCreation).threads[0]? = _))

end Fence
