import Fence.Alloc.Loops

/-!
# Allocator calls that run alone

What every call of the allocator returns and leaves when it runs alone. The loops are those of
`Alloc.Loops`, carried over by `routine_ends_inside`. A `create_region` is cut at the points where
its loops end, so that it can be followed from any of them.
-/

set_option autoImplicit false
set_option relaxedAutoImplicit false

namespace Fence

open ByteMemory Interleaving

variable {base poolSize : ℕ} {memory : Memory}

/-! ### Steps -/

/-- A call of a kind steps through a routine, until that has returned. -/
structure AllocCall.Runs (base poolSize : ℕ) {Point Result : Type}
    (inside : Task Point Result → AllocCall) (routine : Point → BackendCall (Task Point Result)) :
    Prop where
  running : ∀ point,
    (inside (.running point)).next base poolSize = some ((routine point).map inside)
  returned : ∀ done, (inside (.returned done)).next base poolSize = none

namespace AllocCall

theorem runs_init : Runs base poolSize .init (RegionAllocator.init base poolSize) :=
  ⟨fun _ ↦ rfl, fun _ ↦ rfl⟩

theorem runs_openPool : Runs base poolSize .openPool (RegionAllocator.open base) :=
  ⟨fun _ ↦ rfl, fun _ ↦ rfl⟩

theorem runs_createRegion (name : String) (size : UInt64) :
    Runs base poolSize (.createRegion name size)
      (RegionAllocator.createRegion base poolSize name size.toNat) :=
  ⟨fun _ ↦ rfl, fun _ ↦ rfl⟩

theorem runs_freeRegion (name : String) :
    Runs base poolSize (.freeRegion name) (RegionAllocator.freeRegion base name) :=
  ⟨fun _ ↦ rfl, fun _ ↦ rfl⟩

theorem runs_findRegion (name : String) :
    Runs base poolSize (.findRegion name) ((RegionAllocator.findRegion name).next base) :=
  ⟨fun _ ↦ rfl, fun _ ↦ rfl⟩

theorem runs_listRegions :
    Runs base poolSize .listRegions (RegionAllocator.listRegions.next base) :=
  ⟨fun _ ↦ rfl, fun _ ↦ rfl⟩

theorem runs_recover : Runs base poolSize .recover (RegionAllocator.recover base) :=
  ⟨fun _ ↦ rfl, fun _ ↦ rfl⟩

variable {Point Result : Type} {inside : Task Point Result → AllocCall}
  {routine : Point → BackendCall (Task Point Result)}

/-- A step of a call is one of its routine. -/
theorem Runs.step_running (hruns : Runs base poolSize inside routine) (point : Point)
    (memory : Memory) : (inside (.running point)).step base poolSize memory =
      (inside ((routine point).exec memory).1, ((routine point).exec memory).2) := by
  rw [AllocCall.step, hruns.running]
  exact BackendCall.exec_map inside (routine point) memory

theorem Runs.step_returned (hruns : Runs base poolSize inside routine) (done : Result)
    (memory : Memory) : (inside (.returned done)).step base poolSize memory =
      (inside (.returned done), memory) := by
  rw [AllocCall.step, hruns.returned]

theorem Runs.ends_step (hruns : Runs base poolSize inside routine) {point : Point} {later : Memory}
    {result : AllocCall} (hends : (allocatorMachine base poolSize).Ends
      (inside ((routine point).exec memory).1) ((routine point).exec memory).2 result later) :
    (allocatorMachine base poolSize).Ends (inside (.running point)) memory result later :=
  .of_step (hruns.step_running point memory) hends

end AllocCall

/-- A call that has returned stays as it is. -/
theorem AllocCall.step_of_answer {call : AllocCall} {given : AllocAnswer}
    (hgiven : call.answer = some given) (memory : Memory) :
    (allocatorMachine base poolSize).step call memory = (call, memory) := by
  cases call with
  | init task => cases task <;> first | rfl | cases hgiven
  | openPool task => cases task <;> first | rfl | cases hgiven
  | createRegion name size task => cases task <;> first | rfl | cases hgiven
  | freeRegion name task => cases task <;> first | rfl | cases hgiven
  | findRegion name task => cases task <;> first | rfl | cases hgiven
  | listRegions task => cases task <;> first | rfl | cases hgiven
  | recover task => cases task <;> first | rfl | cases hgiven

/-! ### Searching and listing -/

/-- What `find_region` returns. -/
def lookup (base : ℕ) (memory : Memory) (name : String) : Except AllocError RegionHandle :=
  (RegionAllocator.findRegion name).result (entriesFrom base memory 0) ()

theorem findRegion_ends (base poolSize : ℕ) (name : String) (memory : Memory) :
    (allocatorMachine base poolSize).Ends ((AllocRequest.findRegion name).call poolSize) memory
      (.findRegion name (.returned (lookup base memory name))) memory := by
  refine routine_ends_inside (AllocCall.findRegion name) ?_
    ((RegionAllocator.findRegion name).head_ends 0 ())
  exact fun loop memory ↦ BackendCall.exec_map _ _ _

theorem listRegions_ends (base poolSize : ℕ) (memory : Memory) :
    (allocatorMachine base poolSize).Ends (AllocRequest.listRegions.call poolSize) memory
      (.listRegions (.returned (activeRegions base memory))) memory := by
  rw [← result_listRegions]
  refine routine_ends_inside (AllocCall.listRegions) ?_
    (RegionAllocator.listRegions.head_ends 0 [])
  exact fun loop memory ↦ BackendCall.exec_map _ _ _

/-! ### Creating -/

section Create

variable {name : String} {size : UInt64}

/-- The search for the name. -/
theorem createRegion_find_ends (hname : (asBytes name).length ≤ maxNameLen) :
    (allocatorMachine base poolSize).Ends ((AllocRequest.createRegion name size).call poolSize)
      memory (.createRegion name size (CreatePoint.afterFind name (lookup base memory name)))
      memory := by
  rw [AllocRequest.call, startCreate, if_neg (Nat.not_lt.mpr hname)]
  refine routine_ends_inside (fun task ↦ AllocCall.createRegion name size
    (task.fold (fun loop ↦ .running (.findRegion loop)) (CreatePoint.afterFind name))) ?_
    ((RegionAllocator.findRegion name).head_ends 0 ())
  intro loop memory
  refine ((AllocCall.runs_createRegion name size).step_running (.findRegion loop) memory).trans ?_
  rw [RegionAllocator.createRegion, BackendCall.exec_map]

/-- The search for a slot. -/
theorem createRegion_slot_ends (error : AllocError) :
    (allocatorMachine base poolSize).Ends
      (.createRegion name size (CreatePoint.afterFind name (.error error))) memory
      (.createRegion name size (CreatePoint.afterSlot
        (RegionAllocator.findFreeSlot.result (entriesFrom base memory 0) ()))) memory := by
  refine routine_ends_inside (fun task ↦ AllocCall.createRegion name size
    (task.fold (fun loop ↦ .running (.findFreeSlot loop)) CreatePoint.afterSlot)) ?_
    (RegionAllocator.findFreeSlot.head_ends 0 ())
  intro loop memory
  refine ((AllocCall.runs_createRegion name size).step_running (.findFreeSlot loop) memory).trans ?_
  rw [RegionAllocator.createRegion, BackendCall.exec_map]

/-- The search for an offset. -/
theorem createRegion_offset_ends (slot : ℕ) :
    (allocatorMachine base poolSize).Ends
      (.createRegion name size (.running (.loadDataStart slot))) memory
      (.createRegion name size (CreatePoint.afterOffset base poolSize size.toNat slot
        (nextOffset base memory))) memory := by
  refine (AllocCall.runs_createRegion _ _).ends_step ?_
  rw [nextOffset, catalogEnd, ← result_nextFreeOffset]
  refine routine_ends_inside (fun task ↦ AllocCall.createRegion name size
    (task.fold (fun loop ↦ .running (.nextFreeOffset slot loop))
      (CreatePoint.afterOffset base poolSize size.toNat slot))) ?_
    (RegionAllocator.nextFreeOffset.head_ends 0 (dataStart base memory))
  intro loop memory
  refine ((AllocCall.runs_createRegion name size).step_running
    (.nextFreeOffset slot loop) memory).trans ?_
  rw [RegionAllocator.createRegion, BackendCall.exec_map]

/-- The memory in which the entry is active. -/
def activatedMemory (base slot : ℕ) (entry : CatalogEntry) (memory : Memory) : Memory :=
  store (writtenEntry memory base slot entry) (entryOffset base slot + entState)
    [RegionState.active.toU8]

/-- The memory with another region count. -/
def storeCount (base : ℕ) (memory : Memory) (count : ℕ) : Memory :=
  storeWord memory (base + catHdrRegionCount) 8 count

/-- The memory `create_region` leaves. -/
def createdMemory (base slot : ℕ) (entry : CatalogEntry) (memory : Memory) : Memory :=
  storeCount base (activatedMemory base slot entry memory)
    (regionCount base (activatedMemory base slot entry memory) + 1)

/-- The handle a `create_region` returns. -/
theorem createRegion_flushCount_ends (slot regionOffset : ℕ) (memory : Memory) :
    (allocatorMachine base poolSize).Ends
      (.createRegion name size (.running (.flushCount slot regionOffset))) memory
      (.createRegion name size (.returned (.ok ⟨slot, name, regionOffset, size.toNat⟩))) memory :=
  (AllocCall.runs_createRegion _ _).ends_step (.refl _ _)

theorem createRegion_storeCount_ends (slot regionOffset count : ℕ) (memory : Memory) :
    (allocatorMachine base poolSize).Ends
      (.createRegion name size (.running (.storeCount slot regionOffset count))) memory
      (.createRegion name size (.returned (.ok ⟨slot, name, regionOffset, size.toNat⟩)))
      (storeCount base memory (count + 1)) :=
  (AllocCall.runs_createRegion _ _).ends_step (createRegion_flushCount_ends slot regionOffset _)

/-- The count is taken up last. -/
theorem createRegion_loadCount_ends (slot regionOffset : ℕ) (memory : Memory) :
    (allocatorMachine base poolSize).Ends
      (.createRegion name size (.running (.loadCount slot regionOffset))) memory
      (.createRegion name size (.returned (.ok ⟨slot, name, regionOffset, size.toNat⟩)))
      (storeCount base memory (regionCount base memory + 1)) :=
  (AllocCall.runs_createRegion _ _).ends_step
    (createRegion_storeCount_ends slot regionOffset _ memory)

theorem createRegion_flushActive_ends (slot regionOffset : ℕ) (memory : Memory) :
    (allocatorMachine base poolSize).Ends
      (.createRegion name size (.running (.flushActive slot regionOffset))) memory
      (.createRegion name size (.returned (.ok ⟨slot, name, regionOffset, size.toNat⟩)))
      (storeCount base memory (regionCount base memory + 1)) :=
  (AllocCall.runs_createRegion _ _).ends_step (createRegion_loadCount_ends slot regionOffset memory)

/-- The entry is written before it becomes active. -/
theorem createRegion_entry_ends (slot regionOffset : ℕ) :
    (allocatorMachine base poolSize).Ends
      (.createRegion name size (.running (.writeEntry slot regionOffset .writeNameLen))) memory
      (.createRegion name size (.running (.storeActive slot regionOffset)))
      (writtenEntry memory base slot (newEntry name size.toNat regionOffset)) := by
  refine routine_ends_inside (fun task ↦ AllocCall.createRegion name size
    (task.fold (fun point ↦ .running (.writeEntry slot regionOffset point))
      fun _ ↦ .running (.storeActive slot regionOffset))) ?_
    (writeEntry_ends base slot (newEntry name size.toNat regionOffset) memory)
  intro point memory
  refine ((AllocCall.runs_createRegion name size).step_running (.writeEntry slot regionOffset point)
    memory).trans ?_
  rw [RegionAllocator.createRegion, BackendCall.exec_map]

/-- From the first store on, the call succeeds. -/
theorem createRegion_write_ends (slot regionOffset : ℕ) :
    (allocatorMachine base poolSize).Ends
      (.createRegion name size (.running (.writeEntry slot regionOffset .writeNameLen))) memory
      (.createRegion name size (.returned (.ok ⟨slot, name, regionOffset, size.toNat⟩)))
      (createdMemory base slot (newEntry name size.toNat regionOffset) memory) :=
  (createRegion_entry_ends slot regionOffset).trans
    ((AllocCall.runs_createRegion _ _).ends_step
      (createRegion_flushActive_ends slot regionOffset _))

/-- What a `create_region` that runs alone returns and leaves. -/
inductive CreateOutcome (base poolSize : ℕ) (name : String) (size : ℕ) (memory : Memory) :
    Except AllocError RegionHandle → Memory → Prop
  | nameTooLong (hname : maxNameLen < (asBytes name).length) :
    CreateOutcome base poolSize name size memory
      (.error (.invalidState "name too long: max 24 bytes")) memory
  | nameExists (region : RegionHandle) (hregion : region ∈ activeRegions base memory)
      (hsame : region.name = name) (hname : (asBytes name).length ≤ maxNameLen) :
    CreateOutcome base poolSize name size memory (.error (.nameExists name)) memory
  | catalogFull (hfull : ∀ slot < maxRegions,
      (CatalogEntry.ofMemory memory base slot).state ≠ .free)
      (hname : (asBytes name).length ≤ maxNameLen)
      (hfresh : ∀ region ∈ activeRegions base memory, region.name ≠ name) :
    CreateOutcome base poolSize name size memory (.error .catalogFull) memory
  | outOfSpace (hspace : poolEnd base poolSize < (nextOffset base memory + size) % 2 ^ 64)
      (hname : (asBytes name).length ≤ maxNameLen)
      (hfresh : ∀ region ∈ activeRegions base memory, region.name ≠ name)
      (hslot : ∃ slot < maxRegions, (CatalogEntry.ofMemory memory base slot).state = .free) :
    CreateOutcome base poolSize name size memory
      (.error (.outOfSpace size (poolEnd base poolSize - nextOffset base memory))) memory
  | created (slot : ℕ) (hname : (asBytes name).length ≤ maxNameLen)
      (hfresh : ∀ region ∈ activeRegions base memory, region.name ≠ name)
      (hslot : slot < maxRegions) (hfree : (CatalogEntry.ofMemory memory base slot).state = .free)
      (hspace : (nextOffset base memory + size) % 2 ^ 64 ≤ poolEnd base poolSize)
      (hfirst : ∀ other < slot, (CatalogEntry.ofMemory memory base other).state ≠ .free) :
    CreateOutcome base poolSize name size memory (.ok ⟨slot, name, nextOffset base memory, size⟩)
      (createdMemory base slot (newEntry name size (nextOffset base memory)) memory)

/-- A `create_region` that runs alone. -/
theorem createRegion_ends (base poolSize : ℕ) (name : String) (size : UInt64) (memory : Memory) :
    ∃ result later, (allocatorMachine base poolSize).Ends
        ((AllocRequest.createRegion name size).call poolSize) memory
        (.createRegion name size (.returned result)) later ∧
      CreateOutcome base poolSize name size.toNat memory result later := by
  by_cases hname : (asBytes name).length ≤ maxNameLen
  · have hfind := @createRegion_find_ends base poolSize memory name size hname
    rcases result_findRegion base memory name with
      ⟨region, hregion, hsame, hfound⟩ | ⟨hfresh, hnone⟩
    · rw [lookup, hfound] at hfind
      exact ⟨_, _, hfind, .nameExists region hregion hsame hname⟩
    · rw [lookup, hnone] at hfind
      have hslots := hfind.trans (createRegion_slot_ends (.notFound name))
      rcases result_findFreeSlot base memory with
        ⟨slot, hslot, hfree, hfirst, hfound⟩ | ⟨hfull, hnone⟩
      · rw [hfound] at hslots
        have hoffset := hslots.trans (createRegion_offset_ends slot)
        by_cases hspace : poolEnd base poolSize < (nextOffset base memory + size.toNat) % 2 ^ 64
        · rw [CreatePoint.afterOffset, if_pos hspace] at hoffset
          exact ⟨_, _, hoffset, .outOfSpace hspace hname hfresh ⟨slot, hslot, hfree⟩⟩
        · rw [CreatePoint.afterOffset, if_neg hspace] at hoffset
          exact ⟨_, _, hoffset.trans (createRegion_write_ends slot (nextOffset base memory)),
            .created slot hname hfresh hslot hfree (Nat.le_of_not_lt hspace) hfirst⟩
      · rw [hnone] at hslots
        exact ⟨_, _, hslots, .catalogFull hfull hname hfresh⟩
  · refine ⟨_, memory, ?_, .nameTooLong (Nat.lt_of_not_le hname)⟩
    rw [AllocRequest.call, startCreate, if_pos (Nat.lt_of_not_le hname)]
    exact .refl _ _

end Create

/-! ### Freeing -/

section Free

variable {name : String}

/-- The search for the name. -/
theorem freeRegion_find_ends :
    (allocatorMachine base poolSize).Ends ((AllocRequest.freeRegion name).call poolSize) memory
      (.freeRegion name (FreePoint.afterFind (lookup base memory name))) memory := by
  refine routine_ends_inside (fun task ↦ AllocCall.freeRegion name
    (task.fold (fun loop ↦ .running (.findRegion loop)) FreePoint.afterFind)) ?_
    ((RegionAllocator.findRegion name).head_ends 0 ())
  intro loop memory
  refine ((@AllocCall.runs_freeRegion base poolSize name).step_running
    (.findRegion loop) memory).trans ?_
  rw [RegionAllocator.freeRegion, BackendCall.exec_map]

/-- The memory in which a slot is free. -/
def releasedMemory (base slot : ℕ) (memory : Memory) : Memory :=
  store (store memory (entryOffset base slot + entState) [RegionState.freeing.toU8])
    (entryOffset base slot + entState) [RegionState.free.toU8]

/-- The memory with one taken off the count. -/
def countedOff (base : ℕ) (memory : Memory) : Memory :=
  if 0 < regionCount base memory then storeCount base memory (regionCount base memory - 1)
  else memory

/-- The memory `free_region` leaves. -/
def freedMemory (base slot : ℕ) (memory : Memory) : Memory :=
  countedOff base (releasedMemory base slot memory)

/-- The count is taken down last. -/
theorem freeRegion_count_ends :
    (allocatorMachine base poolSize).Ends (.freeRegion name (.running .loadCount)) memory
      (.freeRegion name (.returned (.ok ()))) (countedOff base memory) := by
  refine (AllocCall.runs_freeRegion _).ends_step ?_
  unfold countedOff
  by_cases hcount : 0 < regionCount base memory
  · have hload : 0 < loadWord memory (base + catHdrRegionCount) 8 := hcount
    simp only [RegionAllocator.freeRegion, BackendCall.exec, if_pos hload, if_pos hcount]
    iterate 2 refine (AllocCall.runs_freeRegion _).ends_step ?_
    exact .refl _ _
  · have hload : ¬ 0 < loadWord memory (base + catHdrRegionCount) 8 := hcount
    simp only [RegionAllocator.freeRegion, BackendCall.exec, if_neg hload, if_neg hcount]
    exact .refl _ _

/-- From the first store on, the call succeeds. -/
theorem freeRegion_store_ends (slot : ℕ) :
    (allocatorMachine base poolSize).Ends (.freeRegion name (.running (.storeFreeing slot))) memory
      (.freeRegion name (.returned (.ok ()))) (freedMemory base slot memory) := by
  iterate 4 refine (AllocCall.runs_freeRegion _).ends_step ?_
  exact freeRegion_count_ends

/-- What a `free_region` that runs alone returns and leaves. -/
inductive FreeOutcome (base : ℕ) (name : String) (memory : Memory) :
    Except AllocError Unit → Memory → Prop
  | notFound (hnone : ∀ region ∈ activeRegions base memory, region.name ≠ name) :
    FreeOutcome base name memory (.error (.notFound name)) memory
  | freed (region : RegionHandle) (hregion : region ∈ activeRegions base memory)
      (hname : region.name = name) :
    FreeOutcome base name memory (.ok ()) (freedMemory base region.slot memory)

/-- A `free_region` that runs alone. -/
theorem freeRegion_ends (base poolSize : ℕ) (name : String) (memory : Memory) :
    ∃ result later, (allocatorMachine base poolSize).Ends
        ((AllocRequest.freeRegion name).call poolSize) memory
        (.freeRegion name (.returned result)) later ∧
      FreeOutcome base name memory result later := by
  have hfind := @freeRegion_find_ends base poolSize memory name
  rcases result_findRegion base memory name with ⟨region, hregion, hname, hfound⟩ | ⟨hfresh, hnone⟩
  · rw [lookup, hfound] at hfind
    exact ⟨_, _, hfind.trans (freeRegion_store_ends region.slot), .freed region hregion hname⟩
  · rw [lookup, hnone] at hfind
    exact ⟨_, _, hfind, .notFound hfresh⟩

end Free

end Fence
