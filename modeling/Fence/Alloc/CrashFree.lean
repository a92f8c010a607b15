import Fence.Alloc.CrashCreate

/-!
# A `free_region` on the way

`FreePoint.Safe` says which phase the entry is in at which program point of `free_region`, and every
step preserves it. So a `free_region` is atomic under a crash, as a `create_region` is
(`freeSafe.crashAtomic`).
-/

set_option autoImplicit false
set_option relaxedAutoImplicit false

namespace Fence

open ByteMemory ByteMemory.CachedMemory Interleaving

variable {base poolSize slot : ℕ} {before shared : CachedMemory} {name : String}
  {result : Except AllocError Unit} {later : Memory}

/-- A call that returns leaves the memory with an active slot freed. -/
structure Frees (base slot : ℕ) (memory later : Memory) : Prop where
  slot_lt : slot < maxRegions
  active : entryByte memory base slot = RegionState.active.toU8
  later_eq : later = freedMemory base slot memory

theorem Frees.regionAt_self (hfrees : Frees base slot before.cached later) :
    regionAt base later slot = none := by
  rw [hfrees.later_eq, regionAt_eq_none_iff, ofMemory_freedMemory, ofMemory_releasedMemory_self]
  simp

theorem Frees.regionAt_ne (hfrees : Frees base slot before.cached later) (other : ℕ)
    (hne : other ≠ slot) : regionAt base later other = regionAt base before.cached other := by
  rw [hfrees.later_eq, regionAt, regionAt, ofMemory_freedMemory, ofMemory_releasedMemory_ne hne]

/-- The slot that is about to be freed is that of the region the call frees. -/
theorem FreeOutcome.frees {memory : Memory} (houtcome : FreeOutcome base name memory result later)
    (hends : (allocatorMachine base poolSize).Ends
      (.freeRegion name (.running (.storeFreeing slot)))
      memory (.freeRegion name (.returned result)) later) : Frees base slot memory later := by
  obtain ⟨hresult, hlater⟩ := hends.unique (freeRegion_store_ends slot) (fun _ ↦ rfl) fun _ ↦ rfl
  cases houtcome with
  | notFound hnone => cases hresult
  | freed region hregion hname =>
    obtain ⟨hslot, hat⟩ := mem_activeRegions.mp hregion
    obtain ⟨hactive, -⟩ := regionAt_eq_some_iff.mp hat
    have hsame : region.slot = slot := by
      by_contra hne
      have hkept : (CatalogEntry.ofMemory (freedMemory base slot memory) base
          region.slot).state = .active := by
        rw [ofMemory_freedMemory, ofMemory_releasedMemory_ne hne, hactive]
      rw [← hlater, ofMemory_freedMemory, ofMemory_releasedMemory_self] at hkept
      cases hkept
    rw [hsame] at hslot hactive ⊢
    exact ⟨hslot, RegionState.ofByte_eq_active_iff.mp hactive, rfl⟩

/-- How far a `free_region` has got. -/
def FreePoint.Safe (base : ℕ) (before : CachedMemory) (later : Memory) (shared : CachedMemory) :
    FreePoint → Prop
  | .findRegion _ => AsBefore base before shared
  | .storeFreeing slot => Frees base slot before.cached later ∧ AsBefore base before shared
  | .flushFreeing slot => Frees base slot before.cached later ∧ Releasing base slot before shared
  | .storeFree slot => Frees base slot before.cached later ∧ Vacant base slot before False shared
  | .flushFree slot => Frees base slot before.cached later ∧ Vacant base slot before False shared
  | .loadCount => SettledCatalog base shared
  | .storeCount _ => SettledCatalog base shared
  | .flushCount => SettledCatalog base shared

/-- A call that has returned has left a settled catalog. -/
def freeSafe (base : ℕ) (before : CachedMemory) (later : Memory)
    (task : Task FreePoint (Except AllocError Unit)) (shared : CachedMemory) : Prop :=
  task.fold (FreePoint.Safe base before later shared) fun _ ↦ SettledCatalog base shared

section Free

variable (houtcome : FreeOutcome base name before.cached result later)

include houtcome

/-- The region was found, or not. -/
theorem freeSafe_afterFind (hbefore : AsBefore base before shared)
    (found : Except AllocError RegionHandle)
    (hends : (allocatorMachine base poolSize).Ends (.freeRegion name (FreePoint.afterFind found))
      shared.cached (.freeRegion name (.returned result)) later) :
    freeSafe base before later (FreePoint.afterFind found) shared := by
  cases found with
  | error error => exact hbefore.settled
  | ok region =>
    rw [hbefore.cached_eq] at hends
    exact ⟨houtcome.frees hends, hbefore⟩

/-- Every step of a `free_region` is safe. -/
theorem FreePoint.Safe.step {point : FreePoint} (hsafe : point.Safe base before later shared)
    (hends : (allocatorMachine base poolSize).Ends (.freeRegion name
      ((RegionAllocator.freeRegion base name point).execCached shared).1)
      ((RegionAllocator.freeRegion base name point).execCached shared).2.cached
      (.freeRegion name (.returned result)) later) :
    freeSafe base before later ((RegionAllocator.freeRegion base name point).execCached shared).1
      ((RegionAllocator.freeRegion base name point).execCached shared).2 := by
  cases point with
  | findRegion loop =>
    simp only [RegionAllocator.freeRegion, EntryVisitor.execCached_next_map] at hends ⊢
    cases hnext : (((RegionAllocator.findRegion name).next base loop).execCached shared).1 with
    | running next => exact hsafe
    | returned found =>
      rw [hnext] at hends
      exact freeSafe_afterFind houtcome hsafe found hends
  | storeFreeing slot => exact ⟨hsafe.1, hsafe.2.release hsafe.1.slot_lt hsafe.1.active⟩
  | flushFreeing slot => exact ⟨hsafe.1, hsafe.2.flush⟩
  | storeFree slot => exact ⟨hsafe.1, hsafe.2.storeState RegionState.noConfusion⟩
  | flushFree slot => exact hsafe.2.elsewhere.flush
  | loadCount =>
    have hsettled : SettledCatalog base shared := hsafe
    simp only [RegionAllocator.freeRegion, BackendCall.execCached, BackendCall.exec]
    split_ifs <;> exact hsettled
  | storeCount count =>
    exact hsafe.changes_count (BackendCall.changes_execCached (.storeU64 (base + catHdrRegionCount)
      (count - 1) (Task.running FreePoint.flushCount)) shared)
  | flushCount => exact hsafe.settles (settles_flush _ _ _)

omit houtcome in
/-- Lines written back keep a `free_region` safe. -/
theorem freeSafe_settles {task : Task FreePoint (Except AllocError Unit)} {after : CachedMemory}
    (hsafe : freeSafe base before later task shared) (hsettles : Settles shared after) :
    freeSafe base before later task after := by
  cases task with
  | returned done => exact SettledCatalog.settles hsafe hsettles
  | running point =>
    cases point with
    | findRegion loop => exact AsBefore.settles hsafe hsettles
    | storeFreeing slot => exact ⟨hsafe.1, hsafe.2.settles hsettles⟩
    | flushFreeing slot => exact ⟨hsafe.1, hsafe.2.settles hsettles⟩
    | storeFree slot => exact ⟨hsafe.1, hsafe.2.settles hsettles⟩
    | flushFree slot => exact ⟨hsafe.1, hsafe.2.settles hsettles⟩
    | loadCount => exact SettledCatalog.settles hsafe hsettles
    | storeCount count => exact SettledCatalog.settles hsafe hsettles
    | flushCount => exact SettledCatalog.settles hsafe hsettles

/-- Wherever a `free_region` gets to, it is safe, and will end up as it does alone. -/
theorem freeSafe_of_reaches (hsettled : SettledCatalog base before)
    (hends : (allocatorMachine base poolSize).Ends ((AllocRequest.freeRegion name).call poolSize)
      before.cached (.freeRegion name (.returned result)) later) {call : AllocCall}
    (hreaches : (cachedAllocator base poolSize).Reaches
      ((AllocRequest.freeRegion name).call poolSize) before call shared) :
    (∃ task, call = .freeRegion name task ∧ freeSafe base before later task shared) ∧
      (allocatorMachine base poolSize).Ends call shared.cached
        (.freeRegion name (.returned result)) later := by
  have hbefore : AsBefore base before before := ⟨rfl, hsettled⟩
  refine (AllocCall.runs_freeRegion name).reaches_cached hreaches hends rfl
    (freeSafe base before later) hbefore ?_ ?_
  · exact fun point shared hsafe hnext ↦ FreePoint.Safe.step houtcome hsafe hnext
  · exact fun task line shared hsafe ↦ freeSafe_settles hsafe (settles_writeBack line shared)

end Free

/-! ### What the media holds -/

theorem activeRegions_countedOff (base : ℕ) (memory : Memory) :
    activeRegions base (countedOff base memory) = activeRegions base memory :=
  activeRegions_congr fun slot _ ↦ regionAt_congr (sameEntry_countedOff base slot memory)

/-- A `free_region` is atomic under a crash. -/
theorem freeSafe.crashAtomic {task : Task FreePoint (Except AllocError Unit)}
    (hsafe : freeSafe base before later task shared)
    (hends : (allocatorMachine base poolSize).Ends (.freeRegion name task) shared.cached
      (.freeRegion name (.returned result)) later) :
    CrashAtomic base before.cached later (.freeRegion name task) shared := by
  have hlater : ∀ {other : Except AllocError Unit} {memory : Memory},
      (allocatorMachine base poolSize).Ends (.freeRegion name task) shared.cached
        (.freeRegion name (.returned other)) memory → later = memory :=
    fun hother ↦ (hends.unique hother (fun _ ↦ rfl) fun _ ↦ rfl).2
  cases task with
  | returned done =>
    have hsettled : SettledCatalog base shared := hsafe
    exact hsettled.crashAtomic (by rw [hlater (.refl _ _)])
  | running point =>
    cases point with
    | findRegion loop => exact AsBefore.crashAtomic hsafe rfl
    | storeFreeing slot => exact AsBefore.crashAtomic hsafe.2 rfl
    | flushFreeing slot =>
      obtain ⟨hfrees, hreleasing⟩ := hsafe
      exact ⟨hreleasing.elsewhere.magic.media_eq,
        hreleasing.activeRegions_media hfrees.active hfrees.regionAt_self hfrees.regionAt_ne, nofun⟩
    | storeFree slot =>
      obtain ⟨hfrees, hvacant⟩ := hsafe
      exact ⟨hvacant.elsewhere.magic.media_eq,
        Or.inr (hvacant.activeRegions_media hfrees.regionAt_self hfrees.regionAt_ne), nofun⟩
    | flushFree slot =>
      obtain ⟨hfrees, hvacant⟩ := hsafe
      exact ⟨hvacant.elsewhere.magic.media_eq,
        Or.inr (hvacant.activeRegions_media hfrees.regionAt_self hfrees.regionAt_ne), nofun⟩
    | loadCount =>
      refine SettledCatalog.crashAtomic hsafe ?_
      rw [hlater freeRegion_count_ends, activeRegions_countedOff]
    | storeCount count =>
      have hcount := hlater ((AllocCall.runs_freeRegion _).ends_step
        ((AllocCall.runs_freeRegion _).ends_step (.refl _ _)))
      refine SettledCatalog.crashAtomic hsafe ?_
      rw [hcount]
      exact activeRegions_storeCount base _ _
    | flushCount =>
      refine SettledCatalog.crashAtomic hsafe ?_
      rw [hlater ((AllocCall.runs_freeRegion _).ends_step (.refl _ _))]
      rfl

end Fence
