import Fence.Alloc.CrashPhases

/-!
# A `create_region` on the way

`CreatePoint.Safe` says which phase the entry is in at which program point of `create_region`, and
every step preserves it (`CreatePoint.Safe.step`). So wherever the call is stopped, the media holds
the regions from before the call or those it leaves, and once it has returned, those it leaves
(`createSafe.crashAtomic`).
-/

set_option autoImplicit false
set_option relaxedAutoImplicit false

namespace Fence

open ByteMemory ByteMemory.CachedMemory Interleaving

variable {base poolSize slot : ℕ} {before shared : CachedMemory}

/-! ### Writing an entry -/

/-- Whether `write_entry` has flushed all but the state. -/
def WriteEntryPoint.Flushed : WriteEntryPoint → Prop
  | .storeState => True
  | .flushState => True
  | _ => False

/-- Writing an entry keeps it vacant, and in the end all but its state is on the media. -/
theorem Vacant.writeEntry {entry : CatalogEntry} (hstate : entry.state ≠ .active)
    {point : WriteEntryPoint} (hvacant : Vacant base slot before point.Flushed shared) :
    ((Catalog.writeEntry base slot entry point).execCached shared).1.fold
      (fun next ↦ Vacant base slot before next.Flushed
        ((Catalog.writeEntry base slot entry point).execCached shared).2)
      (fun _ ↦ Vacant base slot before True
        ((Catalog.writeEntry base slot entry point).execCached shared).2) := by
  have hchanges := (Catalog.writeEntry base slot entry point).changes_execCached shared
  cases point with
  | writeNameLen =>
    have hwritten := hvacant.write (Nat.add_le_add_left (by decide) _)
      (by
        simp only [Catalog.writeEntry, BackendCall.length, length_leBytes, entNameLen,
          catalogEntrySize]
        omega) hchanges rfl
    simp only [Catalog.writeEntry, BackendCall.execCached, BackendCall.exec] at hwritten ⊢
    split_ifs <;> exact hwritten
  | writeName =>
    have hlength := entry.length_take_nameLen
    have hname := entry.nameLen_le
    exact hvacant.write (Nat.add_le_add_left (by decide) _)
      (by
        simp only [Catalog.writeEntry, BackendCall.length, hlength, entName, catalogEntrySize]
        omega) hchanges rfl
  | storeOffset =>
    exact hvacant.write (Nat.add_le_add_left (by decide) _)
      (Nat.add_le_add_left (by decide : entOffset + 8 ≤ catalogEntrySize) _) hchanges rfl
  | storeSize =>
    exact hvacant.write (Nat.add_le_add_left (by decide) _)
      (Nat.add_le_add_left (by decide : entSize + 8 ≤ catalogEntrySize) _) hchanges rfl
  | storeEpoch =>
    exact hvacant.write (Nat.add_le_add_left (by decide) _)
      (Nat.add_le_add_left (by decide : entEpoch + 8 ≤ catalogEntrySize) _) hchanges rfl
  | flushEntry => exact hvacant.flush
  | storeState => exact hvacant.storeState hstate
  | flushState => exact (hvacant.settles (settles_flush _ _ _)).imp fun _ ↦ trivial

/-! ### Creating -/

section Create

variable {name : String} {size : UInt64} {result : Except AllocError RegionHandle} {later : Memory}

/-- How far a `create_region` with some result has got. -/
def CreatePoint.Safe (base : ℕ) (before : CachedMemory) (name : String) (size : ℕ)
    (result : Except AllocError RegionHandle) (shared : CachedMemory) : CreatePoint → Prop
  | .findRegion _ => AsBefore base before shared
  | .findFreeSlot _ => AsBefore base before shared
  | .loadDataStart _ => AsBefore base before shared
  | .nextFreeOffset _ _ => AsBefore base before shared
  | .writeEntry slot regionOffset point =>
    result = .ok ⟨slot, name, regionOffset, size⟩ ∧ Vacant base slot before point.Flushed shared
  | .storeActive slot regionOffset =>
    result = .ok ⟨slot, name, regionOffset, size⟩ ∧ Vacant base slot before True shared
  | .flushActive slot regionOffset =>
    result = .ok ⟨slot, name, regionOffset, size⟩ ∧ Activated base slot before shared
  | .loadCount _ _ => SettledCatalog base shared
  | .storeCount _ _ _ => SettledCatalog base shared
  | .flushCount _ _ => SettledCatalog base shared

/-- A call that has returned has left a settled catalog. -/
def createSafe (base : ℕ) (before : CachedMemory) (name : String) (size : ℕ)
    (result : Except AllocError RegionHandle)
    (task : Task CreatePoint (Except AllocError RegionHandle)) (shared : CachedMemory) : Prop :=
  task.fold (CreatePoint.Safe base before name size result shared) fun _ ↦
    SettledCatalog base shared

/-- A result names a slot that was free. -/
theorem CreateOutcome.vacant {memory : Memory} {region : RegionHandle} {size : ℕ}
    (houtcome : CreateOutcome base poolSize name size memory (.ok region) later) :
    region.slot < maxRegions ∧
      entryByte memory base region.slot ≠ RegionState.active.toU8 := by
  cases houtcome with
  | created slot hname hfresh hslot hfree hspace =>
    refine ⟨hslot, regionAt_eq_none_iff_entryByte.mp (regionAt_eq_none_iff.mpr ?_)⟩
    rw [hfree]
    decide

/-- Searching leaves all as it was. -/
theorem createSafe_loop {Gathered Result : Type} {task : Task (EntryLoop Gathered) Result}
    (running : EntryLoop Gathered → CreatePoint)
    {returned : Result → Task CreatePoint (Except AllocError RegionHandle)}
    (hrunning : ∀ loop, (running loop).Safe base before name size.toNat result shared)
    (hreturned : ∀ found, task = .returned found →
      createSafe base before name size.toNat result (returned found) shared) :
    createSafe base before name size.toNat result
      (task.fold (fun loop ↦ .running (running loop)) returned) shared := by
  cases task with
  | running loop => exact hrunning loop
  | returned found => exact hreturned found rfl

theorem createSafe_afterSlot (hbefore : AsBefore base before shared) (found : Option ℕ) :
    createSafe base before name size.toNat result (CreatePoint.afterSlot found) shared := by
  cases found with
  | none => exact hbefore.settled
  | some slot => exact hbefore

theorem createSafe_afterFind (hbefore : AsBefore base before shared)
    (found : Except AllocError RegionHandle) :
    createSafe base before name size.toNat result (CreatePoint.afterFind name found) shared := by
  cases found with
  | ok region => exact hbefore.settled
  | error error =>
    unfold CreatePoint.afterFind
    exact createSafe_loop .findFreeSlot (fun _ ↦ hbefore) fun found _ ↦
      createSafe_afterSlot hbefore found

variable (houtcome : CreateOutcome base poolSize name size.toNat before.cached result later)

include houtcome

/-- The call that is about to write holds the slot and the offset of its result. -/
theorem createSafe_afterOffset (hbefore : AsBefore base before shared) {regionOffset : ℕ}
    (hends : (allocatorMachine base poolSize).Ends (.createRegion name size
      (CreatePoint.afterOffset base poolSize size.toNat slot regionOffset)) shared.cached
      (.createRegion name size (.returned result)) later) :
    createSafe base before name size.toNat result
      (CreatePoint.afterOffset base poolSize size.toNat slot regionOffset) shared := by
  unfold CreatePoint.afterOffset at hends ⊢
  split_ifs at hends ⊢
  · exact hbefore.settled
  · obtain ⟨hresult, -⟩ := hends.unique (createRegion_write_ends slot regionOffset) (fun _ ↦ rfl)
      fun _ ↦ rfl
    obtain rfl : result = _ := Task.returned.inj (AllocCall.createRegion.inj hresult).2.2
    obtain ⟨hslot, hfree⟩ := houtcome.vacant
    exact ⟨rfl, hbefore.vacant hslot hfree⟩

/-- Every step of a `create_region` is safe. -/
theorem CreatePoint.Safe.step {point : CreatePoint}
    (hsafe : point.Safe base before name size.toNat result shared)
    (hends : (allocatorMachine base poolSize).Ends (.createRegion name size
      ((RegionAllocator.createRegion base poolSize name size.toNat point).execCached shared).1)
      ((RegionAllocator.createRegion base poolSize name size.toNat point).execCached
        shared).2.cached
      (.createRegion name size (.returned result)) later) :
    createSafe base before name size.toNat result
      ((RegionAllocator.createRegion base poolSize name size.toNat point).execCached shared).1
      ((RegionAllocator.createRegion base poolSize name size.toNat point).execCached shared).2 := by
  cases point with
  | findRegion loop =>
    simp only [RegionAllocator.createRegion, EntryVisitor.execCached_next_map]
    exact createSafe_loop .findRegion (fun _ ↦ hsafe) fun found _ ↦ createSafe_afterFind hsafe found
  | findFreeSlot loop =>
    simp only [RegionAllocator.createRegion, EntryVisitor.execCached_next_map]
    exact createSafe_loop .findFreeSlot (fun _ ↦ hsafe) fun found _ ↦
      createSafe_afterSlot hsafe found
  | loadDataStart slot =>
    simp only [RegionAllocator.createRegion, BackendCall.execCached, BackendCall.exec] at hends ⊢
    refine createSafe_loop (.nextFreeOffset slot) (fun _ ↦ hsafe) fun regionOffset hfound ↦ ?_
    rw [hfound] at hends
    exact createSafe_afterOffset houtcome hsafe hends
  | nextFreeOffset slot loop =>
    simp only [RegionAllocator.createRegion, EntryVisitor.execCached_next_map] at hends ⊢
    refine createSafe_loop (.nextFreeOffset slot) (fun _ ↦ hsafe) fun regionOffset hfound ↦ ?_
    rw [hfound] at hends
    exact createSafe_afterOffset houtcome hsafe hends
  | writeEntry slot regionOffset point =>
    obtain ⟨hresult, hvacant⟩ := hsafe
    have hwritten := @Vacant.writeEntry base slot before shared
      (newEntry name size.toNat regionOffset) RegionState.noConfusion point hvacant
    simp only [RegionAllocator.createRegion, BackendCall.execCached_map]
    cases hnext : ((Catalog.writeEntry base slot (newEntry name size.toNat regionOffset)
        point).execCached shared).1 with
    | running next =>
      rw [hnext] at hwritten
      exact ⟨hresult, hwritten⟩
    | returned done =>
      rw [hnext] at hwritten
      exact ⟨hresult, hwritten⟩
  | storeActive slot regionOffset => exact ⟨hsafe.1, hsafe.2.activate⟩
  | flushActive slot regionOffset => exact hsafe.2.elsewhere.flush
  | loadCount slot regionOffset => exact hsafe
  | storeCount slot regionOffset count =>
    exact hsafe.changes_count (BackendCall.changes_execCached (.storeU64 (base + catHdrRegionCount)
      (count + 1) (Task.running (CreatePoint.flushCount slot regionOffset))) shared)
  | flushCount slot regionOffset => exact hsafe.settles (settles_flush _ _ _)

omit houtcome in
/-- Lines written back keep a `create_region` safe. -/
theorem createSafe_settles {task : Task CreatePoint (Except AllocError RegionHandle)}
    {after : CachedMemory} (hsafe : createSafe base before name size.toNat result task shared)
    (hsettles : Settles shared after) :
    createSafe base before name size.toNat result task after := by
  cases task with
  | returned done => exact SettledCatalog.settles hsafe hsettles
  | running point =>
    cases point with
    | findRegion loop => exact AsBefore.settles hsafe hsettles
    | findFreeSlot loop => exact AsBefore.settles hsafe hsettles
    | loadDataStart slot => exact AsBefore.settles hsafe hsettles
    | nextFreeOffset slot loop => exact AsBefore.settles hsafe hsettles
    | writeEntry slot regionOffset point => exact ⟨hsafe.1, hsafe.2.settles hsettles⟩
    | storeActive slot regionOffset => exact ⟨hsafe.1, hsafe.2.settles hsettles⟩
    | flushActive slot regionOffset => exact ⟨hsafe.1, hsafe.2.settles hsettles⟩
    | loadCount slot regionOffset => exact SettledCatalog.settles hsafe hsettles
    | storeCount slot regionOffset count => exact SettledCatalog.settles hsafe hsettles
    | flushCount slot regionOffset => exact SettledCatalog.settles hsafe hsettles

omit houtcome in
theorem createSafe_start (hsettled : SettledCatalog base before) :
    createSafe base before name size.toNat result (startCreate name) before := by
  have hbefore : AsBefore base before before := ⟨rfl, hsettled⟩
  unfold startCreate
  split_ifs
  · exact hsettled
  · exact createSafe_loop .findRegion (fun _ ↦ hbefore) fun found _ ↦
      createSafe_afterFind hbefore found

/-- Wherever a `create_region` gets to, it is safe, and will end up as it does alone. -/
theorem createSafe_of_reaches (hsettled : SettledCatalog base before)
    (hends : (allocatorMachine base poolSize).Ends
      ((AllocRequest.createRegion name size).call poolSize) before.cached
      (.createRegion name size (.returned result)) later) {call : AllocCall}
    (hreaches : (cachedAllocator base poolSize).Reaches
      ((AllocRequest.createRegion name size).call poolSize) before call shared) :
    (∃ task, call = .createRegion name size task ∧
        createSafe base before name size.toNat result task shared) ∧
      (allocatorMachine base poolSize).Ends call shared.cached
        (.createRegion name size (.returned result)) later := by
  refine (AllocCall.runs_createRegion name size).reaches_cached hreaches hends rfl
    (createSafe base before name size.toNat result) (createSafe_start hsettled) ?_ ?_
  · exact fun point shared hsafe hnext ↦ CreatePoint.Safe.step houtcome hsafe hnext
  · exact fun task line shared hsafe ↦ createSafe_settles hsafe (settles_writeBack line shared)

end Create

/-! ### What the media holds -/

/-- Wherever a call is stopped, the media holds the regions from before or after it, and once it has
returned, those from after it. -/
structure CrashAtomic (base : ℕ) (before later : Memory) (call : AllocCall)
    (shared : CachedMemory) : Prop where
  magic : loadWord shared.media (base + catHdrMagic) 8 = allocMagic
  media : activeRegions base shared.media = activeRegions base before ∨
    activeRegions base shared.media = activeRegions base later
  returned : call.answer.isSome = true →
    activeRegions base shared.media = activeRegions base later

theorem activeRegions_storeCount (base : ℕ) (memory : Memory) (count : ℕ) :
    activeRegions base (storeCount base memory count) = activeRegions base memory :=
  activeRegions_congr fun slot _ ↦ regionAt_congr (sameEntry_storeCount base slot memory count)

/-- The catalog is settled and holds the regions the call leaves. -/
theorem SettledCatalog.crashAtomic (hsettled : SettledCatalog base shared) {memory later : Memory}
    {call : AllocCall} (hlater : activeRegions base later = activeRegions base shared.cached) :
    CrashAtomic base memory later call shared := by
  have hmedia : activeRegions base shared.media = activeRegions base later := by
    rw [hsettled.activeRegions_media, hlater]
  exact ⟨hsettled.magic.media_eq, Or.inr hmedia, fun _ ↦ hmedia⟩

/-- The media still holds the regions from before a call that has not returned. -/
theorem AsBefore.crashAtomic (hbefore : AsBefore base before shared) {later : Memory}
    {call : AllocCall} (hrunning : call.answer = none) :
    CrashAtomic base before.cached later call shared :=
  ⟨hbefore.settled.magic.media_eq, Or.inl hbefore.activeRegions_media,
    fun hreturned ↦ by rw [hrunning] at hreturned; cases hreturned⟩

section CreateMedia

variable {name : String} {size : UInt64} {result : Except AllocError RegionHandle} {later : Memory}

/-- A `create_region` is atomic under a crash. -/
theorem createSafe.crashAtomic
    (houtcome : CreateOutcome base poolSize name size.toNat before.cached result later)
    {task : Task CreatePoint (Except AllocError RegionHandle)}
    (hsafe : createSafe base before name size.toNat result task shared)
    (hends : (allocatorMachine base poolSize).Ends (.createRegion name size task) shared.cached
      (.createRegion name size (.returned result)) later) :
    CrashAtomic base before.cached later (.createRegion name size task) shared := by
  have hlater : ∀ {other : Except AllocError RegionHandle} {memory : Memory},
      (allocatorMachine base poolSize).Ends (.createRegion name size task) shared.cached
        (.createRegion name size (.returned other)) memory → later = memory :=
    fun hother ↦ (hends.unique hother (fun _ ↦ rfl) fun _ ↦ rfl).2
  have hvacant : ∀ {slot regionOffset : ℕ}, result = .ok ⟨slot, name, regionOffset, size.toNat⟩ →
      regionAt base before.cached slot = none := by
    rintro slot regionOffset rfl
    exact regionAt_eq_none_iff_entryByte.mpr houtcome.vacant.2
  cases task with
  | returned done =>
    have hsettled : SettledCatalog base shared := hsafe
    exact hsettled.crashAtomic (by rw [hlater (.refl _ _)])
  | running point =>
    cases point with
    | findRegion loop => exact AsBefore.crashAtomic hsafe rfl
    | findFreeSlot loop => exact AsBefore.crashAtomic hsafe rfl
    | loadDataStart slot => exact AsBefore.crashAtomic hsafe rfl
    | nextFreeOffset slot loop => exact AsBefore.crashAtomic hsafe rfl
    | writeEntry slot regionOffset point =>
      exact ⟨hsafe.2.elsewhere.magic.media_eq,
        Or.inl (hsafe.2.activeRegions_media (hvacant hsafe.1) fun _ _ ↦ rfl), nofun⟩
    | storeActive slot regionOffset =>
      exact ⟨hsafe.2.elsewhere.magic.media_eq,
        Or.inl (hsafe.2.activeRegions_media (hvacant hsafe.1) fun _ _ ↦ rfl), nofun⟩
    | flushActive slot regionOffset =>
      have hcount := hlater (createRegion_flushActive_ends slot regionOffset shared.cached)
      have hregions : activeRegions base later = activeRegions base shared.cached := by
        rw [hcount]
        exact activeRegions_storeCount base _ _
      refine ⟨hsafe.2.elsewhere.magic.media_eq, ?_, nofun⟩
      rw [hregions]
      exact hsafe.2.activeRegions_media (hvacant hsafe.1)
    | loadCount slot regionOffset =>
      have hcount := hlater (createRegion_loadCount_ends slot regionOffset shared.cached)
      refine SettledCatalog.crashAtomic hsafe ?_
      rw [hcount]
      exact activeRegions_storeCount base _ _
    | storeCount slot regionOffset count =>
      have hcount := hlater (createRegion_storeCount_ends slot regionOffset count shared.cached)
      refine SettledCatalog.crashAtomic hsafe ?_
      rw [hcount]
      exact activeRegions_storeCount base _ _
    | flushCount slot regionOffset =>
      refine SettledCatalog.crashAtomic hsafe ?_
      rw [hlater (createRegion_flushCount_ends slot regionOffset shared.cached)]

end CreateMedia

end Fence
