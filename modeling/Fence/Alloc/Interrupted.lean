import Fence.Alloc.Creators
import Fence.Properties.AllocatorCrash

/-!
# A call of any kind on the way

Wherever a call is stopped, the media holds the regions from before it or those it leaves
(`crashAtomic_of_any`): for `create_region` and `free_region` this is known, the loads leave all as
it is, and a `recover` only ever frees an entry that is no region (`CatalogRecoverPoint.Keeps`). The
start of the data area in the header, which every placement depends on, reaches the media in `init`
and is never stored again (`StartAtRest`).
-/

set_option autoImplicit false
set_option relaxedAutoImplicit false

namespace Fence

open ByteMemory ByteMemory.CachedMemory Interleaving

variable {base poolSize : ℕ} {before shared after : CachedMemory} {call : AllocCall}

/-! ### The start of the data area -/

/-- The start of the data area has reached the media. -/
structure StartAtRest (base : ℕ) (shared : CachedMemory) : Prop where
  persisted : Persisted shared (base + catHdrDataStart) 8
  start_eq : dataStart base shared.cached = base + catalogSize

theorem StartAtRest.media_eq (hstart : StartAtRest base shared) :
    dataStart base shared.media = base + catalogSize := by
  rw [← hstart.start_eq]
  exact loadWord_congr hstart.persisted.load

theorem StartAtRest.settles (hstart : StartAtRest base shared) (hsettles : Settles shared after) :
    StartAtRest base after :=
  ⟨hsettles.persisted hstart.persisted, by rw [hsettles.cached_eq]; exact hstart.start_eq⟩

/-- A call does not store into a run of bytes. -/
def BackendCall.StoresOutside {Next : Type} (low count : ℕ) (call : BackendCall Next) : Prop :=
  call.isStore = true → call.offset + call.length ≤ low ∨ low + count ≤ call.offset

theorem StartAtRest.execCached {Next : Type} {call : BackendCall Next}
    (hstart : StartAtRest base shared) (hstores : call.StoresOutside (base + catHdrDataStart) 8) :
    StartAtRest base (call.execCached shared).2 := by
  have hchanges := call.changes_execCached shared
  cases hstore : call.isStore with
  | true =>
    have houtside := hstores hstore
    refine ⟨hchanges.persisted hstart.persisted (by omega), ?_⟩
    rw [← hstart.start_eq]
    exact loadWord_congr (load_congr fun i hi ↦ hchanges.cached _ (by omega))
  | false =>
    refine hstart.settles ⟨?_, hchanges.media⟩
    rw [(call.execCached_eq shared).2, BackendCall.exec_snd_of_not_isStore hstore]

/-- A call that only loads stores nowhere. -/
theorem BackendCall.storesOutside_of_isLoad {Next : Type} {call : BackendCall Next} {low count : ℕ}
    (hload : call.isLoad = true) : call.StoresOutside low count := by
  intro hstore
  cases call with
  | read | loadU64 | loadU8 => cases hstore
  | _ => cases hload

/-- A call behind the header. -/
theorem BackendCall.storesOutside_of_entry {Next : Type} {call : BackendCall Next}
    (hentry : base + catalogHeaderSize ≤ call.offset) :
    call.StoresOutside (base + catHdrDataStart) 8 := by
  intro _
  have hsize : catalogHeaderSize = 64 := rfl
  have hfield : catHdrDataStart = 24 := rfl
  omega

/-- A call on the count. -/
theorem BackendCall.storesOutside_of_count {Next : Type} {call : BackendCall Next}
    (hoffset : call.offset = base + catHdrRegionCount) (hlength : call.length = 8) :
    call.StoresOutside (base + catHdrDataStart) 8 := by
  intro _
  have hcount : catHdrRegionCount = 8 := rfl
  have hfield : catHdrDataStart = 24 := rfl
  omega

theorem Catalog.offset_writeEntry (base index : ℕ) (entry : CatalogEntry)
    (point : WriteEntryPoint) :
    base + catalogHeaderSize ≤ (Catalog.writeEntry base index entry point).offset := by
  have hheader := header_le_entryOffset base index
  cases point <;> simp only [Catalog.writeEntry, BackendCall.offset] <;> omega

theorem RegionAllocator.createRegion_storesOutside (name : String) (size : ℕ)
    (point : CreatePoint) :
    (RegionAllocator.createRegion base poolSize name size point).StoresOutside
      (base + catHdrDataStart) 8 := by
  have hheader := header_le_entryOffset base
  cases point with
  | findRegion loop =>
    refine BackendCall.storesOutside_of_isLoad ?_
    rw [RegionAllocator.createRegion, BackendCall.isLoad_map, EntryVisitor.isLoad_next]
  | findFreeSlot loop =>
    refine BackendCall.storesOutside_of_isLoad ?_
    rw [RegionAllocator.createRegion, BackendCall.isLoad_map, EntryVisitor.isLoad_next]
  | nextFreeOffset slot loop =>
    refine BackendCall.storesOutside_of_isLoad ?_
    rw [RegionAllocator.createRegion, BackendCall.isLoad_map, EntryVisitor.isLoad_next]
  | writeEntry slot regionOffset point =>
    refine BackendCall.storesOutside_of_entry ?_
    rw [RegionAllocator.createRegion, BackendCall.offset_map]
    exact Catalog.offset_writeEntry _ _ _ _
  | storeActive slot regionOffset => exact BackendCall.storesOutside_of_entry (hheader slot)
  | storeCount slot regionOffset count => exact BackendCall.storesOutside_of_count rfl rfl
  | _ => exact fun hstore ↦ by cases hstore

theorem RegionAllocator.freeRegion_storesOutside (name : String) (point : FreePoint) :
    (RegionAllocator.freeRegion base name point).StoresOutside (base + catHdrDataStart) 8 := by
  have hheader := header_le_entryOffset base
  cases point with
  | findRegion loop =>
    refine BackendCall.storesOutside_of_isLoad ?_
    rw [RegionAllocator.freeRegion, BackendCall.isLoad_map, EntryVisitor.isLoad_next]
  | storeFreeing slot => exact BackendCall.storesOutside_of_entry (hheader slot)
  | storeFree slot => exact BackendCall.storesOutside_of_entry (hheader slot)
  | storeCount count => exact BackendCall.storesOutside_of_count rfl rfl
  | _ => exact fun hstore ↦ by cases hstore

theorem RegionAllocator.recover_storesOutside (point : CatalogRecoverPoint) :
    (RegionAllocator.recover base point).StoresOutside (base + catHdrDataStart) 8 := by
  cases point with
  | readEntry index fixed point =>
    refine BackendCall.storesOutside_of_isLoad ?_
    rw [RegionAllocator.recover, BackendCall.isLoad_map, Catalog.isLoad_readEntry]
  | storeFree index fixed =>
    exact BackendCall.storesOutside_of_entry (header_le_entryOffset base index)
  | flushFree index fixed => exact fun hstore ↦ by cases hstore

/-- A call that stores elsewhere leaves the start of the data area at rest. -/
theorem StartAtRest.of_runs {Point Result : Type} {inside : Task Point Result → AllocCall}
    {routine : Point → BackendCall (Task Point Result)} {task : Task Point Result}
    {result : AllocCall} {given : AllocAnswer} {later : Memory} (hstart : StartAtRest base before)
    (hruns : AllocCall.Runs base poolSize inside routine)
    (hends : (allocatorMachine base poolSize).Ends (inside task) before.cached result later)
    (hgiven : result.answer = some given)
    (hstores : ∀ point, (routine point).StoresOutside (base + catHdrDataStart) 8)
    (hreaches : (cachedAllocator base poolSize).Reaches (inside task) before call shared) :
    StartAtRest base shared := by
  obtain ⟨⟨-, -, hsafe⟩, -⟩ := hruns.reaches_cached hreaches hends hgiven
    (fun _ shared ↦ StartAtRest base shared) hstart
    (fun point _ hstart _ ↦ hstart.execCached (hstores point))
    (fun _ line shared hstart ↦ hstart.settles (settles_writeBack line shared))
  exact hsafe

/-- No call but `init` touches the start of the data area. -/
theorem StartAtRest.of_reaches (hstart : StartAtRest base before) {request : AllocRequest}
    (hrequest : request ≠ .init)
    (hreaches : (cachedAllocator base poolSize).Reaches (request.call poolSize) before call
      shared) : StartAtRest base shared := by
  cases request with
  | init => exact absurd rfl hrequest
  | openPool =>
    exact hstart.of_runs AllocCall.runs_openPool (openPool_ends base poolSize before.cached) rfl
      (fun _ ↦ BackendCall.storesOutside_of_isLoad rfl) hreaches
  | createRegion name size =>
    obtain ⟨result, later, hends, -⟩ := createRegion_ends base poolSize name size before.cached
    exact hstart.of_runs (AllocCall.runs_createRegion name size) hends rfl
      (RegionAllocator.createRegion_storesOutside name size.toNat) hreaches
  | freeRegion name =>
    obtain ⟨result, later, hends, -⟩ := freeRegion_ends base poolSize name before.cached
    exact hstart.of_runs (AllocCall.runs_freeRegion name) hends rfl
      (RegionAllocator.freeRegion_storesOutside name) hreaches
  | findRegion name =>
    exact hstart.of_runs (AllocCall.runs_findRegion name)
      (findRegion_ends base poolSize name before.cached) rfl
      (fun loop ↦ BackendCall.storesOutside_of_isLoad
        ((RegionAllocator.findRegion name).isLoad_next base loop)) hreaches
  | listRegions =>
    exact hstart.of_runs AllocCall.runs_listRegions
      (listRegions_ends base poolSize before.cached) rfl
      (fun loop ↦ BackendCall.storesOutside_of_isLoad
        (RegionAllocator.listRegions.isLoad_next base loop)) hreaches
  | recover =>
    obtain ⟨count, later, hends, -⟩ := recoverCatalog_head_ends base poolSize 0 0 before.cached
    exact hstart.of_runs AllocCall.runs_recover hends rfl RegionAllocator.recover_storesOutside
      hreaches

/-! ### Recovering -/

/-- How far a `recover` has got, with the regions as they were. -/
def CatalogRecoverPoint.Keeps (base : ℕ) (before shared : CachedMemory) :
    CatalogRecoverPoint → Prop
  | .readEntry index _ point =>
    (index < maxRegions ∧ ∀ state, point.state? = some state →
      state = (CatalogEntry.ofMemory shared.cached base index).state) ∧
      SettledCatalog base shared ∧
        activeRegions base shared.cached = activeRegions base before.cached
  | .storeFree index _ =>
    (index < maxRegions ∧ entryByte shared.cached base index ≠ RegionState.active.toU8) ∧
      SettledCatalog base shared ∧
        activeRegions base shared.cached = activeRegions base before.cached
  | .flushFree index _ =>
    Vacant base index shared False shared ∧
      activeRegions base shared.cached = activeRegions base before.cached

/-- A `recover` that has returned has left the regions as they were. -/
def recoverKeeps (base : ℕ) (before : CachedMemory) (task : Task CatalogRecoverPoint ℕ)
    (shared : CachedMemory) : Prop :=
  task.fold (CatalogRecoverPoint.Keeps base before shared) fun _ ↦
    SettledCatalog base shared ∧ activeRegions base shared.cached = activeRegions base before.cached

theorem recoverKeeps_head {index fixed : ℕ} (hsettled : SettledCatalog base shared)
    (hregions : activeRegions base shared.cached = activeRegions base before.cached) :
    recoverKeeps base before (CatalogRecoverPoint.head index fixed) shared := by
  unfold CatalogRecoverPoint.head
  split_ifs with hindex
  · exact ⟨⟨hindex, fun state hstate ↦ by cases hstate⟩, hsettled, hregions⟩
  · exact ⟨hsettled, hregions⟩

/-- An entry that is no region is freed in the cache. -/
theorem SettledCatalog.freeEntry {slot : ℕ} (hsettled : SettledCatalog base shared)
    (hslot : slot < maxRegions)
    (hstate : entryByte shared.cached base slot ≠ RegionState.active.toU8) :
    Vacant base slot (storeState base slot .free shared) False (storeState base slot .free shared) ∧
      activeRegions base (storeState base slot .free shared).cached =
        activeRegions base shared.cached := by
  have hbefore : AsBefore base shared shared := ⟨rfl, hsettled⟩
  have hvacant : Vacant base slot shared False (storeState base slot .free shared) :=
    (hbefore.vacant hslot hstate).storeState RegionState.noConfusion
  refine ⟨⟨?_, hvacant.cached_ne, hvacant.media_ne, hvacant.rest⟩, ?_⟩
  · exact ⟨hvacant.elsewhere.magic, hvacant.elsewhere.entry, fun other _ _ ↦ .refl base other _⟩
  · refine @activeRegions_eq_of_slot base slot _ _ ?_ fun other hother hne ↦
      regionAt_congr (hvacant.elsewhere.same other hother hne)
    rw [regionAt_eq_none_iff_entryByte.mpr hstate,
      regionAt_eq_none_iff_entryByte.mpr hvacant.cached_ne]

/-- Every step of a `recover` keeps the regions. -/
theorem CatalogRecoverPoint.Keeps.step {point : CatalogRecoverPoint}
    (hkeeps : point.Keeps base before shared) :
    recoverKeeps base before ((RegionAllocator.recover base point).execCached shared).1
      ((RegionAllocator.recover base point).execCached shared).2 := by
  cases point with
  | readEntry index fixed point =>
    obtain ⟨⟨hindex, hsaw⟩, hsettled, hregions⟩ := hkeeps
    have hstep := ReadEntryPoint.state_step hsaw
    have hisLoad := Catalog.isLoad_readEntry base index point
    have hload := BackendCall.execCached_of_isLoad hisLoad shared
    rw [← ((Catalog.readEntry base index point).execCached_eq shared).1] at hstep
    simp only [RegionAllocator.recover, BackendCall.execCached_map, hload]
    cases hnext : ((Catalog.readEntry base index point).execCached shared).1 with
    | running next =>
      rw [hnext] at hstep
      exact ⟨⟨hindex, hstep⟩, hsettled, hregions⟩
    | returned entry =>
      rw [hnext] at hstep
      have hstate : entry.state = (CatalogEntry.ofMemory shared.cached base index).state := hstep
      show recoverKeeps base before (CatalogRecoverPoint.body index fixed entry) shared
      unfold CatalogRecoverPoint.body
      split_ifs with htransition
      · refine ⟨⟨hindex, fun hactive ↦ ?_⟩, hsettled, hregions⟩
        rw [hstate] at htransition
        exact not_inTransition_of_active (RegionState.ofByte_eq_active_iff.mpr hactive) htransition
      · exact recoverKeeps_head hsettled hregions
  | storeFree index fixed =>
    obtain ⟨⟨hindex, hstate⟩, hsettled, hregions⟩ := hkeeps
    obtain ⟨hvacant, hsame⟩ := hsettled.freeEntry hindex hstate
    exact ⟨hvacant, hsame.trans hregions⟩
  | flushFree index fixed => exact recoverKeeps_head hkeeps.1.elsewhere.flush hkeeps.2

theorem recoverKeeps_settles {task : Task CatalogRecoverPoint ℕ}
    (hkeeps : recoverKeeps base before task shared) (hsettles : Settles shared after) :
    recoverKeeps base before task after := by
  have hsettled : ∀ {fact : Prop}, fact ∧ SettledCatalog base shared ∧
      activeRegions base shared.cached = activeRegions base before.cached →
      fact ∧ SettledCatalog base after ∧
        activeRegions base after.cached = activeRegions base before.cached := by
    rintro fact ⟨hfact, hsettled, hregions⟩
    exact ⟨hfact, hsettled.settles hsettles, by rwa [hsettles.cached_eq]⟩
  cases task with
  | returned fixed => exact (hsettled ⟨trivial, hkeeps⟩).2
  | running point =>
    cases point with
    | readEntry index fixed point =>
      obtain ⟨⟨hindex, hsaw⟩, hkept⟩ := hkeeps
      rw [← hsettles.cached_eq] at hsaw
      exact hsettled ⟨⟨hindex, hsaw⟩, hkept⟩
    | storeFree index fixed =>
      obtain ⟨⟨hindex, hstate⟩, hkept⟩ := hkeeps
      rw [← hsettles.cached_eq] at hstate
      exact hsettled ⟨⟨hindex, hstate⟩, hkept⟩
    | flushFree index fixed =>
      obtain ⟨hvacant, hregions⟩ := hkeeps
      have hafter := hvacant.settles hsettles
      refine ⟨⟨?_, hafter.cached_ne, hafter.media_ne, hafter.rest⟩, by rwa [hsettles.cached_eq]⟩
      exact ⟨hafter.elsewhere.magic, hafter.elsewhere.entry, fun other _ _ ↦ .refl base other _⟩

/-- A `recover` is atomic under a crash, and changes no region. -/
theorem SettledCatalog.crashAtomic_of_recover (hsettled : SettledCatalog base before)
    (hreaches : (cachedAllocator base poolSize).Reaches
      (AllocRequest.recover.call poolSize) before call shared) {later : Memory}
    (hlater : CatalogRecovered base 0 before.cached later) :
    CrashAtomic base before.cached later call shared := by
  obtain ⟨count, final, hends, -⟩ := recoverCatalog_head_ends base poolSize 0 0 before.cached
  obtain ⟨⟨task, rfl, hkeeps⟩, -⟩ := AllocCall.runs_recover.reaches_cached hreaches hends rfl
    (recoverKeeps base before) (recoverKeeps_head hsettled rfl)
    (fun _ _ hkeeps _ ↦ hkeeps.step)
    (fun _ line shared hkeeps ↦ recoverKeeps_settles hkeeps (settles_writeBack line shared))
  have hatRest : SettledCatalog base shared →
      activeRegions base shared.cached = activeRegions base before.cached →
      CrashAtomic base before.cached later (.recover task) shared := fun hsettled hregions ↦
    hsettled.crashAtomic (hlater.activeRegions_eq.trans hregions.symm)
  cases task with
  | returned fixed => exact hatRest hkeeps.1 hkeeps.2
  | running point =>
    cases point with
    | readEntry index fixed point => exact hatRest hkeeps.2.1 hkeeps.2.2
    | storeFree index fixed => exact hatRest hkeeps.2.1 hkeeps.2.2
    | flushFree index fixed =>
      obtain ⟨hvacant, hregions⟩ := hkeeps
      have hnone := regionAt_eq_none_iff_entryByte.mpr hvacant.cached_ne
      have hmedia := hvacant.activeRegions_media hnone fun _ _ ↦ rfl
      exact ⟨hvacant.elsewhere.magic.media_eq, Or.inl (hmedia.trans hregions),
        fun hreturned ↦ by cases hreturned⟩

/-! ### Any call -/

/-- A call that only loads is atomic under a crash. -/
theorem SettledCatalog.crashAtomic_of_loads {Point Result : Type}
    {inside : Task Point Result → AllocCall} {routine : Point → BackendCall (Task Point Result)}
    {task : Task Point Result}
    {result : AllocCall} {given : AllocAnswer} (hsettled : SettledCatalog base before)
    (hruns : AllocCall.Runs base poolSize inside routine)
    (hreaches : (cachedAllocator base poolSize).Reaches (inside task) before call shared)
    (hends : (allocatorMachine base poolSize).Ends (inside task) before.cached result
      before.cached) (hgiven : result.answer = some given)
    (hload : ∀ point, (routine point).isLoad = true) :
    CrashAtomic base before.cached before.cached call shared := by
  obtain ⟨⟨-, -, hbefore⟩, -⟩ := hruns.reaches_cached hreaches hends hgiven
    (fun _ shared ↦ AsBefore base before shared) ⟨rfl, hsettled⟩
    (fun point shared hbefore _ ↦ by rwa [BackendCall.execCached_of_isLoad (hload point)])
    (fun _ line shared hbefore ↦ hbefore.settles (settles_writeBack line shared))
  exact hbefore.settled.crashAtomic (by rw [hbefore.cached_eq])

/-- Every call but `init` is atomic under a crash. -/
theorem SettledCatalog.crashAtomic_of_any {request : AllocRequest}
    (hsettled : SettledCatalog base before) (hrequest : request ≠ .init)
    (hreaches : (cachedAllocator base poolSize).Reaches
      (request.call poolSize) before call shared) {result : AllocCall} {given : AllocAnswer}
    {later : Memory} (hends : (allocatorMachine base poolSize).Ends (request.call poolSize)
      before.cached result later) (hgiven : result.answer = some given) :
    CrashAtomic base before.cached later call shared := by
  have hsame : ∀ {other : AllocCall} {answered : AllocAnswer} {reached : Memory},
      (allocatorMachine base poolSize).Ends (request.call poolSize) before.cached other reached →
      other.answer = some answered → later = reached := fun hother hanswered ↦
    (hends.unique hother (AllocCall.step_of_answer hgiven)
      (AllocCall.step_of_answer hanswered)).2
  have hupdate : request.Updates → CrashAtomic base before.cached later call shared := by
    intro hupdates
    obtain ⟨other, answered, reached, hother, hanswered, hatomic⟩ :=
      hsettled.crashAtomic_of_reaches hupdates hreaches
    rwa [hsame hother hanswered]
  cases request with
  | init => exact absurd rfl hrequest
  | openPool =>
    have hopen := openPool_ends base poolSize before.cached
    rw [hsame hopen rfl]
    exact hsettled.crashAtomic_of_loads AllocCall.runs_openPool hreaches hopen rfl fun _ ↦ rfl
  | createRegion name size => exact hupdate trivial
  | freeRegion name => exact hupdate trivial
  | findRegion name =>
    have hfind := findRegion_ends base poolSize name before.cached
    rw [hsame hfind rfl]
    exact hsettled.crashAtomic_of_loads (AllocCall.runs_findRegion name) hreaches hfind rfl
      fun loop ↦ (RegionAllocator.findRegion name).isLoad_next base loop
  | listRegions =>
    have hlist := listRegions_ends base poolSize before.cached
    rw [hsame hlist rfl]
    exact hsettled.crashAtomic_of_loads AllocCall.runs_listRegions hreaches hlist rfl
      fun loop ↦ RegionAllocator.listRegions.isLoad_next base loop
  | recover =>
    obtain ⟨count, reached, hrecover, hrecovered⟩ :=
      recoverCatalog_head_ends base poolSize 0 0 before.cached
    rw [hsame hrecover rfl]
    exact hsettled.crashAtomic_of_recover hreaches hrecovered

end Fence
