import Fence.Alloc.CompletedCalls

/-!
# A crash inside an allocator call

A pool is initialised on a memory with a volatile cache, any number of calls complete, and a
`create_region` or `free_region` is stopped anywhere, lines being written back at any time. What
`open`, `recover` and `list_regions` then find on the media is the list from before the call or the
one the call leaves, the latter if it had returned, and no entry is in transition
(`restartsWith_before_or_after`).
-/

set_option autoImplicit false
set_option relaxedAutoImplicit false

namespace Fence

open ByteMemory ByteMemory.CachedMemory Interleaving

variable {base poolSize : ℕ} {memory recovered : Memory} {before shared : CachedMemory}
  {call : AllocCall}

/-! ### Restarting -/

/-- A pool opens and recovers, then lists these regions and has no entry in transition. -/
def RestartsWith (base poolSize : ℕ) (media : Memory) (regions : List RegionHandle) : Prop :=
  ∃ fixed recovered, (allocatorMachine base poolSize).Session AllocCall.answer
      [.openPool, .recover, .listRegions] media
      [.ready (.ok ()), .recovered fixed, .listed regions] recovered ∧
    ∀ slot < maxRegions, ¬ (CatalogEntry.ofMemory recovered base slot).state.InTransition

/-- A media with a magic number restarts with its regions. -/
theorem restartsWith_activeRegions
    (hmagic : loadWord memory (base + catHdrMagic) 8 = allocMagic) :
    RestartsWith base poolSize memory (activeRegions base memory) := by
  have hopen := openPool_ends base poolSize memory
  rw [hmagic, openResult_allocMagic] at hopen
  obtain ⟨fixed, recovered, hrecover, hrecovered⟩ :=
    recoverCatalog_head_ends base poolSize 0 0 memory
  have hlist := listRegions_ends base poolSize recovered
  rw [hrecovered.activeRegions_eq] at hlist
  exact ⟨fixed, recovered, .cons hopen rfl (.cons hrecover rfl (.cons hlist rfl (.nil _))),
    fun slot hslot ↦ hrecovered.not_inTransition hslot⟩

/-! ### Crashes -/

/-- A call that creates or frees a region is atomic under a crash. -/
theorem SettledCatalog.crashAtomic_of_reaches {request : AllocRequest}
    (hsettled : SettledCatalog base before) (hupdates : request.Updates)
    (hreaches : (cachedAllocator base poolSize).Reaches
      (request.call poolSize) before call shared) :
    ∃ result given later, (allocatorMachine base poolSize).Ends (request.call poolSize)
        before.cached result later ∧ result.answer = some given ∧
      CrashAtomic base before.cached later call shared := by
  cases request with
  | createRegion name size =>
    obtain ⟨result, later, hends, houtcome⟩ :=
      createRegion_ends base poolSize name size before.cached
    obtain ⟨⟨task, rfl, hsafe⟩, hrest⟩ := createSafe_of_reaches houtcome hsettled hends hreaches
    exact ⟨_, _, later, hends, rfl, hsafe.crashAtomic houtcome hrest⟩
  | freeRegion name =>
    obtain ⟨result, later, hends, houtcome⟩ := freeRegion_ends base poolSize name before.cached
    obtain ⟨⟨task, rfl, hsafe⟩, hrest⟩ := freeSafe_of_reaches houtcome hsettled hends hreaches
    exact ⟨_, _, later, hends, rfl, hsafe.crashAtomic hrest⟩
  | _ => exact hupdates.elim

/-- After a crash inside a `create_region` or `free_region` the pool restarts with the regions from
before the call or from after it, the latter once the call has returned. -/
theorem restartsWith_before_or_after {initial ready : CachedMemory} {started : AllocCall}
    (hinit : (cachedAllocator base poolSize).Reaches (AllocRequest.init.call poolSize) initial
      started ready) (haccepted : started.answer = some (.ready (.ok ())))
    {requests : List AllocRequest} (hrequests : ∀ request ∈ requests, request ≠ .init)
    (hcompletes : (cachedAllocator base poolSize).Completes AllocCall.answer requests ready before)
    {request : AllocRequest} (hupdates : request.Updates)
    (hreaches : (cachedAllocator base poolSize).Reaches
      (request.call poolSize) before call shared) :
    ∃ old new regions result given later,
      (allocatorMachine base poolSize).Ends (AllocRequest.listRegions.call poolSize) before.cached
        (.listRegions (.returned old)) before.cached ∧
      (allocatorMachine base poolSize).Ends (request.call poolSize) before.cached result later ∧
      result.answer = some given ∧
      (allocatorMachine base poolSize).Ends (AllocRequest.listRegions.call poolSize) later
        (.listRegions (.returned new)) later ∧
      RestartsWith base poolSize shared.media regions ∧
      (regions = old ∨ regions = new) ∧ (call.answer.isSome = true → regions = new) := by
  have hsettled : SettledCatalog base before :=
    (SettledCatalog.of_init hinit haccepted).of_completes hrequests hcompletes
  obtain ⟨result, given, later, hends, hgiven, hatomic⟩ :=
    hsettled.crashAtomic_of_reaches hupdates hreaches
  exact ⟨activeRegions base before.cached, activeRegions base later,
    activeRegions base shared.media, result, given, later,
    listRegions_ends base poolSize before.cached, hends, hgiven,
    listRegions_ends base poolSize later, restartsWith_activeRegions hatomic.magic, hatomic.media,
    hatomic.returned⟩

/-- A region is created in an empty pool, and the cache is lost. -/
theorem restartsWith_before_or_after_one : ∃ ready call shared regions given later,
    (cachedAllocator 0 (catalogSize + 64)).Reaches
      ((AllocRequest.createRegion "a" 64).call (catalogSize + 64)) ready call shared ∧
    call.answer = some given ∧
    (allocatorMachine 0 (catalogSize + 64)).Ends
      (AllocRequest.listRegions.call (catalogSize + 64)) later
      (.listRegions (.returned regions)) later ∧
    RestartsWith 0 (catalogSize + 64) shared.media regions := by
  obtain ⟨start, hstart, -⟩ :=
    @init_ends (catalogSize + 64) 0 (clean fun _ ↦ 0).cached (Nat.le_add_right _ _)
  obtain ⟨ready, hinit, -⟩ := hstart.reaches_of_project AllocCall.stepCached_eq
  obtain ⟨created, left, hcreate, -⟩ :=
    createRegion_ends 0 (catalogSize + 64) "a" 64 ready.cached
  obtain ⟨shared, hreaches, -⟩ := hcreate.reaches_of_project AllocCall.stepCached_eq
  have hupdates : (AllocRequest.createRegion "a" 64).Updates := trivial
  have hrequests : ∀ request ∈ ([] : List AllocRequest), request ≠ .init := nofun
  obtain ⟨old, new, regions, result, given, later, -, -, -, hlist, hrestarts, -, hreturned⟩ :=
    restartsWith_before_or_after hinit rfl hrequests (.nil ready) hupdates hreaches
  rw [hreturned rfl] at hrestarts
  exact ⟨ready, _, shared, new, _, later, hreaches, rfl, hlist, hrestarts⟩

end Fence
