import Fence.Alloc.CrashFree

/-!
# Completed calls on a cached memory

An `init` that is accepted leaves a settled catalog, whatever the memory held before, and every
other call that has returned leaves it settled (`SettledCatalog.of_completes`). For `create_region`
and `free_region` this is what their `Safe` says of a call that has returned; `recover` has the one
entry it frees out of rest; the other calls only load.
-/

set_option autoImplicit false
set_option relaxedAutoImplicit false

namespace Fence

open ByteMemory ByteMemory.CachedMemory Interleaving

variable {base poolSize slot : ℕ} {before shared after : CachedMemory} {call : AllocCall}

/-! ### Initialising -/

theorem MagicAtRest.settles (hmagic : MagicAtRest base shared) (hsettles : Settles shared after) :
    MagicAtRest base after :=
  hmagic.changes (hsettles.changes (base + 8) 0) (Nat.le_refl _)

/-- The magic number is in the cache. -/
def MagicStored (base : ℕ) (shared : CachedMemory) : Prop :=
  loadWord shared.cached (base + catHdrMagic) 8 = allocMagic

/-- The entries before one are free in the cache, behind a magic number at rest. -/
structure FreedBelow (base index : ℕ) (shared : CachedMemory) : Prop where
  magic : MagicAtRest base shared
  free : ∀ slot < index, entryByte shared.cached base slot = RegionState.free.toU8

theorem FreedBelow.settles {index : ℕ} (hbelow : FreedBelow base index shared)
    (hsettles : Settles shared after) : FreedBelow base index after :=
  ⟨hbelow.magic.settles hsettles, by rw [hsettles.cached_eq]; exact hbelow.free⟩

/-- The next entry is freed. -/
theorem FreedBelow.storeState {index : ℕ} (hbelow : FreedBelow base index shared) :
    FreedBelow base (index + 1) (Fence.storeState base index .free shared) where
  magic := by
    have hheader := header_le_entryOffset base index
    exact hbelow.magic.changes (changes_storeState base index .free shared)
      (Nat.le_trans (Nat.add_le_add_left (by decide) base) hheader)
  free := by
    intro slot hslot
    by_cases hsame : slot = index
    · rw [hsame, entryByte_storeState]
    · have hdisjoint := @entryOffset_disjoint base slot index hsame
      have hsize : catalogEntrySize = 64 := rfl
      have hstate : entState = 0 := rfl
      rw [← hbelow.free slot (by omega)]
      exact (changes_storeState base index .free shared).cached _ (by omega)

/-- The entries are flushed in the end. -/
theorem FreedBelow.flush (hbelow : FreedBelow base maxRegions shared) :
    SettledCatalog base (shared.flush cacheline (base + catalogHeaderSize)
      (maxRegions * catalogEntrySize)) where
  magic := hbelow.magic.settles (settles_flush _ _ _)
  entry := by
    intro slot hslot
    have hpersisted := @persisted_flush cacheline (base + catalogHeaderSize)
      (maxRegions * catalogEntrySize) shared
    refine .of_persisted (hpersisted.mono ?_ ?_)
    · exact header_le_entryOffset base slot
    · have hlast := @entryOffset_le_catalogSize base slot hslot
      simp only [catalogSize, catalogEntrySize] at hlast ⊢
      omega

/-- How far an `init` has got. -/
def InitPoint.Safe (base : ℕ) (shared : CachedMemory) : InitPoint → Prop
  | .storeMagic => True
  | .storeCount => MagicStored base shared
  | .storeTotalSize => MagicStored base shared
  | .storeDataStart => MagicStored base shared
  | .flushHeader => MagicStored base shared
  | .storeState index => FreedBelow base index shared
  | .flushEntries => FreedBelow base maxRegions shared

/-- An accepted `init` has left a settled catalog. -/
def initSafe (base : ℕ) (task : Task InitPoint (Except AllocError Unit)) (shared : CachedMemory) :
    Prop :=
  task.fold (InitPoint.Safe base shared) fun result ↦ result = .ok () → SettledCatalog base shared

theorem initSafe_head {index : ℕ} (hbelow : FreedBelow base index shared) :
    initSafe base (InitPoint.head index) shared := by
  unfold InitPoint.head
  split_ifs with hindex
  · exact hbelow
  · exact ⟨hbelow.magic, fun slot hslot ↦ hbelow.free slot (by omega)⟩

/-- A header word behind the magic number is stored. -/
theorem MagicStored.store {field value : ℕ} (hmagic : MagicStored base shared)
    (hfield : 8 ≤ field) :
    MagicStored base { shared with cached := storeWord shared.cached (base + field) 8 value } := by
  refine (loadWord_store_outside (Or.inl ?_)).trans hmagic
  unfold catHdrMagic
  omega

theorem InitPoint.Safe.step {point : InitPoint} (hsafe : point.Safe base shared) :
    initSafe base ((RegionAllocator.init base poolSize point).execCached shared).1
      ((RegionAllocator.init base poolSize point).execCached shared).2 := by
  cases point with
  | storeMagic => exact loadWord_storeWord_self _ _ _ _
  | storeCount => exact MagicStored.store hsafe (by decide)
  | storeTotalSize => exact MagicStored.store hsafe (by decide)
  | storeDataStart => exact MagicStored.store hsafe (by decide)
  | flushHeader =>
    have hpersisted := @persisted_flush cacheline base catalogHeaderSize shared
    have hmagic : MagicAtRest base (shared.flush cacheline base catalogHeaderSize) :=
      ⟨hpersisted.mono (Nat.le_add_right _ _) (Nat.add_le_add_left (by decide) base), hsafe⟩
    exact @initSafe_head base _ 0 ⟨hmagic, fun slot hslot ↦ absurd hslot (Nat.not_lt_zero slot)⟩
  | storeState index => exact initSafe_head (FreedBelow.storeState hsafe)
  | flushEntries => exact fun _ ↦ FreedBelow.flush hsafe

theorem initSafe_settles {task : Task InitPoint (Except AllocError Unit)}
    (hsafe : initSafe base task shared) (hsettles : Settles shared after) :
    initSafe base task after := by
  have hstored : MagicStored base shared → MagicStored base after := by
    intro hmagic
    unfold MagicStored
    rw [hsettles.cached_eq]
    exact hmagic
  cases task with
  | returned result => exact fun hok ↦ (hsafe hok).settles hsettles
  | running point =>
    cases point with
    | storeMagic => exact trivial
    | storeCount => exact hstored hsafe
    | storeTotalSize => exact hstored hsafe
    | storeDataStart => exact hstored hsafe
    | flushHeader => exact hstored hsafe
    | storeState index => exact FreedBelow.settles hsafe hsettles
    | flushEntries => exact FreedBelow.settles hsafe hsettles

/-- An accepted `init` leaves a settled catalog. -/
theorem SettledCatalog.of_init
    (hreaches : (cachedAllocator base poolSize).Reaches (AllocRequest.init.call poolSize) before
      call shared) (haccepted : call.answer = some (.ready (.ok ()))) :
    SettledCatalog base shared := by
  by_cases hsize : catalogSize ≤ poolSize
  · obtain ⟨later, hends, -⟩ := init_ends base before.cached hsize
    have hinit : initSafe base (startInit poolSize) before := by
      rw [startInit, if_neg (Nat.not_lt.mpr hsize)]
      exact trivial
    obtain ⟨⟨task, rfl, hsafe⟩, -⟩ := AllocCall.runs_init.reaches_cached hreaches hends rfl
      (initSafe base) hinit (fun _ _ hsafe _ ↦ hsafe.step)
      (fun _ line shared hsafe ↦ initSafe_settles hsafe (settles_writeBack line shared))
    cases task with
    | running point => cases haccepted
    | returned result =>
      cases haccepted
      exact hsafe rfl
  · have hends : (allocatorMachine base poolSize).Ends (AllocRequest.init.call poolSize)
        before.cached (.init (.returned (.error (.outOfSpace catalogSize poolSize))))
        before.cached := by
      rw [AllocRequest.call, startInit, if_pos (Nat.lt_of_not_le hsize)]
      exact .refl _ _
    have hcall := AllocCall.ends_of_reaches hreaches rfl hends
    obtain ⟨rfl, -⟩ := hcall.unique (.refl _ _) (fun _ ↦ rfl) (AllocCall.step_of_answer haccepted)
    cases haccepted

/-! ### Recovering -/

/-- How far a `recover` has got. -/
def CatalogRecoverPoint.Safe (base : ℕ) (shared : CachedMemory) : CatalogRecoverPoint → Prop
  | .readEntry _ _ _ => SettledCatalog base shared
  | .storeFree _ _ => SettledCatalog base shared
  | .flushFree index _ => Elsewhere base index shared shared

def recoverSafe (base : ℕ) (task : Task CatalogRecoverPoint ℕ) (shared : CachedMemory) : Prop :=
  task.fold (CatalogRecoverPoint.Safe base shared) fun _ ↦ SettledCatalog base shared

theorem recoverSafe_head {index fixed : ℕ} (hsettled : SettledCatalog base shared) :
    recoverSafe base (CatalogRecoverPoint.head index fixed) shared := by
  unfold CatalogRecoverPoint.head
  split_ifs <;> exact hsettled

theorem CatalogRecoverPoint.Safe.step {point : CatalogRecoverPoint}
    (hsafe : point.Safe base shared) :
    recoverSafe base ((RegionAllocator.recover base point).execCached shared).1
      ((RegionAllocator.recover base point).execCached shared).2 := by
  cases point with
  | readEntry index fixed point =>
    have hload := BackendCall.execCached_of_isLoad
      (Catalog.isLoad_readEntry base index point) shared
    simp only [RegionAllocator.recover, BackendCall.execCached_map, hload]
    cases ((Catalog.readEntry base index point).execCached shared).1 with
    | running next => exact hsafe
    | returned entry =>
      show recoverSafe base (CatalogRecoverPoint.body index fixed entry) shared
      unfold CatalogRecoverPoint.body
      split_ifs
      · exact hsafe
      · exact recoverSafe_head hsafe
  | storeFree index fixed =>
    have helsewhere := (SettledCatalog.elsewhere hsafe index).storeState .free
    exact ⟨helsewhere.magic, helsewhere.entry, fun other _ _ ↦ .refl base other _⟩
  | flushFree index fixed => exact recoverSafe_head (Elsewhere.flush hsafe)

theorem recoverSafe_settles {task : Task CatalogRecoverPoint ℕ}
    (hsafe : recoverSafe base task shared)
    (hsettles : Settles shared after) : recoverSafe base task after := by
  cases task with
  | returned fixed => exact SettledCatalog.settles hsafe hsettles
  | running point =>
    cases point with
    | readEntry index fixed point => exact SettledCatalog.settles hsafe hsettles
    | storeFree index fixed => exact SettledCatalog.settles hsafe hsettles
    | flushFree index fixed =>
      have helsewhere := Elsewhere.settles hsafe hsettles
      exact ⟨helsewhere.magic, helsewhere.entry, fun other _ _ ↦ .refl base other _⟩

/-! ### Any call -/

/-- A call that only loads leaves the catalog settled. -/
theorem SettledCatalog.of_loads {Point Result : Type} {inside : Task Point Result → AllocCall}
    {routine : Point → BackendCall (Task Point Result)} {task : Task Point Result}
    {result : AllocCall} {given : AllocAnswer} {later : Memory}
    (hsettled : SettledCatalog base before) (hruns : AllocCall.Runs base poolSize inside routine)
    (hreaches : (cachedAllocator base poolSize).Reaches (inside task) before call shared)
    (hends : (allocatorMachine base poolSize).Ends (inside task) before.cached result later)
    (hgiven : result.answer = some given)
    (hload : ∀ point, (routine point).isLoad = true) : SettledCatalog base shared := by
  obtain ⟨⟨-, -, hsafe⟩, -⟩ := hruns.reaches_cached hreaches hends hgiven
    (fun _ shared ↦ SettledCatalog base shared) hsettled
    (fun point shared hsettled _ ↦ by rwa [BackendCall.execCached_of_isLoad (hload point)])
    (fun _ line shared hsettled ↦ hsettled.settles (settles_writeBack line shared))
  exact hsafe

/-- A call that has returned leaves the catalog settled. -/
theorem SettledCatalog.of_reaches {request : AllocRequest} {given : AllocAnswer}
    (hsettled : SettledCatalog base before) (hrequest : request ≠ .init)
    (hreaches : (cachedAllocator base poolSize).Reaches (request.call poolSize) before call shared)
    (hgiven : call.answer = some given) : SettledCatalog base shared := by
  cases request with
  | init => exact absurd rfl hrequest
  | openPool =>
    exact hsettled.of_loads AllocCall.runs_openPool hreaches
      (openPool_ends base poolSize before.cached) rfl fun _ ↦ rfl
  | createRegion name size =>
    obtain ⟨result, later, hends, houtcome⟩ :=
      createRegion_ends base poolSize name size before.cached
    obtain ⟨⟨task, rfl, hsafe⟩, -⟩ := createSafe_of_reaches houtcome hsettled hends hreaches
    cases task with
    | running point => cases hgiven
    | returned done => exact hsafe
  | freeRegion name =>
    obtain ⟨result, later, hends, houtcome⟩ := freeRegion_ends base poolSize name before.cached
    obtain ⟨⟨task, rfl, hsafe⟩, -⟩ := freeSafe_of_reaches houtcome hsettled hends hreaches
    cases task with
    | running point => cases hgiven
    | returned done => exact hsafe
  | findRegion name =>
    exact hsettled.of_loads (AllocCall.runs_findRegion name) hreaches
      (findRegion_ends base poolSize name before.cached) rfl
      fun loop ↦ (RegionAllocator.findRegion name).isLoad_next base loop
  | listRegions =>
    exact hsettled.of_loads AllocCall.runs_listRegions hreaches
      (listRegions_ends base poolSize before.cached) rfl
      fun loop ↦ RegionAllocator.listRegions.isLoad_next base loop
  | recover =>
    obtain ⟨count, later, hends, -⟩ := recoverCatalog_head_ends base poolSize 0 0 before.cached
    obtain ⟨⟨task, rfl, hsafe⟩, -⟩ := AllocCall.runs_recover.reaches_cached hreaches hends rfl
      (recoverSafe base) (recoverSafe_head hsettled)
      (fun _ _ hsafe _ ↦ hsafe.step)
      (fun _ line shared hsafe ↦ recoverSafe_settles hsafe (settles_writeBack line shared))
    cases task with
    | running point => cases hgiven
    | returned done => exact hsafe

/-- After an accepted `init` and any completed calls the catalog is settled. -/
theorem SettledCatalog.of_completes {requests : List AllocRequest}
    (hsettled : SettledCatalog base before) (hrequests : ∀ request ∈ requests, request ≠ .init)
    (hcompletes : (cachedAllocator base poolSize).Completes AllocCall.answer requests before
      shared) : SettledCatalog base shared :=
  hcompletes.invariant (SettledCatalog base)
    (fun request hmem _ _ _ _ hsettled hreaches hgiven ↦
      hsettled.of_reaches (hrequests request hmem) hreaches hgiven)
    (fun line shared hsettled ↦ hsettled.settles (settles_writeBack line shared)) hsettled

end Fence
