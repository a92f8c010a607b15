import Fence.Abstract.TableService
import Fence.Alloc.Catalogued

/-!
# A catalog serves its table

Every call that runs alone on a memory that holds a table does what `RegionTable.Serves` says, and
leaves a memory that holds the table after it (`HoldsRegions.serve`). A call that creates a region
needs a catalog with no entry in transition: then the entries `next_free_offset` looks at are the
regions of the table, so that what it returns is the least aligned offset past them
(`isLeast_nextOffset`). The service determines the answers, so that whatever it allows is what the
calls answer (`Catalogued.session_of_serves`).
-/

set_option autoImplicit false
set_option relaxedAutoImplicit false

namespace Fence

open ByteMemory Interleaving

variable {base poolSize slot : ℕ} {memory later : Memory}
  {table : RegionTable (base + catalogSize) (base + poolSize)}

/-- No aligned offset lies between a value and the next multiple of 64. -/
theorem alignUp_le_of_dvd {value offset : ℕ} (hexact : value + 63 < 2 ^ 64) (haligned : 64 ∣ offset)
    (hle : value ≤ offset) : alignUp value ≤ offset := by
  unfold alignUp
  rw [Nat.mod_eq_of_lt hexact]
  omega

section Held

variable (hholds : HoldsRegions base poolSize table memory)

include hholds

/-! ### Looking up -/

/-- A name that no active entry has has no region. -/
theorem HoldsRegions.region_eq_none {name : String}
    (hnone : ∀ region ∈ activeRegions base memory, region.name ≠ name) :
    table.region name = none := by
  refine Option.eq_none_iff_forall_not_mem.mpr fun region hregion ↦ ?_
  exact hnone region ((hholds.mem_iff region).mpr (table.region_name hregion))
    (table.name_eq hregion)

/-- The region an active entry has is that of its name. -/
theorem HoldsRegions.region_eq_some {region : RegionHandle}
    (hregion : region ∈ activeRegions base memory) : table.region region.name = some region :=
  (hholds.mem_iff region).mp hregion

/-- `find_region` finds the region of the table. -/
theorem HoldsRegions.lookup_eq (name : String) : lookup base memory name = table.found name := by
  rcases result_findRegion base memory name with
    ⟨region, hregion, rfl, hresult⟩ | ⟨hnone, hresult⟩
  · rw [lookup, hresult, RegionTable.found, hholds.region_eq_some hregion]
  · rw [lookup, hresult, RegionTable.found, hholds.region_eq_none hnone]

/-! ### Placing -/

/-- A slot with no active entry is unused. -/
theorem HoldsRegions.unused_of_ne_active (hslot : slot < maxRegions)
    (hactive : (CatalogEntry.ofMemory memory base slot).state ≠ .active) :
    slot ∈ table.unused := by
  refine ⟨hslot, fun name region hregion hsame ↦ ?_⟩
  obtain ⟨-, hat⟩ := hholds.regionAt_of_table hregion
  rw [hsame] at hat
  exact hactive (regionAt_eq_some_iff.mp hat).1

section Placing

variable (hquiet : QuietCatalog base memory)

include hquiet

/-- An entry that `next_free_offset` looks at is a region of the table. -/
theorem HoldsRegions.region_of_marked {entry : CatalogEntry}
    (hmem : (slot, entry) ∈ entriesFrom base memory 0) (hmarked : entry.Marked) :
    table.region entry.name = some (entry.handle slot) := by
  obtain ⟨hslot, rfl⟩ := mem_entriesFrom_zero.mp hmem
  have hactive : (CatalogEntry.ofMemory memory base slot).state = .active :=
    hmarked.resolve_right fun hallocating ↦ hquiet slot hslot (Or.inl hallocating)
  exact hholds.region_eq_some
    (mem_activeRegions_of_regionAt hslot (regionAt_eq_some_iff.mpr ⟨hactive, rfl⟩))

/-- The regions end within the pool. -/
theorem HoldsRegions.catalogEnd_le (hsize : catalogSize ≤ poolSize) :
    catalogEnd base memory ≤ base + poolSize := by
  refine maxEnd_le (by rw [hholds.dataStart_eq]; omega) fun slot entry hmem hmarked ↦ ?_
  exact (table.within (hholds.region_of_marked hquiet hmem hmarked)).le_high

/-- The next offset is the least aligned one past all regions. -/
theorem HoldsRegions.isLeast_nextOffset (hfits : base + poolSize + 63 < 2 ^ 64)
    (hsize : catalogSize ≤ poolSize) : IsLeast table.past (nextOffset base memory) := by
  have hexact : catalogEnd base memory + 63 < 2 ^ 64 := by
    have hend := hholds.catalogEnd_le hquiet hsize
    omega
  refine ⟨⟨dvd_alignUp _, ?_, fun name region hregion ↦ ?_⟩, fun offset hpast ↦ ?_⟩
  · rw [← hholds.dataStart_eq]
    exact dataStart_le_nextOffset hexact
  · obtain ⟨hslot, hat⟩ := hholds.regionAt_of_table hregion
    obtain ⟨hactive, hhandle⟩ := regionAt_eq_some_iff.mp hat
    have hhigh := (table.within hregion).le_high
    rw [← hhandle] at hhigh ⊢
    exact end_le_nextOffset hexact hslot (Or.inl hactive) (Nat.lt_of_le_of_lt hhigh (by omega))
  · obtain ⟨haligned, hlow, hends⟩ := hpast
    refine alignUp_le_of_dvd hexact haligned
      (maxEnd_le (by rwa [hholds.dataStart_eq]) fun slot entry hmem hmarked ↦ ?_)
    exact hends _ _ (hholds.region_of_marked hquiet hmem hmarked)

/-- An unused slot is free. -/
theorem HoldsRegions.state_of_unused (hunused : slot ∈ table.unused) :
    (CatalogEntry.ofMemory memory base slot).state = .free := by
  have hnone := hquiet slot hunused.1
  cases hstate : (CatalogEntry.ofMemory memory base slot).state with
  | free => rfl
  | active =>
    have hregion := hholds.region_eq_some (mem_activeRegions_of_regionAt hunused.1
      (regionAt_eq_some_iff.mpr ⟨hstate, rfl⟩))
    exact absurd rfl (hunused.2 _ _ hregion)
  | allocating => exact absurd (Or.inl hstate) hnone
  | freeing => exact absurd (Or.inr hstate) hnone

/-- The first free slot is the least unused one. -/
theorem HoldsRegions.isLeast_unused (hslot : slot < maxRegions)
    (hfree : (CatalogEntry.ofMemory memory base slot).state = .free)
    (hfirst : ∀ other < slot, (CatalogEntry.ofMemory memory base other).state ≠ .free) :
    IsLeast table.unused slot :=
  ⟨hholds.unused_of_ne_active hslot (by rw [hfree]; decide), fun other hother ↦
    Nat.le_of_not_lt fun hlt ↦ hfirst other hlt (hholds.state_of_unused hquiet hother)⟩

/-- In a full catalog no slot is unused. -/
theorem HoldsRegions.unused_eq_empty
    (hfull : ∀ slot < maxRegions, (CatalogEntry.ofMemory memory base slot).state ≠ .free) :
    table.unused = ∅ :=
  Set.eq_empty_of_forall_notMem fun slot hunused ↦
    hfull slot hunused.1 (hholds.state_of_unused hquiet hunused)

end Placing

/-! ### Serving -/

/-- A `create_region` from a table. -/
theorem HoldsRegions.serve_createRegion (hquiet : QuietCatalog base memory)
    (hsize : catalogSize ≤ poolSize) {name : String} {size : UInt64}
    (hclear : base + poolSize + 63 + size.toNat < 2 ^ 64)
    {result : Except AllocError RegionHandle}
    (houtcome : CreateOutcome base poolSize name size.toNat memory result later) :
    ∃ next, table.Serves (.createRegion name size) (.created result) next ∧
      HoldsRegions base poolSize next later ∧ QuietCatalog base later := by
  have hplace := hholds.isLeast_nextOffset hquiet (by omega) hsize
  have hend := hholds.catalogEnd_le hquiet hsize
  have hnext := alignUp_le (catalogEnd base memory)
  have hsum : nextOffset base memory + size.toNat < 2 ^ 64 := by
    unfold nextOffset
    omega
  have hpool : poolEnd base poolSize = base + poolSize := Nat.mod_eq_of_lt (by omega)
  cases houtcome with
  | nameTooLong hname => exact ⟨table, .nameTooLong hname, hholds, hquiet⟩
  | nameExists region hregion hsame hname =>
    have hentered := hholds.region_eq_some hregion
    rw [hsame] at hentered
    exact ⟨table, .nameExists hname hentered, hholds, hquiet⟩
  | catalogFull hfull hname hfresh =>
    exact ⟨table, .catalogFull hname (hholds.region_eq_none hfresh)
      (hholds.unused_eq_empty hquiet hfull), hholds, hquiet⟩
  | outOfSpace hspace hname hfresh hslot =>
    obtain ⟨slot, hslot, hfree⟩ := hslot
    have hunused := hholds.unused_of_ne_active hslot (by rw [hfree]; decide)
    rw [hpool, Nat.mod_eq_of_lt hsum] at hspace
    rw [hpool]
    exact ⟨table, .outOfSpace hname (hholds.region_eq_none hfresh) ⟨slot, hunused⟩ hplace hspace,
      hholds, hquiet⟩
  | created slot hname hfresh hslot hfree hspace hfirst =>
    rw [hpool, Nat.mod_eq_of_lt hsum] at hspace
    have hunused := hholds.region_eq_none hfresh
    obtain ⟨next, hregion, hlater⟩ :=
      hholds.create hname (by omega) hunused hslot hfree (by omega) hspace
    have hentry : (newEntry name size.toNat (nextOffset base memory)).Fits :=
      newEntry_fits hname (by omega) (by omega)
    exact ⟨next, .created hname hunused (hholds.isLeast_unused hquiet hslot hfree hfirst) hplace
      hregion, hlater, hquiet.create hentry⟩

/-- A `free_region` from a table. -/
theorem HoldsRegions.serve_freeRegion (hquiet : QuietCatalog base memory) {name : String}
    {result : Except AllocError Unit} (houtcome : FreeOutcome base name memory result later) :
    ∃ next, table.Serves (.freeRegion name) (.freed result) next ∧
      HoldsRegions base poolSize next later ∧ QuietCatalog base later := by
  cases houtcome with
  | notFound hnone => exact ⟨table, .notFound (hholds.region_eq_none hnone), hholds, hquiet⟩
  | freed region hregion hname =>
    have hentered := hholds.region_eq_some hregion
    rw [hname] at hentered
    exact ⟨table.strike name, .freed hentered, hholds.free hentered, hquiet.free⟩

/-! ### Recovering -/

/-- The slots that recovery frees are unused. -/
theorem HoldsRegions.unused_of_mem_transitionSlots (hslot : slot ∈ transitionSlots base 0 memory) :
    slot ∈ table.unused := by
  obtain ⟨⟨-, hslot⟩, htransition⟩ := mem_transitionSlots.mp hslot
  exact hholds.unused_of_ne_active hslot fun hactive ↦
    not_inTransition_of_active hactive htransition

/-- Recovery leaves the regions. -/
theorem HoldsRegions.of_recovered (hrecovered : CatalogRecovered base 0 memory later) :
    HoldsRegions base poolSize table later := by
  have hheader : ∀ field, field + 8 ≤ catalogHeaderSize →
      loadWord later (base + field) 8 = loadWord memory (base + field) 8 := fun field hfield ↦
    loadWord_congr (load_congr fun i hi ↦ hrecovered.outside _ (by omega))
  refine ⟨?_, ?_, ?_⟩
  · rw [hheader catHdrMagic (by decide)]
    exact hholds.magic
  · rw [dataStart, hheader catHdrDataStart (by decide)]
    exact hholds.dataStart_eq
  · rw [hrecovered.activeRegions_eq]
    exact hholds.mem_iff

/-! ### Serving any call -/

/-- A call that runs alone does what its table may do. -/
theorem HoldsRegions.serve {request : AllocRequest}
    (hquiet : request.Updates → QuietCatalog base memory) (hsize : catalogSize ≤ poolSize)
    (hrequest : request ≠ .init)
    (hclear : request.Clear base poolSize) :
    ∃ result given later next, (allocatorMachine base poolSize).Ends (request.call poolSize) memory
        result later ∧ result.answer = some given ∧ table.Serves request given next ∧
      HoldsRegions base poolSize next later ∧
      (request = .recover ∨ QuietCatalog base memory → QuietCatalog base later) ∧
      (QuietCatalog base memory → request = .recover → given = .recovered 0) := by
  cases request with
  | init => exact absurd rfl hrequest
  | openPool =>
    have hopen := openPool_ends base poolSize memory
    rw [hholds.magic, openResult_allocMagic] at hopen
    exact ⟨_, _, _, table, hopen, rfl, .opened, hholds,
      fun hor ↦ hor.resolve_left AllocRequest.noConfusion, fun _ ↦ AllocRequest.noConfusion⟩
  | createRegion name size =>
    obtain ⟨result, later, hends, houtcome⟩ := createRegion_ends base poolSize name size memory
    obtain ⟨next, hserves, hlater, hlaterQuiet⟩ := hholds.serve_createRegion (hquiet trivial) hsize
      hclear houtcome
    exact ⟨_, _, later, next, hends, rfl, hserves, hlater, fun _ ↦ hlaterQuiet,
      fun _ ↦ AllocRequest.noConfusion⟩
  | freeRegion name =>
    obtain ⟨result, later, hends, houtcome⟩ := freeRegion_ends base poolSize name memory
    obtain ⟨next, hserves, hlater, hlaterQuiet⟩ :=
      hholds.serve_freeRegion (hquiet trivial) houtcome
    exact ⟨_, _, later, next, hends, rfl, hserves, hlater, fun _ ↦ hlaterQuiet,
      fun _ ↦ AllocRequest.noConfusion⟩
  | findRegion name =>
    have hfind := findRegion_ends base poolSize name memory
    rw [hholds.lookup_eq] at hfind
    exact ⟨_, _, _, table, hfind, rfl, .found name, hholds,
      fun hor ↦ hor.resolve_left AllocRequest.noConfusion, fun _ ↦ AllocRequest.noConfusion⟩
  | listRegions =>
    have hlist := listRegions_ends base poolSize memory
    exact ⟨_, _, _, table, hlist, rfl,
      .listed hholds.mem_iff (pairwise_slot_activeRegions base memory), hholds,
      fun hor ↦ hor.resolve_left AllocRequest.noConfusion, fun _ ↦ AllocRequest.noConfusion⟩
  | recover =>
    obtain ⟨later, hends, hrecovered⟩ := recoverCatalog_counts base poolSize 0 0 memory
    rw [Nat.zero_add] at hends
    refine ⟨_, _, later, table, hends, rfl,
      .recovered _ fun slot hslot ↦ hholds.unused_of_mem_transitionSlots hslot,
      hholds.of_recovered hrecovered, fun _ slot hslot ↦ hrecovered.not_inTransition hslot,
      fun hquiet _ ↦ ?_⟩
    rw [hquiet.transitionSlots_eq, Finset.card_empty]

end Held

/-! ### Sessions -/

section Catalogued

variable (hfits : base + poolSize < 2 ^ 64) (hsize : catalogSize ≤ poolSize)

include hfits hsize

/-- A call that runs alone answers what the table serves. -/
theorem Catalogued.ends_of_serves (hcat : Catalogued base poolSize table memory)
    {request : AllocRequest} (hrequest : request ≠ .recover)
    (hclear : request.Clear base poolSize) {given : AllocAnswer}
    {next : RegionTable (base + catalogSize) (base + poolSize)}
    (hserves : table.Serves request given next) :
    ∃ call later, (allocatorMachine base poolSize).Ends (request.call poolSize) memory call later ∧
      call.answer = some given ∧ Catalogued base poolSize next later := by
  have hinit : request ≠ .init := by
    rintro rfl
    cases hserves
  obtain ⟨call, answered, later, hends, hanswered, other, -, hlater⟩ :=
    hcat.serve hfits hinit (hcat.exact_of_clear hsize hclear)
  obtain ⟨again, given', reached, next', hagain, hgiven', hserves', hholds, -⟩ :=
    hcat.holds.serve (fun _ ↦ hcat.settled) hsize hinit hclear
  obtain ⟨rfl, rfl⟩ := hends.unique hagain (AllocCall.step_of_answer hanswered)
    (AllocCall.step_of_answer hgiven')
  obtain ⟨rfl, rfl⟩ := hserves.unique hrequest hserves'
  exact ⟨call, later, hends, hgiven',
    hholds.magic, hholds.dataStart_eq, hlater.settled, hholds.mem_iff, hlater.count⟩

/-- Calls one after another answer what the table serves. -/
theorem Catalogued.session_of_serves (hcat : Catalogued base poolSize table memory)
    {requests : List AllocRequest} {answers : List AllocAnswer}
    {next : RegionTable (base + catalogSize) (base + poolSize)}
    (hserves : table.ServesAll requests answers next)
    (hrequests : ∀ request ∈ requests, request ≠ .recover ∧ request.Clear base poolSize) :
    ∃ later, (allocatorMachine base poolSize).Session AllocCall.answer requests memory answers
      later ∧ Catalogued base poolSize next later := by
  induction hserves generalizing memory with
  | nil => exact ⟨memory, .nil memory, hcat⟩
  | cons hserves _ ih =>
    obtain ⟨hrequest, hclear⟩ := hrequests _ List.mem_cons_self
    obtain ⟨call, between, hends, hgiven, hbetween⟩ :=
      hcat.ends_of_serves hfits hsize hrequest hclear hserves
    obtain ⟨later, hsession, hlater⟩ := ih hbetween fun request hmem ↦
      hrequests request (List.mem_cons_of_mem _ hmem)
    exact ⟨later, .cons hends hgiven hsession, hlater⟩

end Catalogued

end Fence
