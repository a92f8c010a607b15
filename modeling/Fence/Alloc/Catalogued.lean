import Fence.Abstract.RegionTable
import Fence.Alloc.Updates
import Fence.Library.Session

/-!
# The catalog holds the table

`Catalogued` relates a memory to the table of regions it holds: the active entries are the regions
of the table, their number is the count in the header, and no entry is in transition. Every call
that runs alone answers as the table says and leaves a memory that holds the next table
(`Catalogued.serve`), as long as the two additions of `create_region` that its arguments reach do
not wrap (`AllocRequest.Exact`).
-/

set_option autoImplicit false
set_option relaxedAutoImplicit false

namespace Fence

open ByteMemory Interleaving

variable {base poolSize slot : ℕ} {memory : Memory}

/-! ### One region more -/

/-- Two catalogs differ in one region, which the first one does not have. -/
structure OneMore (base slot : ℕ) (new : RegionHandle) (first second : Memory) : Prop where
  slot_lt : slot < maxRegions
  first_eq : regionAt base first slot = none
  second_eq : regionAt base second slot = some new
  others : ∀ other, other ≠ slot → regionAt base second other = regionAt base first other

section OneMore

variable {new : RegionHandle} {first second : Memory}

theorem OneMore.mem_iff (hmore : OneMore base slot new first second) (region : RegionHandle) :
    region ∈ activeRegions base second ↔ region = new ∨ region ∈ activeRegions base first := by
  rw [mem_activeRegions, mem_activeRegions]
  by_cases hslot : region.slot = slot
  · rw [hslot, hmore.second_eq, hmore.first_eq]
    constructor
    · rintro ⟨-, hregion⟩
      exact Or.inl (Option.some.inj hregion).symm
    · rintro (rfl | ⟨-, hregion⟩)
      · exact ⟨hmore.slot_lt, rfl⟩
      · cases hregion
  · rw [hmore.others _ hslot]
    refine ⟨Or.inr, fun hregion ↦ hregion.resolve_left ?_⟩
    rintro rfl
    exact hslot (slot_of_regionAt hmore.second_eq)

/-- A list of slots has one region more when one slot of it has. -/
theorem length_filterMap_oneMore {old later : ℕ → Option RegionHandle} {bound : ℕ}
    (hslot : slot < bound) (hold : old slot = none) (hlater : later slot = some new)
    (hothers : ∀ other, other ≠ slot → later other = old other) :
    ((List.range bound).filterMap later).length =
      ((List.range bound).filterMap old).length + 1 := by
  induction bound with
  | zero => cases hslot
  | succ bound ih =>
    rw [List.range_succ, List.filterMap_append, List.filterMap_append, List.length_append,
      List.length_append]
    by_cases hlast : slot = bound
    · subst hlast
      have hsame : (List.range slot).filterMap later = (List.range slot).filterMap old :=
        List.filterMap_congr fun other hother ↦
          hothers other (Nat.ne_of_lt (List.mem_range.mp hother))
      rw [hsame, List.filterMap_cons_some hlater, List.filterMap_cons_none hold]
      rfl
    · have hhere : later bound = old bound := hothers bound (Ne.symm hlast)
      have htail : ([bound].filterMap later).length = ([bound].filterMap old).length := by
        rw [List.filterMap_cons, List.filterMap_cons, hhere]
        rfl
      rw [ih (by omega), htail]
      omega

theorem OneMore.length_eq (hmore : OneMore base slot new first second) :
    (activeRegions base second).length = (activeRegions base first).length + 1 :=
  length_filterMap_oneMore hmore.slot_lt hmore.first_eq hmore.second_eq hmore.others

end OneMore

theorem length_activeRegions_le (base : ℕ) (memory : Memory) :
    (activeRegions base memory).length ≤ maxRegions :=
  Nat.le_trans (List.length_filterMap_le _ _) (Nat.le_of_eq List.length_range)

theorem newEntry_fits {name : String} {size regionOffset : ℕ}
    (hname : (asBytes name).length ≤ maxNameLen) (hoffset : regionOffset < 2 ^ 64)
    (hsize : size < 2 ^ 64) : (newEntry name size regionOffset).Fits :=
  ⟨hname, hoffset, hsize, Nat.two_pow_pos 64⟩

/-- Creating a region adds it. -/
theorem oneMore_createdMemory {name : String} {size regionOffset : ℕ} (hslot : slot < maxRegions)
    (hfree : (CatalogEntry.ofMemory memory base slot).state = .free)
    (hfits : (newEntry name size regionOffset).Fits) :
    OneMore base slot ⟨slot, name, regionOffset, size⟩ memory
      (createdMemory base slot (newEntry name size regionOffset) memory) where
  slot_lt := hslot
  first_eq := regionAt_eq_none_iff.mpr (by rw [hfree]; decide)
  second_eq := by
    refine regionAt_eq_some_iff.mpr ?_
    rw [ofMemory_createdMemory_self hfits]
    exact ⟨rfl, rfl⟩
  others := fun other hother ↦ by
    rw [regionAt, regionAt, ofMemory_createdMemory_ne hother]

/-- Freeing a region removes it. -/
theorem oneMore_freedMemory {region : RegionHandle} (hslot : slot < maxRegions)
    (hregion : regionAt base memory slot = some region) :
    OneMore base slot region (freedMemory base slot memory) memory where
  slot_lt := hslot
  first_eq := by
    refine regionAt_eq_none_iff.mpr ?_
    rw [ofMemory_freedMemory, ofMemory_releasedMemory_self]
    simp
  second_eq := hregion
  others := fun other hother ↦ by
    rw [regionAt, regionAt, ofMemory_freedMemory, ofMemory_releasedMemory_ne hother]

/-! ### The relation -/

/-- The active entries of a memory are the regions of a table, whatever its header counts and
whatever else is in transition. -/
structure HoldsRegions (base poolSize : ℕ)
    (table : RegionTable (base + catalogSize) (base + poolSize)) (memory : Memory) : Prop where
  magic : loadWord memory (base + catHdrMagic) 8 = allocMagic
  dataStart_eq : dataStart base memory = base + catalogSize
  mem_iff : ∀ region, region ∈ activeRegions base memory ↔
    table.region region.name = some region

section HoldsRegions

variable {table : RegionTable (base + catalogSize) (base + poolSize)}
  (hholds : HoldsRegions base poolSize table memory)

include hholds

/-- The regions of a memory are those of the table. -/
theorem HoldsRegions.regionAt_of_table {name : String} {region : RegionHandle}
    (hregion : table.region name = some region) : region.slot < maxRegions ∧
      regionAt base memory region.slot = some region :=
  mem_activeRegions.mp ((hholds.mem_iff region).mpr (table.region_name hregion))

/-- A region created in a free slot, past the ends of all others. -/
theorem HoldsRegions.create {name : String} {size : ℕ}
    (hname : (asBytes name).length ≤ maxNameLen) (hfits : base + poolSize < 2 ^ 64)
    (hfresh : table.region name = none) (hslot : slot < maxRegions)
    (hfree : (CatalogEntry.ofMemory memory base slot).state = .free)
    (hexact : catalogEnd base memory + 63 < 2 ^ 64)
    (hroom : nextOffset base memory + size ≤ base + poolSize) :
    ∃ next : RegionTable (base + catalogSize) (base + poolSize),
      next.region = Function.update table.region name
        (some ⟨slot, name, nextOffset base memory, size⟩) ∧
      HoldsRegions base poolSize next
        (createdMemory base slot (newEntry name size (nextOffset base memory)) memory) := by
  have hmore : OneMore base slot ⟨slot, name, nextOffset base memory, size⟩ memory
      (createdMemory base slot (newEntry name size (nextOffset base memory)) memory) :=
    oneMore_createdMemory hslot hfree (newEntry_fits hname (by omega) (by omega))
  have hpast : ∀ {other : String} {entered : RegionHandle}, table.region other = some entered →
      entered.offset + entered.size ≤ nextOffset base memory := by
    intro other entered hentered
    obtain ⟨hentry, hregion⟩ := hholds.regionAt_of_table hentered
    obtain ⟨hactive, hhandle⟩ := regionAt_eq_some_iff.mp hregion
    have hhigh := (table.within hentered).le_high
    have hend := end_le_nextOffset hexact hentry (Or.inl hactive) (by
      rw [← hhandle] at hhigh
      exact Nat.lt_of_le_of_lt hhigh hfits)
    rw [← hhandle]
    exact hend
  have hlow := dataStart_le_nextOffset hexact
  rw [hholds.dataStart_eq] at hlow
  refine ⟨table.enter ⟨slot, name, nextOffset base memory, size⟩ ⟨dvd_alignUp _, hlow, hroom⟩ ?_ ?_,
    rfl, ?_, ?_, ?_⟩
  · intro other entered hentered hsame
    obtain ⟨-, hregion⟩ := hholds.regionAt_of_table hentered
    obtain ⟨hactive, -⟩ := regionAt_eq_some_iff.mp hregion
    rw [hsame, hfree] at hactive
    cases hactive
  · exact fun hentered ↦ Or.inl (hpast hentered)
  · rw [createdMemory, magic_storeCount,
      loadWord_activatedMemory (by decide : catHdrMagic + 8 ≤ catalogHeaderSize)]
    exact hholds.magic
  · rw [dataStart_createdMemory, hholds.dataStart_eq]
  · intro region
    rw [hmore.mem_iff region, hholds.mem_iff region]
    show _ ↔ Function.update table.region name _ region.name = some region
    by_cases hsame : region.name = name
    · rw [hsame, Function.update_self, Option.some.injEq, hfresh]
      exact ⟨fun hregion ↦ hregion.elim Eq.symm (fun hnone ↦ by cases hnone),
        fun hregion ↦ Or.inl hregion.symm⟩
    · rw [Function.update_of_ne hsame]
      refine ⟨fun hregion ↦ hregion.resolve_left ?_, Or.inr⟩
      rintro rfl
      exact hsame rfl

/-- A region freed by its name. -/
theorem HoldsRegions.free {name : String} {region : RegionHandle}
    (hregion : table.region name = some region) :
    HoldsRegions base poolSize (table.strike name) (freedMemory base region.slot memory) := by
  obtain ⟨hslot, hat⟩ := hholds.regionAt_of_table hregion
  have hmore := oneMore_freedMemory hslot hat
  refine ⟨?_, ?_, ?_⟩
  · rw [freedMemory, magic_countedOff,
      loadWord_releasedMemory (by decide : catHdrMagic + 8 ≤ catalogHeaderSize)]
    exact hholds.magic
  · rw [dataStart_freedMemory, hholds.dataStart_eq]
  · intro other
    have hiff := hmore.mem_iff other
    rw [hholds.mem_iff other] at hiff
    show _ ↔ Function.update table.region name none other.name = some other
    by_cases hsame : other.name = name
    · rw [hsame, Function.update_self]
      refine ⟨fun hmem ↦ ?_, fun hnone ↦ by cases hnone⟩
      have hother := hiff.mpr (Or.inr hmem)
      rw [hsame, hregion, Option.some.injEq] at hother
      obtain ⟨-, hslotOther⟩ := mem_activeRegions.mp hmem
      rw [← hother, hmore.first_eq] at hslotOther
      cases hslotOther
    · rw [Function.update_of_ne hsame, hiff]
      refine ⟨Or.inr, fun hother ↦ hother.resolve_left ?_⟩
      rintro rfl
      exact hsame (table.name_eq hregion)

end HoldsRegions

/-- No entry is in transition. -/
def QuietCatalog (base : ℕ) (memory : Memory) : Prop :=
  ∀ slot < maxRegions, ¬ (CatalogEntry.ofMemory memory base slot).state.InTransition

/-- A recovery has nothing to free. -/
theorem QuietCatalog.transitionSlots_eq (hquiet : QuietCatalog base memory) :
    transitionSlots base 0 memory = ∅ :=
  Finset.filter_eq_empty_iff.mpr fun slot hslot ↦ hquiet slot (Finset.mem_Ico.mp hslot).2

theorem QuietCatalog.create {entry : CatalogEntry} (hquiet : QuietCatalog base memory)
    (hfits : entry.Fits) : QuietCatalog base (createdMemory base slot entry memory) := by
  intro other hother
  by_cases hsame : other = slot
  · rw [hsame, ofMemory_createdMemory_self hfits]
    exact not_inTransition_of_active rfl
  · rw [ofMemory_createdMemory_ne hsame]
    exact hquiet other hother

theorem QuietCatalog.free (hquiet : QuietCatalog base memory) :
    QuietCatalog base (freedMemory base slot memory) := by
  intro other hother
  rw [ofMemory_freedMemory]
  by_cases hsame : other = slot
  · subst hsame
    rw [ofMemory_releasedMemory_self]
    exact (by decide : ¬ RegionState.free.InTransition)
  · rw [ofMemory_releasedMemory_ne hsame]
    exact hquiet other hother

/-- A memory holds a table of regions. -/
structure Catalogued (base poolSize : ℕ)
    (table : RegionTable (base + catalogSize) (base + poolSize)) (memory : Memory) : Prop where
  magic : loadWord memory (base + catHdrMagic) 8 = allocMagic
  dataStart_eq : dataStart base memory = base + catalogSize
  settled : ∀ slot < maxRegions, ¬ (CatalogEntry.ofMemory memory base slot).state.InTransition
  mem_iff : ∀ region, region ∈ activeRegions base memory ↔
    table.region region.name = some region
  count : regionCount base memory = (activeRegions base memory).length

variable {table : RegionTable (base + catalogSize) (base + poolSize)}

/-- An empty catalog holds the empty table. -/
theorem EmptyCatalog.catalogued (hempty : EmptyCatalog base memory)
    (hfits : base + poolSize < 2 ^ 64) (hsize : catalogSize ≤ poolSize) :
    Catalogued base poolSize (.empty _ _) memory := by
  refine ⟨hempty.magic, ?_, ?_, ?_, ?_⟩
  · rw [hempty.dataStart_eq]
    exact Nat.mod_eq_of_lt (by omega)
  · intro slot hslot
    rw [hempty.state_eq hslot]
    decide
  · intro region
    rw [hempty.activeRegions_eq]
    exact ⟨fun hmem ↦ absurd hmem List.not_mem_nil, fun hregion ↦ nomatch hregion⟩
  · rw [hempty.regionCount_eq, hempty.activeRegions_eq]
    rfl

section Catalogued

variable (hcat : Catalogued base poolSize table memory)

include hcat

theorem Catalogued.holds : HoldsRegions base poolSize table memory :=
  ⟨hcat.magic, hcat.dataStart_eq, hcat.mem_iff⟩

/-- The regions of a memory are those of the table. -/
theorem Catalogued.regionAt_of_table {name : String} {region : RegionHandle}
    (hregion : table.region name = some region) : region.slot < maxRegions ∧
      regionAt base memory region.slot = some region :=
  hcat.holds.regionAt_of_table hregion

/-- `find_region` finds the region of the table. -/
theorem Catalogued.lookup_eq (name : String) : lookup base memory name =
    match table.region name with
    | some region => .ok region
    | none => .error (.notFound name) := by
  rcases result_findRegion base memory name with
    ⟨region, hregion, rfl, hresult⟩ | ⟨hnone, hresult⟩
  · rw [lookup, hresult, (hcat.mem_iff region).mp hregion]
  · cases hregion : table.region name with
    | none => rw [lookup, hresult]
    | some region =>
      have hmem := (hcat.mem_iff region).mpr (table.region_name hregion)
      exact absurd (table.name_eq hregion) (hnone region hmem)

/-- A region created in a free slot, past the ends of all others. -/
theorem Catalogued.create {name : String} {size : ℕ} (hname : (asBytes name).length ≤ maxNameLen)
    (hfits : base + poolSize < 2 ^ 64) (hfresh : table.region name = none)
    (hslot : slot < maxRegions) (hfree : (CatalogEntry.ofMemory memory base slot).state = .free)
    (hexact : catalogEnd base memory + 63 < 2 ^ 64)
    (hroom : nextOffset base memory + size ≤ base + poolSize) :
    ∃ next : RegionTable (base + catalogSize) (base + poolSize),
      next.region = Function.update table.region name
        (some ⟨slot, name, nextOffset base memory, size⟩) ∧
      Catalogued base poolSize next
        (createdMemory base slot (newEntry name size (nextOffset base memory)) memory) := by
  have hentry : (newEntry name size (nextOffset base memory)).Fits :=
    newEntry_fits hname (by omega) (by omega)
  have hmore := oneMore_createdMemory hslot hfree hentry
  have hquiet : QuietCatalog base memory := hcat.settled
  obtain ⟨next, hnext, hholds⟩ := hcat.holds.create hname hfits hfresh hslot hfree hexact hroom
  refine ⟨next, hnext, hholds.magic, hholds.dataStart_eq, hquiet.create hentry, hholds.mem_iff, ?_⟩
  have hlength := length_activeRegions_le base memory
  rw [regionCount_createdMemory, hmore.length_eq, hcat.count]
  exact Nat.mod_eq_of_lt (Nat.lt_of_le_of_lt (Nat.succ_le_succ hlength) (by decide))

/-- A region freed by its name. -/
theorem Catalogued.free {name : String} {region : RegionHandle}
    (hregion : table.region name = some region) :
    Catalogued base poolSize (table.strike name) (freedMemory base region.slot memory) := by
  obtain ⟨hslot, hat⟩ := hcat.regionAt_of_table hregion
  have hmore := oneMore_freedMemory hslot hat
  have hquiet : QuietCatalog base memory := hcat.settled
  have hholds := hcat.holds.free hregion
  refine ⟨hholds.magic, hholds.dataStart_eq, hquiet.free, hholds.mem_iff, ?_⟩
  rw [regionCount_freedMemory, hcat.count, hmore.length_eq, Nat.add_sub_cancel]

end Catalogued

/-! ### Serving a call -/

/-- The additions of `create_region` that its arguments and the regions reach do not wrap, where the
call gets to them. The sum of `base` and the pool size, the ends of the regions and the count never
do. -/
def AllocRequest.Exact (base : ℕ) : AllocRequest → Memory → Prop
  | .createRegion name size, memory =>
    (asBytes name).length ≤ maxNameLen →
    (∀ region ∈ activeRegions base memory, region.name ≠ name) →
      (∃ slot < maxRegions, (CatalogEntry.ofMemory memory base slot).state = .free) →
        catalogEnd base memory + 63 < 2 ^ 64 ∧ nextOffset base memory + size.toNat < 2 ^ 64
  | _, _ => True

/-- An entry that `next_free_offset` looks at ends within the pool. -/
theorem Catalogued.marked_le (hcat : Catalogued base poolSize table memory) {slot : ℕ}
    {entry : CatalogEntry} (hmem : (slot, entry) ∈ entriesFrom base memory 0)
    (hmarked : entry.Marked) : entry.offset + entry.size ≤ base + poolSize := by
  obtain ⟨hslot, rfl⟩ := mem_entriesFrom_zero.mp hmem
  have hactive : (CatalogEntry.ofMemory memory base slot).state = .active :=
    hmarked.resolve_right fun hallocating ↦ hcat.settled slot hslot (Or.inl hallocating)
  have hregion := mem_activeRegions_of_regionAt hslot (regionAt_eq_some_iff.mpr ⟨hactive, rfl⟩)
  exact (table.within ((hcat.mem_iff _).mp hregion)).le_high

/-- The regions end within the pool. -/
theorem Catalogued.catalogEnd_le (hcat : Catalogued base poolSize table memory)
    (hsize : catalogSize ≤ poolSize) : catalogEnd base memory ≤ base + poolSize := by
  refine maxEnd_le (by rw [hcat.dataStart_eq]; omega) fun slot entry hmem hmarked ↦ ?_
  exact hcat.marked_le hmem hmarked

/-- Sizes that keep clear of the end of the address space are added exactly. -/
theorem Catalogued.sums_lt (hcat : Catalogued base poolSize table memory)
    (hsize : catalogSize ≤ poolSize) {size : UInt64}
    (hclear : base + poolSize + 63 + size.toNat < 2 ^ 64) :
    catalogEnd base memory + 63 < 2 ^ 64 ∧ nextOffset base memory + size.toNat < 2 ^ 64 := by
  have hend := hcat.catalogEnd_le hsize
  have hnext := alignUp_le (catalogEnd base memory)
  unfold nextOffset
  omega

/-- A request whose size keeps clear of the end of the address space. -/
def AllocRequest.Clear (base poolSize : ℕ) : AllocRequest → Prop
  | .createRegion _ size => base + poolSize + 63 + size.toNat < 2 ^ 64
  | _ => True

instance (request : AllocRequest) : Decidable (request.Clear base poolSize) :=
  match request with
  | .createRegion _ _ => inferInstanceAs (Decidable (_ < _))
  | .init | .openPool | .freeRegion _ | .findRegion _ | .listRegions | .recover =>
    inferInstanceAs (Decidable True)

theorem Catalogued.exact_of_clear (hcat : Catalogued base poolSize table memory)
    (hsize : catalogSize ≤ poolSize) {request : AllocRequest}
    (hclear : request.Clear base poolSize) : request.Exact base memory := by
  cases request with
  | createRegion name size => exact fun _ _ _ ↦ hcat.sums_lt hsize hclear
  | _ => exact trivial

/-- A memory that holds the table an answer leads to. -/
def Served (base poolSize : ℕ) (table : RegionTable (base + catalogSize) (base + poolSize))
    (request : AllocRequest) (given : AllocAnswer) (later : Memory) : Prop :=
  ∃ next : RegionTable (base + catalogSize) (base + poolSize),
    next.region = AllocAnswer.grant table.region (request, given) ∧
      Catalogued base poolSize next later

/-- A `create_region` from a table. -/
theorem Catalogued.served_createRegion (hcat : Catalogued base poolSize table memory)
    (hfits : base + poolSize < 2 ^ 64) {name : String} {size : UInt64}
    (hexact : (AllocRequest.createRegion name size).Exact base memory)
    {result : Except AllocError RegionHandle} {later : Memory}
    (houtcome : CreateOutcome base poolSize name size.toNat memory result later) :
    Served base poolSize table (.createRegion name size) (.created result) later := by
  cases houtcome with
  | nameTooLong hname => exact ⟨table, rfl, hcat⟩
  | nameExists region hregion hname => exact ⟨table, rfl, hcat⟩
  | catalogFull hfull => exact ⟨table, rfl, hcat⟩
  | outOfSpace hspace => exact ⟨table, rfl, hcat⟩
  | created slot hname hfresh hslot hfree hspace =>
    obtain ⟨hend, hsum⟩ := hexact hname hfresh ⟨slot, hslot, hfree⟩
    rw [poolEnd, Nat.mod_eq_of_lt hfits, Nat.mod_eq_of_lt hsum] at hspace
    have hunused : table.region name = none := by
      refine Option.eq_none_iff_forall_not_mem.mpr fun region hregion ↦ ?_
      exact hfresh region ((hcat.mem_iff region).mpr (table.region_name hregion))
        (table.name_eq hregion)
    exact hcat.create hname hfits hunused hslot hfree hend hspace

/-- A `free_region` from a table. -/
theorem Catalogued.served_freeRegion (hcat : Catalogued base poolSize table memory) {name : String}
    {result : Except AllocError Unit} {later : Memory}
    (houtcome : FreeOutcome base name memory result later) :
    Served base poolSize table (.freeRegion name) (.freed result) later := by
  cases houtcome with
  | notFound hnone => exact ⟨table, rfl, hcat⟩
  | freed region hregion hname =>
    have hentered := (hcat.mem_iff region).mp hregion
    rw [hname] at hentered
    exact ⟨table.strike name, rfl, hcat.free hentered⟩

/-- A call that runs alone answers as the table says and leaves a memory that holds the next one. -/
theorem Catalogued.serve (hcat : Catalogued base poolSize table memory)
    (hfits : base + poolSize < 2 ^ 64) {request : AllocRequest} (hrequest : request ≠ .init)
    (hexact : request.Exact base memory) :
    ∃ call given later, (allocatorMachine base poolSize).Ends (request.call poolSize) memory call
        later ∧ call.answer = some given ∧ Served base poolSize table request given later := by
  cases request with
  | init => exact absurd rfl hrequest
  | openPool => exact ⟨_, _, _, openPool_ends base poolSize memory, rfl, table, rfl, hcat⟩
  | createRegion name size =>
    obtain ⟨result, later, hends, houtcome⟩ := createRegion_ends base poolSize name size memory
    exact ⟨_, _, later, hends, rfl, hcat.served_createRegion hfits hexact houtcome⟩
  | freeRegion name =>
    obtain ⟨result, later, hends, houtcome⟩ := freeRegion_ends base poolSize name memory
    exact ⟨_, _, later, hends, rfl, hcat.served_freeRegion houtcome⟩
  | findRegion name =>
    exact ⟨_, _, _, findRegion_ends base poolSize name memory, rfl, table, rfl, hcat⟩
  | listRegions =>
    exact ⟨_, _, _, listRegions_ends base poolSize memory, rfl, table, rfl, hcat⟩
  | recover =>
    obtain ⟨count, later, hends, hrecovered⟩ := recoverCatalog_head_ends base poolSize 0 0 memory
    obtain rfl := hrecovered.unchanged fun slot hslot _ ↦ hcat.settled slot hslot
    exact ⟨_, _, _, hends, rfl, table, rfl, hcat⟩

end Fence
