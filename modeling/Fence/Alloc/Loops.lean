import Fence.Alloc.Entries

/-!
# The loops over the entries

A loop over the entries that runs alone returns what its visitor makes of the list of entries
(`EntryVisitor.head_ends`), and leaves the memory. What that is for the four loops of the allocator
is read off the list: the active regions for `list_regions`, one of them with the name for
`find_region`, the first free slot for `find_free_slot`, and an aligned offset past the ends of all
regions for `next_free_offset`.
-/

set_option autoImplicit false
set_option relaxedAutoImplicit false

namespace Fence

open ByteMemory Interleaving

variable {base : ℕ} {memory : Memory}

/-! ### Loads -/

theorem Catalog.isLoad_readEntry (base index : ℕ) (point : ReadEntryPoint) :
    (Catalog.readEntry base index point).isLoad = true := by
  cases point <;> rfl

theorem EntryVisitor.isLoad_next {Gathered Result : Type} (visitor : EntryVisitor Gathered Result)
    (base : ℕ) (loop : EntryLoop Gathered) : (visitor.next base loop).isLoad = true := by
  rw [EntryVisitor.next, BackendCall.isLoad_map]
  exact Catalog.isLoad_readEntry base loop.index loop.point

/-- A loop over the entries inside another routine leaves the memory alone. -/
theorem EntryVisitor.exec_next_map {Gathered Result Next : Type}
    (visitor : EntryVisitor Gathered Result) (base : ℕ) (loop : EntryLoop Gathered)
    (next : Task (EntryLoop Gathered) Result → Next) (memory : Memory) :
    ((visitor.next base loop).map next).exec memory =
      (next ((visitor.next base loop).exec memory).1, memory) := by
  rw [BackendCall.exec_map, BackendCall.exec_of_isLoad (visitor.isLoad_next base loop)]

/-! ### Loops that run alone -/

/-- The entries from one on, with their slots. -/
def entriesFrom (base : ℕ) (memory : Memory) (index : ℕ) : List (ℕ × CatalogEntry) :=
  (List.range' index (maxRegions - index)).map fun slot ↦
    (slot, CatalogEntry.ofMemory memory base slot)

theorem entriesFrom_of_le {index : ℕ} (hindex : maxRegions ≤ index) :
    entriesFrom base memory index = [] := by
  rw [entriesFrom, Nat.sub_eq_zero_of_le hindex]
  rfl

theorem entriesFrom_of_lt {index : ℕ} (hindex : index < maxRegions) :
    entriesFrom base memory index =
      (index, CatalogEntry.ofMemory memory base index) :: entriesFrom base memory (index + 1) := by
  have hcount : maxRegions - index = (maxRegions - (index + 1)) + 1 := by omega
  rw [entriesFrom, hcount, List.range'_succ]
  rfl

/-- The slots of the entries are those of the catalog. -/
theorem mem_entriesFrom_zero {slot : ℕ} {entry : CatalogEntry} :
    (slot, entry) ∈ entriesFrom base memory 0 ↔
      slot < maxRegions ∧ entry = CatalogEntry.ofMemory memory base slot := by
  simp only [entriesFrom, List.mem_map, List.mem_range'_1, Prod.mk.injEq, Nat.zero_le, true_and,
    Nat.zero_add, Nat.sub_zero]
  constructor
  · rintro ⟨_, hslot, rfl, rfl⟩
    exact ⟨hslot, rfl⟩
  · rintro ⟨hslot, rfl⟩
    exact ⟨slot, hslot, rfl, rfl⟩

section Visitor

variable {Gathered Result : Type}

/-- What a loop returns on a list of entries. -/
def EntryVisitor.result (visitor : EntryVisitor Gathered Result) :
    List (ℕ × CatalogEntry) → Gathered → Result
  | [], gathered => visitor.finish gathered
  | (slot, entry) :: rest, gathered =>
    match visitor.visit slot entry gathered with
    | .inl gathered => visitor.result rest gathered
    | .inr result => result

variable (visitor : EntryVisitor Gathered Result)

/-- The body of a loop reads its entry. -/
theorem EntryVisitor.entry_ends (loop : EntryLoop Gathered) (hpoint : loop.point = .loadState) :
    (routineMachine (visitor.next base)).Ends (.running loop) memory
      (visitor.body loop.index loop.gathered (CatalogEntry.ofMemory memory base loop.index))
      memory := by
  obtain ⟨index, gathered, point⟩ := loop
  obtain rfl : point = .loadState := hpoint
  refine routine_ends_inside (Task.fold (fun point ↦ .running ⟨index, gathered, point⟩)
    (visitor.body index gathered)) ?_ (readEntry_ends base index memory)
  intro point memory
  exact (Catalog.readEntry base index point).exec_map _ memory

/-- A loop that runs alone. -/
theorem EntryVisitor.head_ends (index : ℕ) (gathered : Gathered) :
    (routineMachine (visitor.next base)).Ends (visitor.head index gathered) memory
      (.returned (visitor.result (entriesFrom base memory index) gathered)) memory := by
  induction hleft : maxRegions - index generalizing index gathered with
  | zero =>
    have hindex : maxRegions ≤ index := Nat.sub_eq_zero_iff_le.mp hleft
    rw [EntryVisitor.head, if_neg (Nat.not_lt.mpr hindex), entriesFrom_of_le hindex]
    exact .refl _ _
  | succ left ih =>
    have hindex : index < maxRegions := by omega
    rw [EntryVisitor.head, if_pos hindex, entriesFrom_of_lt hindex, EntryVisitor.result]
    refine (visitor.entry_ends ⟨index, gathered, .loadState⟩ rfl).trans ?_
    rw [EntryVisitor.body]
    cases visitor.visit index (CatalogEntry.ofMemory memory base index) gathered with
    | inl gathered => exact ih (index + 1) gathered (by omega)
    | inr result => exact .refl _ _

end Visitor

/-! ### The active regions -/

/-- The region of a slot, if it is active. -/
def regionAt (base : ℕ) (memory : Memory) (slot : ℕ) : Option RegionHandle :=
  if (CatalogEntry.ofMemory memory base slot).state = .active then
    some ((CatalogEntry.ofMemory memory base slot).handle slot)
  else none

/-- All active regions, in the order of their slots. -/
def activeRegions (base : ℕ) (memory : Memory) : List RegionHandle :=
  (List.range maxRegions).filterMap (regionAt base memory)

theorem regionAt_eq_some_iff {slot : ℕ} {region : RegionHandle} :
    regionAt base memory slot = some region ↔
      (CatalogEntry.ofMemory memory base slot).state = .active ∧
        (CatalogEntry.ofMemory memory base slot).handle slot = region := by
  unfold regionAt
  split_ifs with hactive <;> simp [hactive]

theorem regionAt_eq_none_iff {slot : ℕ} : regionAt base memory slot = none ↔
    (CatalogEntry.ofMemory memory base slot).state ≠ .active := by
  unfold regionAt
  split_ifs with hactive <;> simp [hactive]

theorem slot_of_regionAt {slot : ℕ} {region : RegionHandle}
    (hregion : regionAt base memory slot = some region) : region.slot = slot := by
  obtain ⟨-, rfl⟩ := regionAt_eq_some_iff.mp hregion
  rfl

theorem mem_activeRegions {region : RegionHandle} : region ∈ activeRegions base memory ↔
    region.slot < maxRegions ∧ regionAt base memory region.slot = some region := by
  simp only [activeRegions, List.mem_filterMap, List.mem_range]
  constructor
  · rintro ⟨slot, hslot, hregion⟩
    rw [slot_of_regionAt hregion]
    exact ⟨hslot, hregion⟩
  · rintro ⟨hslot, hregion⟩
    exact ⟨region.slot, hslot, hregion⟩

theorem mem_activeRegions_of_regionAt {slot : ℕ} {region : RegionHandle} (hslot : slot < maxRegions)
    (hregion : regionAt base memory slot = some region) : region ∈ activeRegions base memory := by
  obtain rfl := slot_of_regionAt hregion
  exact mem_activeRegions.mpr ⟨hslot, hregion⟩

/-- The active regions are those of the slots. -/
theorem activeRegions_congr {first second : Memory}
    (hsame : ∀ slot < maxRegions, regionAt base first slot = regionAt base second slot) :
    activeRegions base first = activeRegions base second :=
  List.filterMap_congr fun slot hslot ↦ hsame slot (List.mem_range.mp hslot)

/-- The slots of the active regions are in order. -/
theorem pairwise_slot_activeRegions (base : ℕ) (memory : Memory) :
    (activeRegions base memory).Pairwise fun first second ↦ first.slot < second.slot := by
  refine List.pairwise_filterMap.mpr
    (List.pairwise_lt_range.imp fun hlt first hfirst second hsecond ↦ ?_)
  rw [slot_of_regionAt hfirst, slot_of_regionAt hsecond]
  exact hlt

/-! ### What the loops return -/

/-- `list_regions` gathers the active regions. -/
theorem result_listRegions (base : ℕ) (memory : Memory) :
    RegionAllocator.listRegions.result (entriesFrom base memory 0) [] =
      activeRegions base memory := by
  have hgather : ∀ (slots : List ℕ) (regions : List RegionHandle),
      RegionAllocator.listRegions.result (slots.map fun slot ↦
        (slot, CatalogEntry.ofMemory memory base slot)) regions =
      regions ++ slots.filterMap (regionAt base memory) := by
    intro slots
    induction slots with
    | nil => exact fun regions ↦ (List.append_nil regions).symm
    | cons slot rest ih =>
      intro regions
      by_cases hactive : (CatalogEntry.ofMemory memory base slot).state = .active
      · have hregion := regionAt_eq_some_iff.mpr ⟨hactive, rfl⟩
        rw [List.filterMap_cons_some hregion, List.append_cons, ← ih, List.map_cons]
        simp only [EntryVisitor.result, RegionAllocator.listRegions, if_pos hactive]
      · rw [List.filterMap_cons_none (regionAt_eq_none_iff.mpr hactive), ← ih, List.map_cons]
        simp only [EntryVisitor.result, RegionAllocator.listRegions, if_neg hactive]
  have hall := hgather (List.range' 0 maxRegions) []
  rw [List.nil_append] at hall
  rw [entriesFrom, Nat.sub_zero, hall, activeRegions, List.range_eq_range']

/-- `find_region` returns an active region of the name, or there is none. -/
theorem result_findRegion (base : ℕ) (memory : Memory) (name : String) :
    (∃ region ∈ activeRegions base memory, region.name = name ∧
      (RegionAllocator.findRegion name).result (entriesFrom base memory 0) () = .ok region) ∨
    (∀ region ∈ activeRegions base memory, region.name ≠ name) ∧
      (RegionAllocator.findRegion name).result (entriesFrom base memory 0) () =
        .error (.notFound name) := by
  have hfind : ∀ entries : List (ℕ × CatalogEntry),
      (∃ slot entry, (slot, entry) ∈ entries ∧ entry.state = .active ∧ entry.name = name ∧
        (RegionAllocator.findRegion name).result entries () = .ok (entry.handle slot)) ∨
      (∀ slot entry, (slot, entry) ∈ entries → entry.state = .active → entry.name ≠ name) ∧
        (RegionAllocator.findRegion name).result entries () = .error (.notFound name) := by
    intro entries
    induction entries with
    | nil => exact Or.inr ⟨fun _ _ hmem ↦ absurd hmem List.not_mem_nil, rfl⟩
    | cons pair rest ih =>
      obtain ⟨slot, entry⟩ := pair
      by_cases hmatch : entry.state = .active ∧ entry.name = name
      · refine Or.inl ⟨slot, entry, List.mem_cons_self, hmatch.1, hmatch.2, ?_⟩
        simp [EntryVisitor.result, RegionAllocator.findRegion, hmatch]
      · have hnext : (RegionAllocator.findRegion name).result ((slot, entry) :: rest) () =
            (RegionAllocator.findRegion name).result rest () := by
          simp [EntryVisitor.result, RegionAllocator.findRegion, hmatch]
        rw [hnext]
        rcases ih with ⟨other, found, hmem, hfound⟩ | ⟨hnone, herror⟩
        · exact Or.inl ⟨other, found, List.mem_cons_of_mem _ hmem, hfound⟩
        · refine Or.inr ⟨fun other found hmem hactive hname ↦ ?_, herror⟩
          rcases List.mem_cons.mp hmem with hhead | hlater
          · cases hhead
            exact hmatch ⟨hactive, hname⟩
          · exact hnone other found hlater hactive hname
  rcases hfind (entriesFrom base memory 0) with
    ⟨slot, entry, hmem, hactive, hname, hresult⟩ | ⟨hnone, hresult⟩
  · obtain ⟨hslot, rfl⟩ := mem_entriesFrom_zero.mp hmem
    have hregion : regionAt base memory slot =
        some ((CatalogEntry.ofMemory memory base slot).handle slot) :=
      regionAt_eq_some_iff.mpr ⟨hactive, rfl⟩
    exact Or.inl ⟨_, mem_activeRegions_of_regionAt hslot hregion, hname, hresult⟩
  · refine Or.inr ⟨fun region hregion hname ↦ ?_, hresult⟩
    obtain ⟨hslot, hregion⟩ := mem_activeRegions.mp hregion
    obtain ⟨hactive, hhandle⟩ := regionAt_eq_some_iff.mp hregion
    exact hnone _ _ (mem_entriesFrom_zero.mpr ⟨hslot, rfl⟩) hactive
      (by rw [← hname, ← hhandle]; rfl)

/-- From an entry on, `find_free_slot` returns the first free slot, or there is none. -/
theorem result_findFreeSlot_from (base : ℕ) (memory : Memory) (index : ℕ) :
    (∃ slot, index ≤ slot ∧ slot < maxRegions ∧
      (CatalogEntry.ofMemory memory base slot).state = .free ∧
      (∀ other, index ≤ other → other < slot →
        (CatalogEntry.ofMemory memory base other).state ≠ .free) ∧
      RegionAllocator.findFreeSlot.result (entriesFrom base memory index) () = some slot) ∨
    (∀ slot, index ≤ slot → slot < maxRegions →
      (CatalogEntry.ofMemory memory base slot).state ≠ .free) ∧
      RegionAllocator.findFreeSlot.result (entriesFrom base memory index) () = none := by
  induction hleft : maxRegions - index generalizing index with
  | zero =>
    have hindex : maxRegions ≤ index := Nat.sub_eq_zero_iff_le.mp hleft
    rw [entriesFrom_of_le hindex]
    exact Or.inr ⟨fun slot hfrom hslot ↦ absurd hslot (by omega), rfl⟩
  | succ left ih =>
    have hindex : index < maxRegions := by omega
    rw [entriesFrom_of_lt hindex]
    by_cases hfree : (CatalogEntry.ofMemory memory base index).state = .free
    · refine Or.inl ⟨index, Nat.le_refl _, hindex, hfree,
        fun other hfrom hlt ↦ absurd hfrom (Nat.not_le.mpr hlt), ?_⟩
      simp [EntryVisitor.result, RegionAllocator.findFreeSlot, hfree]
    · have hnext : RegionAllocator.findFreeSlot.result
          ((index, CatalogEntry.ofMemory memory base index) ::
            entriesFrom base memory (index + 1)) () =
          RegionAllocator.findFreeSlot.result (entriesFrom base memory (index + 1)) () := by
        simp [EntryVisitor.result, RegionAllocator.findFreeSlot, hfree]
      have htaken : ∀ slot, index ≤ slot → (index + 1 ≤ slot →
          (CatalogEntry.ofMemory memory base slot).state ≠ .free) →
          (CatalogEntry.ofMemory memory base slot).state ≠ .free := by
        intro slot hfrom hlater
        rcases Nat.eq_or_lt_of_le hfrom with rfl | hpast
        · exact hfree
        · exact hlater hpast
      rw [hnext]
      rcases ih (index + 1) (by omega) with
        ⟨slot, hfrom, hslot, hfound, hfirst, hresult⟩ | ⟨hnone, hresult⟩
      · exact Or.inl ⟨slot, Nat.le_of_succ_le hfrom, hslot, hfound, fun other hother hlt ↦
          htaken other hother fun hlater ↦ hfirst other hlater hlt, hresult⟩
      · exact Or.inr ⟨fun slot hfrom hslot ↦
          htaken slot hfrom fun hlater ↦ hnone slot hlater hslot, hresult⟩

/-- `find_free_slot` returns the first free slot, or there is none. -/
theorem result_findFreeSlot (base : ℕ) (memory : Memory) :
    (∃ slot < maxRegions, (CatalogEntry.ofMemory memory base slot).state = .free ∧
      (∀ other < slot, (CatalogEntry.ofMemory memory base other).state ≠ .free) ∧
      RegionAllocator.findFreeSlot.result (entriesFrom base memory 0) () = some slot) ∨
    (∀ slot < maxRegions, (CatalogEntry.ofMemory memory base slot).state ≠ .free) ∧
      RegionAllocator.findFreeSlot.result (entriesFrom base memory 0) () = none := by
  rcases result_findFreeSlot_from base memory 0 with
    ⟨slot, -, hslot, hfree, hfirst, hresult⟩ | ⟨hnone, hresult⟩
  · exact Or.inl ⟨slot, hslot, hfree, fun other ↦ hfirst other (Nat.zero_le _), hresult⟩
  · exact Or.inr ⟨fun slot ↦ hnone slot (Nat.zero_le _), hresult⟩

/-! ### The next free offset -/

/-- Whether the bytes of an entry are taken. -/
def CatalogEntry.Marked (entry : CatalogEntry) : Prop :=
  entry.state = .active ∨ entry.state = .allocating

instance (entry : CatalogEntry) : Decidable entry.Marked := inferInstanceAs (Decidable (_ ∨ _))

theorem CatalogEntry.Marked.ne_free {entry : CatalogEntry} (hmarked : entry.Marked) :
    entry.state ≠ .free := by
  rcases hmarked with hactive | hallocating
  · rw [hactive]
    decide
  · rw [hallocating]
    decide

/-- The largest end of the entries that are taken, and of what was there before. -/
def maxEnd : List (ℕ × CatalogEntry) → ℕ → ℕ
  | [], start => start
  | (_, entry) :: rest, start =>
    maxEnd rest (if entry.Marked then max start ((entry.offset + entry.size) % 2 ^ 64) else start)

theorem result_nextFreeOffset (entries : List (ℕ × CatalogEntry)) (start : ℕ) :
    RegionAllocator.nextFreeOffset.result entries start = alignUp (maxEnd entries start) := by
  induction entries generalizing start with
  | nil => rfl
  | cons pair rest ih =>
    rw [maxEnd, ← ih]
    by_cases hmarked : pair.2.Marked
    · have hvisit : pair.2.state = .active ∨ pair.2.state = .allocating := hmarked
      simp only [EntryVisitor.result, RegionAllocator.nextFreeOffset, if_pos hvisit, if_pos hmarked]
      by_cases hlt : start < (pair.2.offset + pair.2.size) % 2 ^ 64
      · rw [if_pos hlt, Nat.max_eq_right (Nat.le_of_lt hlt)]
      · rw [if_neg hlt, Nat.max_eq_left (Nat.le_of_not_lt hlt)]
    · have hvisit : ¬ (pair.2.state = .active ∨ pair.2.state = .allocating) := hmarked
      simp only [EntryVisitor.result, RegionAllocator.nextFreeOffset, if_neg hvisit, if_neg hmarked]

theorem le_maxEnd (entries : List (ℕ × CatalogEntry)) (start : ℕ) :
    start ≤ maxEnd entries start := by
  induction entries generalizing start with
  | nil => exact Nat.le_refl start
  | cons pair rest ih =>
    refine Nat.le_trans ?_ (ih _)
    split_ifs
    · exact Nat.le_max_left _ _
    · exact Nat.le_refl start

theorem end_le_maxEnd {entries : List (ℕ × CatalogEntry)} {slot : ℕ} {entry : CatalogEntry}
    (start : ℕ) (hmem : (slot, entry) ∈ entries) (hmarked : entry.Marked) :
    (entry.offset + entry.size) % 2 ^ 64 ≤ maxEnd entries start := by
  induction entries generalizing start with
  | nil => cases hmem
  | cons pair rest ih =>
    rcases List.mem_cons.mp hmem with rfl | hlater
    · rw [maxEnd, if_pos hmarked]
      exact Nat.le_trans (Nat.le_max_right _ _) (le_maxEnd rest _)
    · exact ih _ hlater

theorem maxEnd_le {entries : List (ℕ × CatalogEntry)} {start bound : ℕ} (hstart : start ≤ bound)
    (hends : ∀ slot entry, (slot, entry) ∈ entries → entry.Marked →
      entry.offset + entry.size ≤ bound) : maxEnd entries start ≤ bound := by
  induction entries generalizing start with
  | nil => exact hstart
  | cons pair rest ih =>
    have hrest : ∀ slot entry, (slot, entry) ∈ rest → entry.Marked →
        entry.offset + entry.size ≤ bound :=
      fun slot entry hmem ↦ hends slot entry (List.mem_cons_of_mem _ hmem)
    rw [maxEnd]
    split_ifs with hmarked
    · have hend := hends pair.1 pair.2 List.mem_cons_self hmarked
      exact ih (Nat.max_le.mpr ⟨hstart, Nat.le_trans (Nat.mod_le _ _) hend⟩) hrest
    · exact ih hstart hrest

theorem dvd_alignUp (value : ℕ) : 64 ∣ alignUp value := Dvd.intro_left _ rfl

theorem le_alignUp {value : ℕ} (hexact : value + 63 < 2 ^ 64) : value ≤ alignUp value := by
  rw [alignUp, Nat.mod_eq_of_lt hexact]
  omega

theorem alignUp_le (value : ℕ) : alignUp value ≤ value + 63 := by
  unfold alignUp
  exact Nat.le_trans (Nat.div_mul_le_self _ _) (Nat.mod_le _ _)

/-- What `data_start` in the header is. -/
def dataStart (base : ℕ) (memory : Memory) : ℕ := loadWord memory (base + catHdrDataStart) 8

/-- What `region_count` in the header is. -/
def regionCount (base : ℕ) (memory : Memory) : ℕ := loadWord memory (base + catHdrRegionCount) 8

/-- The largest end in the catalog. -/
def catalogEnd (base : ℕ) (memory : Memory) : ℕ :=
  maxEnd (entriesFrom base memory 0) (dataStart base memory)

/-- What `next_free_offset` returns. -/
def nextOffset (base : ℕ) (memory : Memory) : ℕ := alignUp (catalogEnd base memory)

section NextOffset

variable (hexact : catalogEnd base memory + 63 < 2 ^ 64)

include hexact

theorem dataStart_le_nextOffset : dataStart base memory ≤ nextOffset base memory :=
  Nat.le_trans (le_maxEnd _ _) (le_alignUp hexact)

/-- The next offset is past the ends of all regions. -/
theorem end_le_nextOffset {slot : ℕ} (hslot : slot < maxRegions)
    (hmarked : (CatalogEntry.ofMemory memory base slot).Marked)
    (hend : (CatalogEntry.ofMemory memory base slot).offset +
      (CatalogEntry.ofMemory memory base slot).size < 2 ^ 64) :
    (CatalogEntry.ofMemory memory base slot).offset +
      (CatalogEntry.ofMemory memory base slot).size ≤ nextOffset base memory := by
  have hle := end_le_maxEnd (dataStart base memory)
    (mem_entriesFrom_zero.mpr ⟨hslot, rfl⟩ : (slot, _) ∈ entriesFrom base memory 0) hmarked
  rw [Nat.mod_eq_of_lt hend] at hle
  exact Nat.le_trans hle (le_alignUp hexact)

end NextOffset

end Fence
