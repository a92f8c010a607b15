import Fence.Alloc.Creators

/-!
# One step of a creator

What one step of a `create_region` does to the catalog and to what the call knows and holds
(`CreatorStep`), for each kind of step: searching, storing a field of an entry behind its state,
storing the state, and counting. The steps are put together in `creatorStep`: it needs that the slot
is free at the first store and that the count is what was loaded when it is stored.
-/

set_option autoImplicit false
set_option relaxedAutoImplicit false

namespace Fence

open ByteMemory Interleaving

variable {base poolSize slot other : ℕ} {memory later : Memory}

/-! ### Stores to an entry -/

/-- A store behind the state of an entry leaves the state. -/
theorem state_store {field : ℕ} {bytes : List UInt8} (hfield : 1 ≤ field) :
    (CatalogEntry.ofMemory (store memory (entryOffset base slot + field) bytes) base slot).state =
      (CatalogEntry.ofMemory memory base slot).state := by
  have hstate : entState = 0 := rfl
  simp only [CatalogEntry.ofMemory]
  rw [store_apply_outside (Or.inl (by omega))]

/-- A store behind the name of an entry leaves the name. -/
theorem name_store {field : ℕ} {bytes : List UInt8} (hfield : entName + maxNameLen ≤ field) :
    (CatalogEntry.ofMemory (store memory (entryOffset base slot + field) bytes) base slot).name =
      (CatalogEntry.ofMemory memory base slot).name := by
  simp only [entName, maxNameLen] at hfield
  have hlength : storedNameLen (store memory (entryOffset base slot + field) bytes) base slot =
      storedNameLen memory base slot := by
    unfold storedNameLen
    rw [load_store_outside (Or.inl (by unfold entNameLen; omega))]
  simp only [CatalogEntry.ofMemory, storedName, hlength]
  split_ifs with hlen
  · rw [load_store_outside (Or.inl (by simp only [maxNameLen, entName] at hlen ⊢; omega))]
  · rfl

/-- The name is stored behind its length. -/
theorem name_store_name {name : String} (hname : (asBytes name).length ≤ maxNameLen)
    (hlength : storedNameLen memory base slot = (asBytes name).length) :
    (CatalogEntry.ofMemory (store memory (entryOffset base slot + entName) (asBytes name)) base
      slot).name = name := by
  have hstored : storedNameLen (store memory (entryOffset base slot + entName) (asBytes name)) base
      slot = (asBytes name).length := by
    unfold storedNameLen at hlength ⊢
    rw [load_store_outside (Or.inl (by simp only [entNameLen, entName]; omega)), hlength]
  simp only [CatalogEntry.ofMemory, storedName, hstored]
  split_ifs with hlen
  · rw [load_store_self, fromUtf8Lossy_asBytes]
  · exact (eq_empty_of_asBytes (List.eq_nil_of_length_eq_zero (by omega))).symm

/-- An empty name is no more than its length. -/
theorem name_of_storedNameLen {name : String} (hlength : storedNameLen memory base slot = 0)
    (hname : (asBytes name).length = 0) : (CatalogEntry.ofMemory memory base slot).name = name := by
  rw [eq_empty_of_asBytes (List.eq_nil_of_length_eq_zero hname)]
  simp only [CatalogEntry.ofMemory, storedName, hlength]
  rfl

theorem storedNameLen_store {length : ℕ} (hlength : length ≤ maxNameLen) :
    storedNameLen (store memory (entryOffset base slot + entNameLen) (leBytes 2 length)) base slot =
      length := by
  have hself := load_store_self memory (entryOffset base slot + entNameLen) (leBytes 2 length)
  rw [length_leBytes] at hself
  rw [storedNameLen, hself, leValue_leBytes]
  exact Nat.mod_eq_of_lt (Nat.lt_of_le_of_lt hlength (by decide))

theorem offset_storeWord {value : ℕ} (hvalue : value < 2 ^ 64) :
    (CatalogEntry.ofMemory (storeWord memory (entryOffset base slot + entOffset) 8 value) base
      slot).offset = value :=
  (loadWord_storeWord_self _ _ _ _).trans (Nat.mod_eq_of_lt hvalue)

theorem size_storeWord {value : ℕ} (hvalue : value < 2 ^ 64) :
    (CatalogEntry.ofMemory (storeWord memory (entryOffset base slot + entSize) 8 value) base
      slot).size = value :=
  (loadWord_storeWord_self _ _ _ _).trans (Nat.mod_eq_of_lt hvalue)

theorem offset_store {field : ℕ} {bytes : List UInt8} (hfield : entSize ≤ field) :
    (CatalogEntry.ofMemory (store memory (entryOffset base slot + field) bytes) base slot).offset =
      (CatalogEntry.ofMemory memory base slot).offset := by
  simp only [CatalogEntry.ofMemory]
  exact loadWord_store_outside (Or.inl (by simp only [entSize, entOffset] at *; omega))

theorem size_store {field : ℕ} {bytes : List UInt8} (hfield : entEpoch ≤ field) :
    (CatalogEntry.ofMemory (store memory (entryOffset base slot + field) bytes) base slot).size =
      (CatalogEntry.ofMemory memory base slot).size := by
  simp only [CatalogEntry.ofMemory]
  exact loadWord_store_outside (Or.inl (by simp only [entSize, entEpoch] at *; omega))

/-! ### Steps -/

/-- A region for which a creator makes its first store: its slot is the first free one, and its
offset is past the ends of all regions. -/
structure FirstStore (base : ℕ) (memory : Memory) (call : AllocCall) (region : RegionHandle) :
    Prop where
  point : ∃ size, call = .createRegion region.name size
    (.running (.writeEntry region.slot region.offset .writeNameLen))
  chosen : ChosenSlot base memory region.slot
  free : IsFree base memory region.slot
  offset_eq : region.offset = nextOffset base memory
  exact : catalogEnd base memory + 63 < 2 ^ 64

/-- What a step of a creator does. -/
structure CreatorStep (base : ℕ) (memory later : Memory) (call next : AllocCall) : Prop where
  knows : next.Knows base later
  holds : next.Holds base later
  frame : Later base memory later
  claimed : ∀ region, next.held = some region →
    call.held = some region ∨ FirstStore base memory call region
  others : ∀ slot, (∀ region, next.held = some region → region.slot ≠ slot) →
    SameEntry base slot later memory
  kept : ∀ slot, call.Took slot → next.Took slot
  taken : ∀ slot < maxRegions, IsFree base memory slot → IsFree base later slot ∨ next.Took slot
  count : regionCount base later + call.counted.toNat = regionCount base memory + next.counted.toNat

section Kinds

variable {call next : AllocCall}

/-- A call that holds nothing looks at the catalog. -/
theorem CreatorStep.search (hknows : next.Knows base memory) (hcall : call.held = none)
    (hnext : next.held = none) (hcounted : call.counted = next.counted) :
    CreatorStep base memory memory call next where
  knows := hknows
  holds := by
    intro region hregion
    rw [hnext] at hregion
    cases hregion
  frame := .refl base memory
  claimed := by
    intro region hregion
    rw [hnext] at hregion
    cases hregion
  others := fun slot _ ↦ .refl base slot memory
  kept := by
    rintro slot ⟨region, hregion, -⟩
    rw [hcall] at hregion
    cases hregion
  taken := fun slot _ hfree ↦ Or.inl hfree
  count := by rw [hcounted]

/-- A call that holds a region goes on without a store. -/
theorem CreatorStep.stay (hknows : next.Knows base memory) (hholds : call.Holds base memory)
    (hheld : next.held = call.held) (hstate : next.heldState = call.heldState)
    (hcounted : call.counted = next.counted)
    (hwrote : ∀ region, call.Wrote base memory region → next.Wrote base memory region) :
    CreatorStep base memory memory call next where
  knows := hknows
  holds := by
    intro region hregion
    rw [hheld] at hregion
    obtain ⟨hchosen, hend, hentry, hfields⟩ := hholds region hregion
    exact ⟨hchosen, hend, by rw [hstate, hentry], hwrote region hfields⟩
  frame := .refl base memory
  claimed := fun region hregion ↦ Or.inl (hheld ▸ hregion)
  others := fun slot _ ↦ .refl base slot memory
  kept := by
    rintro slot ⟨region, hregion, hslot, htaken⟩
    exact ⟨region, by rw [hheld, hregion], hslot, by rwa [hstate]⟩
  taken := fun slot _ hfree ↦ Or.inl hfree
  count := by rw [hcounted]

/-- A call stores a field of its entry behind the state, which stays free. -/
theorem CreatorStep.write {region : RegionHandle} {field : ℕ} {bytes : List UInt8}
    (hknows : next.Knows base (store memory (entryOffset base region.slot + field) bytes))
    (hchosen : ChosenSlot base memory region.slot) (hend : region.offset + region.size < 2 ^ 64)
    (hfree : IsFree base memory region.slot) (hlow : 1 ≤ field)
    (hhigh : field + bytes.length ≤ catalogEntrySize) (hcall : ∀ slot, ¬ call.Took slot)
    (hnext : next.held = some region) (hstate : next.heldState = .free)
    (hcounted : call.counted = next.counted)
    (hclaimed : call.held = some region ∨ FirstStore base memory call region)
    (hwrote : next.Wrote base (store memory (entryOffset base region.slot + field) bytes) region) :
    CreatorStep base memory
      (store memory (entryOffset base region.slot + field) bytes) call next := by
  have hothers : ∀ other, other ≠ region.slot → SameEntry base other
      (store memory (entryOffset base region.slot + field) bytes) memory := by
    intro other hne
    have hdisjoint := @entryOffset_disjoint base other region.slot hne
    exact sameEntry_store (by omega)
  have hfreeLater : IsFree base (store memory (entryOffset base region.slot + field) bytes)
      region.slot := (state_store hlow).trans hfree
  have hframe : Later base memory (store memory (entryOffset base region.slot + field) bytes) := by
    refine .of_slot (loadWord_store_entry (by decide) (Nat.le_add_right _ _)) hothers ?_
      fun _ ↦ hfree
    have hunmarked : ∀ {entry : CatalogEntry}, entry.state = .free → ¬ entry.Marked :=
      fun hentry hmarked ↦ hmarked.ne_free hentry
    exact ⟨⟨fun hmarked ↦ absurd hmarked (hunmarked hfreeLater), fun hmarked ↦
      absurd hmarked (hunmarked hfree)⟩, fun hmarked ↦ absurd hmarked (hunmarked hfree),
      fun hmarked ↦ absurd hmarked (hunmarked hfree)⟩
  exact
    { knows := hknows
      holds := by
        intro other hother
        obtain rfl := Option.some.inj (hnext.symm.trans hother)
        exact ⟨hchosen.mono hframe, hend, by rw [hstate]; exact hfreeLater, hwrote⟩
      frame := hframe
      claimed := by
        intro other hother
        obtain rfl := Option.some.inj (hnext.symm.trans hother)
        exact hclaimed
      others := fun slot hslot ↦ hothers slot (Ne.symm (hslot region hnext))
      kept := fun slot htook ↦ absurd htook (hcall slot)
      taken := by
        intro slot _ hslot
        by_cases hsame : slot = region.slot
        · exact Or.inl (hsame ▸ hfreeLater)
        · exact Or.inl (by rwa [IsFree, CatalogEntry.ofMemory_congr (hothers slot hsame)])
      count := by
        rw [hcounted, regionCount, loadWord_store_entry (by decide) (Nat.le_add_right _ _)]
        rfl }

/-- A call takes its entry, or makes it active. -/
theorem CreatorStep.storeState {region : RegionHandle} {state : RegionState}
    (hknows : next.Knows base
      (store memory (entryOffset base region.slot + entState) [state.toU8]))
    (hheld : RegionHeld base memory call region)
    (hwritten : (CatalogEntry.ofMemory memory base region.slot).handle region.slot = region)
    (htaken : state.Taken) (hcall : call.held = some region) (hnext : next.held = some region)
    (hstate : next.heldState = state) (hcounted : call.counted = next.counted)
    (hcallState : call.heldState = .free ∨ call.heldState = .allocating)
    (hwrote : ∀ memory : Memory,
      (CatalogEntry.ofMemory memory base region.slot).handle region.slot = region →
        next.Wrote base memory region) :
    CreatorStep base memory (store memory (entryOffset base region.slot + entState) [state.toU8])
      call next := by
  have hothers := fun other (hne : other ≠ region.slot) ↦
    @sameEntry_store_state base region.slot other memory hne state.toU8
  have hentry := CatalogEntry.ofMemory_store_state memory base region.slot state
  have hne : state ≠ .free := by
    rintro rfl
    rcases htaken with hactive | hallocating
    · cases hactive
    · cases hallocating
  have hstart : dataStart base
      (store memory (entryOffset base region.slot + entState) [state.toU8]) =
      dataStart base memory := loadWord_store_entry (by decide) (Nat.le_add_right _ _)
  have hmarked : (CatalogEntry.ofMemory
      (store memory (entryOffset base region.slot + entState) [state.toU8]) base
      region.slot).Marked := by
    rw [hentry]
    exact htaken
  have hframe : Later base memory
      (store memory (entryOffset base region.slot + entState) [state.toU8]) := by
    rcases hcallState with hfree | hallocating
    · exact .of_taken hstart hothers hheld.chosen.below (hheld.state_eq.trans hfree) hmarked
    · refine .of_slot hstart hothers ⟨?_, fun _ ↦ by rw [hentry], fun _ ↦ by rw [hentry]⟩
        fun hfree ↦ absurd hfree hmarked.ne_free
      exact iff_of_true hmarked (Or.inr (hheld.state_eq.trans hallocating))
  have htook : next.Took region.slot := ⟨region, hnext, rfl, by rwa [hstate]⟩
  exact
    { knows := hknows
      holds := by
        intro other hother
        obtain rfl := Option.some.inj (hnext.symm.trans hother)
        refine ⟨hheld.chosen.mono hframe, hheld.end_lt, by rw [hentry, hstate], hwrote _ ?_⟩
        rw [hentry]
        exact hwritten
      frame := hframe
      claimed := fun other hother ↦ Or.inl (hcall.trans (hnext.symm.trans hother))
      others := fun slot hslot ↦ hothers slot (Ne.symm (hslot region hnext))
      kept := by
        rintro slot ⟨other, hother, rfl, -⟩
        obtain rfl := Option.some.inj (hcall.symm.trans hother)
        exact htook
      taken := by
        intro slot _ hslot
        by_cases hsame : slot = region.slot
        · exact Or.inr (hsame ▸ htook)
        · exact Or.inl (by rwa [IsFree, CatalogEntry.ofMemory_congr (hothers slot hsame)])
      count := by
        rw [hcounted, regionCount, loadWord_store_entry (by decide) (Nat.le_add_right _ _)]
        rfl }

/-- A call counts its region. -/
theorem CreatorStep.storeCount
    (hknows : next.Knows base (storeCount base memory (regionCount base memory + 1)))
    (hholds : call.Holds base memory) (hcount : regionCount base memory + 1 < 2 ^ 64)
    (hheld : next.held = call.held) (hstate : next.heldState = call.heldState)
    (hcall : call.counted = false) (hnext : next.counted = true)
    (hwrote : ∀ region, ∀ memory : Memory, call.Wrote base memory region →
      next.Wrote base memory region) :
    CreatorStep base memory (storeCount base memory (regionCount base memory + 1)) call next := by
  have hsame : ∀ slot, SameEntry base slot
      (Fence.storeCount base memory (regionCount base memory + 1)) memory :=
    fun slot ↦ sameEntry_storeCount base slot memory _
  have hframe : Later base memory (Fence.storeCount base memory (regionCount base memory + 1)) :=
    .of_sameEntry (dataStart_storeCount base memory _) hsame
  exact
    { knows := hknows
      holds := by
        intro region hregion
        rw [hheld] at hregion
        obtain ⟨hchosen, hend, hentry, hfields⟩ :=
          hholds.mono hframe (fun region _ ↦ hsame region.slot) region hregion
        exact ⟨hchosen, hend, by rw [hstate, hentry], hwrote region _ hfields⟩
      frame := hframe
      claimed := fun region hregion ↦ Or.inl (hheld ▸ hregion)
      others := fun slot _ ↦ hsame slot
      kept := by
        rintro slot ⟨region, hregion, hslot, htaken⟩
        exact ⟨region, by rw [hheld, hregion], hslot, by rwa [hstate]⟩
      taken := by
        intro slot _ hfree
        exact Or.inl (by rwa [IsFree, CatalogEntry.ofMemory_congr (hsame slot)])
      count := by
        rw [regionCount_storeCount, Nat.mod_eq_of_lt hcount, hcall, hnext]
        rfl }

end Kinds

/-! ### Searching -/

section Search

variable {name : String} {size : UInt64} {index : ℕ}

/-- A creator that goes on searching, or has given up, and holds nothing. -/
structure Searching (base : ℕ) (memory : Memory) (call : AllocCall) : Prop where
  knows : call.Knows base memory
  held : call.held = none
  counted : call.counted = false

theorem searching_error (error : AllocError) :
    Searching base memory (.createRegion name size (.returned (.error error))) :=
  ⟨trivial, rfl, rfl⟩

variable (hname : (asBytes name).length ≤ maxNameLen)

include hname

theorem searching_afterSlot (hchosen : ChosenSlot base memory slot) :
    Searching base memory (.createRegion name size (CreatePoint.afterSlot (some slot))) :=
  ⟨⟨hname, hchosen⟩, rfl, rfl⟩

/-- The head of the loop of `find_free_slot`. -/
theorem searching_slotHead (hbelow : TakenBelow base memory index) :
    Searching base memory
      (.createRegion name size ((RegionAllocator.findFreeSlot.head index ()).fold
      (fun loop ↦ .running (.findFreeSlot loop)) CreatePoint.afterSlot)) := by
  unfold EntryVisitor.head
  split_ifs with hindex
  · exact ⟨⟨hname, hindex, hbelow, fun _ hstate ↦ nomatch hstate⟩, rfl, rfl⟩
  · exact searching_error .catalogFull

theorem searching_afterFind (found : Except AllocError RegionHandle) :
    Searching base memory (.createRegion name size (CreatePoint.afterFind name found)) := by
  cases found with
  | ok region => exact searching_error _
  | error error =>
    exact searching_slotHead hname fun other hother ↦ absurd hother (Nat.not_lt_zero other)

/-- The head of the loop of `next_free_offset`. -/
theorem searching_offsetHead {maxEnd : ℕ} (hchosen : ChosenSlot base memory slot)
    (hgathered : IsFree base memory slot →
      index ≤ maxRegions ∧ maxEnd = endBelow base memory index) :
    Searching base memory (.createRegion name size
      ((RegionAllocator.nextFreeOffset.head index maxEnd).fold
        (fun loop ↦ .running (.nextFreeOffset slot loop))
        (CreatePoint.afterOffset base poolSize size.toNat slot))) := by
  unfold EntryVisitor.head
  split_ifs with hlt
  · exact ⟨⟨hname, hchosen, fun hfree ↦ ⟨hlt, (hgathered hfree).2, trivial⟩⟩, rfl, rfl⟩
  · show Searching base memory (.createRegion name size
      (CreatePoint.afterOffset base poolSize size.toNat slot (alignUp maxEnd)))
    unfold CreatePoint.afterOffset
    split_ifs
    · exact searching_error _
    · refine ⟨⟨hname, hchosen, fun hfree ↦ ?_⟩, rfl, rfl⟩
      obtain ⟨hindex, hmaxEnd⟩ := hgathered hfree
      rw [hmaxEnd, Nat.le_antisymm hindex (Nat.le_of_not_lt hlt), endBelow_maxRegions, nextOffset]

/-- One step of the search for a slot. -/
theorem SlotSearch.step {loop : EntryLoop Unit} (hsearch : SlotSearch base memory loop)
    (htaken : IsFree base memory loop.index ∨
      (CatalogEntry.ofMemory memory base loop.index).Marked) :
    Searching base memory (.createRegion name size
      (((RegionAllocator.findFreeSlot.next base loop).exec memory).1.fold
        (fun loop ↦ .running (.findFreeSlot loop)) CreatePoint.afterSlot)) := by
  have hsaw := hsearch.saw.step htaken
  rw [EntryVisitor.next, BackendCall.exec_map]
  cases hread : ((Catalog.readEntry base loop.index loop.point).exec memory).1 with
  | running point =>
    rw [hread] at hsaw
    exact ⟨⟨hname, hsearch.index_lt, hsearch.below, hsaw⟩, rfl, rfl⟩
  | returned entry =>
    rw [hread] at hsaw
    show Searching base memory (.createRegion name size
      ((RegionAllocator.findFreeSlot.body loop.index loop.gathered entry).fold
        (fun loop ↦ .running (.findFreeSlot loop)) CreatePoint.afterSlot))
    by_cases hfree : entry.state = .free
    · simp only [EntryVisitor.body, RegionAllocator.findFreeSlot, if_pos hfree]
      exact searching_afterSlot hname hsearch.chosen
    · simp only [EntryVisitor.body, RegionAllocator.findFreeSlot, if_neg hfree]
      refine searching_slotHead hname fun other hother ↦ ?_
      rcases Nat.lt_succ_iff_lt_or_eq.mp hother with hlt | rfl
      · exact hsearch.below other hlt
      · exact hsaw hfree

/-- One step of the search for an offset. -/
theorem OffsetSearch.step {loop : EntryLoop ℕ} (hchosen : ChosenSlot base memory slot)
    (hsearch : IsFree base memory slot → OffsetSearch base memory loop) :
    Searching base memory (.createRegion name size
      (((RegionAllocator.nextFreeOffset.next base loop).exec memory).1.fold
        (fun loop ↦ .running (.nextFreeOffset slot loop))
        (CreatePoint.afterOffset base poolSize size.toNat slot))) := by
  have hstep := fun hfree ↦ (hsearch hfree).agrees.step
  rw [EntryVisitor.next, BackendCall.exec_map]
  cases hread : ((Catalog.readEntry base loop.index loop.point).exec memory).1 with
  | running point =>
    rw [hread] at hstep
    exact ⟨⟨hname, hchosen, fun hfree ↦ ⟨(hsearch hfree).index_lt, (hsearch hfree).gathered,
      hstep hfree⟩⟩, rfl, rfl⟩
  | returned entry =>
    rw [hread] at hstep
    show Searching base memory (.createRegion name size
      ((RegionAllocator.nextFreeOffset.body loop.index loop.gathered entry).fold
        (fun loop ↦ .running (.nextFreeOffset slot loop))
        (CreatePoint.afterOffset base poolSize size.toNat slot)))
    have hhead : ∀ maxEnd, (IsFree base memory slot →
        maxEnd = endBelow base memory (loop.index + 1)) →
        Searching base memory (.createRegion name size
          ((RegionAllocator.nextFreeOffset.head (loop.index + 1) maxEnd).fold
            (fun loop ↦ .running (.nextFreeOffset slot loop))
            (CreatePoint.afterOffset base poolSize size.toNat slot))) :=
      fun maxEnd hmaxEnd ↦ searching_offsetHead hname hchosen fun hfree ↦
        ⟨(hsearch hfree).index_lt, hmaxEnd hfree⟩
    by_cases hmarked : entry.state = .active ∨ entry.state = .allocating
    · have hend : IsFree base memory slot → endBelow base memory (loop.index + 1) =
          max loop.gathered ((entry.offset + entry.size) % 2 ^ 64) := by
        intro hfree
        have hstored := (hstep hfree).marked.mp hmarked
        rw [endBelow, if_pos hstored, (hsearch hfree).gathered, (hstep hfree).offset hstored,
          (hstep hfree).size hstored]
      by_cases hlt : loop.gathered < (entry.offset + entry.size) % 2 ^ 64
      · simp only [EntryVisitor.body, RegionAllocator.nextFreeOffset, if_pos hmarked, if_pos hlt]
        exact hhead _ fun hfree ↦ by rw [hend hfree, Nat.max_eq_right (Nat.le_of_lt hlt)]
      · simp only [EntryVisitor.body, RegionAllocator.nextFreeOffset, if_pos hmarked, if_neg hlt]
        exact hhead _ fun hfree ↦ by rw [hend hfree, Nat.max_eq_left (Nat.le_of_not_lt hlt)]
    · simp only [EntryVisitor.body, RegionAllocator.nextFreeOffset, if_neg hmarked]
      refine hhead _ fun hfree ↦ ?_
      rw [endBelow, if_neg fun hstored ↦ hmarked ((hstep hfree).marked.mpr hstored),
        (hsearch hfree).gathered]

end Search

/-! ### Any step -/

section Step

variable {name : String} {size : UInt64}

/-- The sums a creator has computed when it makes its first store did not wrap. -/
def CreatePoint.Exact (base : ℕ) (memory : Memory) (size : ℕ) : CreatePoint → Prop
  | .writeEntry _ regionOffset .writeNameLen =>
    catalogEnd base memory + 63 < 2 ^ 64 ∧ regionOffset + size < 2 ^ 64
  | _ => True

/-- A slot is free when a creator makes its first store to it, and the count is what it has loaded
when it stores the next one. -/
def CreatePoint.Current (base : ℕ) (memory : Memory) : CreatePoint → Prop
  | .writeEntry slot _ .writeNameLen => IsFree base memory slot
  | .storeCount _ _ count => count = regionCount base memory
  | _ => True

theorem Searching.step {call next : AllocCall} (hnext : Searching base memory next)
    (hcall : call.held = none) (hcounted : call.counted = false) :
    CreatorStep base memory memory call next :=
  .search hnext.knows hcall hnext.held (hcounted.trans hnext.counted.symm)

/-- A creator that writes has not taken its slot. -/
theorem not_took_of_free {call : AllocCall} (hstate : call.heldState = .free) (slot : ℕ) :
    ¬ call.Took slot := by
  rintro ⟨region, -, -, htaken⟩
  exact htaken hstate

/-- One step of `write_entry` inside `create_region`. -/
theorem creatorStep_writeEntry {slot regionOffset : ℕ} {point : WriteEntryPoint}
    (hknows : (AllocCall.createRegion name size
      (.running (.writeEntry slot regionOffset point))).Knows base memory)
    (hholds : (AllocCall.createRegion name size
      (.running (.writeEntry slot regionOffset point))).Holds base memory)
    (hexact : (CreatePoint.writeEntry slot regionOffset point).Exact base memory size.toNat)
    (hcurrent : (CreatePoint.writeEntry slot regionOffset point).Current base memory) :
    CreatorStep base memory ((RegionAllocator.createRegion base poolSize name size.toNat
        (.writeEntry slot regionOffset point)).exec memory).2
      (.createRegion name size (.running (.writeEntry slot regionOffset point)))
      (.createRegion name size ((RegionAllocator.createRegion base poolSize name size.toNat
        (.writeEntry slot regionOffset point)).exec memory).1) := by
  obtain ⟨hname, hpoint⟩ := hknows
  have hlen : (newEntry name size.toNat regionOffset).nameLen = (asBytes name).length :=
    Nat.min_eq_left hname
  have hbound : (asBytes name).length ≤ 24 := hname
  have hsize : size.toNat < 2 ^ 64 := size.toNat_lt
  simp only [RegionAllocator.createRegion, BackendCall.exec_map]
  cases point with
  | writeNameLen =>
    have hchosen : ChosenSlot base memory slot := hpoint.1
    have hfree : IsFree base memory slot := hcurrent
    have hfirst : FirstStore base memory (.createRegion name size
        (.running (.writeEntry slot regionOffset .writeNameLen)))
        ⟨slot, name, regionOffset, size.toNat⟩ :=
      ⟨⟨size, rfl⟩, hchosen, hfree, hpoint.2 hfree, hexact.1⟩
    have hstored := @storedNameLen_store base slot memory _
      (newEntry name size.toNat regionOffset).nameLen_le
    simp only [Catalog.writeEntry, BackendCall.exec]
    by_cases hpos : 0 < (newEntry name size.toNat regionOffset).nameLen
    · rw [if_pos hpos]
      exact @CreatorStep.write base memory _ _ ⟨slot, name, regionOffset, size.toNat⟩ entNameLen _
        ⟨hname, trivial⟩ hchosen hexact.2 hfree (by decide) (by rw [length_leBytes]; decide)
        (not_took_of_free rfl) rfl rfl rfl (Or.inr hfirst) hstored
    · have hzero := Nat.eq_zero_of_not_pos hpos
      rw [if_neg hpos]
      exact @CreatorStep.write base memory _ _ ⟨slot, name, regionOffset, size.toNat⟩ entNameLen _
        ⟨hname, trivial⟩ hchosen hexact.2 hfree (by decide) (by rw [length_leBytes]; decide)
        (not_took_of_free rfl) rfl rfl rfl (Or.inr hfirst)
        (name_of_storedNameLen (hstored.trans hzero) (hlen.symm.trans hzero))
  | writeName =>
    obtain ⟨hchosen, hend, hstate, hwrote⟩ := hholds _ rfl
    have hbytes : (asBytes name).take (newEntry name size.toNat regionOffset).nameLen =
        asBytes name := by rw [hlen, List.take_length]
    simp only [Catalog.writeEntry, BackendCall.exec]
    rw [show (newEntry name size.toNat regionOffset).name = name from rfl, hbytes]
    exact @CreatorStep.write base memory _ _ ⟨slot, name, regionOffset, size.toNat⟩ entName _
      ⟨hname, trivial⟩ hchosen hend hstate (by decide)
      (by simp only [entName, catalogEntrySize]; omega) (not_took_of_free rfl) rfl rfl rfl
      (Or.inl rfl) (name_store_name hname (hwrote.trans hlen))
  | storeOffset =>
    obtain ⟨hchosen, hend, hstate, hwrote⟩ := hholds _ rfl
    have hoffset : regionOffset < 2 ^ 64 := Nat.lt_of_le_of_lt (Nat.le_add_right _ _) hend
    exact @CreatorStep.write base memory _ _ ⟨slot, name, regionOffset, size.toNat⟩ entOffset _
      ⟨hname, trivial⟩ hchosen hend hstate (by decide) (by rw [length_leBytes]; decide)
      (not_took_of_free rfl) rfl rfl rfl (Or.inl rfl) ⟨(name_store (by decide)).trans hwrote,
        offset_storeWord hoffset⟩
  | storeSize =>
    obtain ⟨hchosen, hend, hstate, hwrote⟩ := hholds _ rfl
    have hhandle : (CatalogEntry.ofMemory (storeWord memory (entryOffset base slot + entSize) 8
        size.toNat) base slot).handle slot = ⟨slot, name, regionOffset, size.toNat⟩ := by
      rw [CatalogEntry.handle, size_storeWord hsize, storeWord, name_store (by decide),
        offset_store (Nat.le_refl _), hwrote.1, hwrote.2]
    exact @CreatorStep.write base memory _ _ ⟨slot, name, regionOffset, size.toNat⟩ entSize _
      ⟨hname, trivial⟩ hchosen hend hstate (by decide) (by rw [length_leBytes]; decide)
      (not_took_of_free rfl) rfl rfl rfl (Or.inl rfl) hhandle
  | storeEpoch =>
    obtain ⟨hchosen, hend, hstate, hwrote⟩ := hholds _ rfl
    have hhandle : (CatalogEntry.ofMemory (storeWord memory (entryOffset base slot + entEpoch) 8
        0) base slot).handle slot = ⟨slot, name, regionOffset, size.toNat⟩ := by
      rw [CatalogEntry.handle, storeWord, name_store (by decide), offset_store (by decide),
        size_store (Nat.le_refl _)]
      exact hwrote
    exact @CreatorStep.write base memory _ _ ⟨slot, name, regionOffset, size.toNat⟩ entEpoch _
      ⟨hname, trivial⟩ hchosen hend hstate (by decide) (by rw [length_leBytes]; decide)
      (not_took_of_free rfl) rfl rfl rfl (Or.inl rfl) hhandle
  | flushEntry => exact .stay ⟨hname, trivial⟩ hholds rfl rfl rfl fun _ hwrote ↦ hwrote
  | storeState =>
    have hheld := hholds _ rfl
    exact @CreatorStep.storeState base memory _ _ ⟨slot, name, regionOffset, size.toNat⟩ .allocating
      ⟨hname, trivial⟩ hheld hheld.wrote (Or.inr rfl) rfl rfl rfl rfl (Or.inl rfl)
      fun _ hwrote ↦ hwrote
  | flushState => exact .stay ⟨hname, trivial⟩ hholds rfl rfl rfl fun _ hwrote ↦ hwrote

/-- One step of a creator. -/
theorem creatorStep {point : CreatePoint}
    (hknows : (AllocCall.createRegion name size (.running point)).Knows base memory)
    (hholds : (AllocCall.createRegion name size (.running point)).Holds base memory)
    (htaken : ∀ slot < maxRegions, IsFree base memory slot ∨
      (CatalogEntry.ofMemory memory base slot).Marked)
    (hcount : regionCount base memory + 1 < 2 ^ 64)
    (hexact : point.Exact base memory size.toNat) (hcurrent : point.Current base memory) :
    CreatorStep base memory
      ((RegionAllocator.createRegion base poolSize name size.toNat point).exec memory).2
      (.createRegion name size (.running point)) (.createRegion name size
        ((RegionAllocator.createRegion base poolSize name size.toNat point).exec memory).1) := by
  obtain ⟨hname, hpoint⟩ := id hknows
  cases point with
  | findRegion loop =>
    have hsearch : Searching base memory (.createRegion name size
        ((((RegionAllocator.findRegion name).next base loop).exec memory).1.fold
          (fun loop ↦ .running (.findRegion loop)) (CreatePoint.afterFind name))) := by
      cases (((RegionAllocator.findRegion name).next base loop).exec memory).1 with
      | running next => exact ⟨⟨hname, trivial⟩, rfl, rfl⟩
      | returned found => exact searching_afterFind hname found
    simp only [RegionAllocator.createRegion, EntryVisitor.exec_next_map]
    exact hsearch.step rfl rfl
  | findFreeSlot loop =>
    have hsearch := @SlotSearch.step base memory name size hname loop hpoint
      (htaken loop.index hpoint.index_lt)
    simp only [RegionAllocator.createRegion, EntryVisitor.exec_next_map]
    exact hsearch.step rfl rfl
  | loadDataStart slot =>
    have hsearch := @searching_offsetHead base poolSize slot memory name size 0 hname
      (dataStart base memory) hpoint fun _ ↦ ⟨Nat.zero_le _, rfl⟩
    exact hsearch.step rfl rfl
  | nextFreeOffset slot loop =>
    have hsearch := @OffsetSearch.step base poolSize slot memory name size hname loop hpoint.1
      hpoint.2
    simp only [RegionAllocator.createRegion, EntryVisitor.exec_next_map]
    exact hsearch.step rfl rfl
  | writeEntry slot regionOffset point =>
    exact creatorStep_writeEntry hknows hholds hexact hcurrent
  | storeActive slot regionOffset =>
    have hheld := hholds _ rfl
    exact @CreatorStep.storeState base memory _ _ ⟨slot, name, regionOffset, size.toNat⟩ .active
      ⟨hname, trivial⟩ hheld hheld.wrote (Or.inl rfl) rfl rfl rfl rfl (Or.inr rfl)
      fun _ hwrote ↦ hwrote
  | flushActive slot regionOffset =>
    exact .stay ⟨hname, trivial⟩ hholds rfl rfl rfl fun _ hwrote ↦ hwrote
  | loadCount slot regionOffset =>
    exact .stay ⟨hname, trivial⟩ hholds rfl rfl rfl fun _ hwrote ↦ hwrote
  | storeCount slot regionOffset count =>
    obtain rfl : count = regionCount base memory := hcurrent
    exact .storeCount ⟨hname, trivial⟩ hholds hcount rfl rfl rfl rfl fun _ _ hwrote ↦ hwrote
  | flushCount slot regionOffset =>
    exact .stay trivial hholds rfl rfl rfl fun _ hwrote ↦ hwrote

end Step

end Fence
