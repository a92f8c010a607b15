import Fence.Alloc.Updates

/-!
# Creators that interleave

What a `create_region` in flight knows of the catalog and has stored in it, when others are in
flight on the same pool. While it searches, the entries before the one it looks at are taken, and
they stay so; once it has chosen a slot, what it has seen of the ends of the regions is what the
catalog says, for as long as the slot is free (`CreatePoint.Knows`). From its first store on it
holds a region, whose entry has the fields stored so far (`AllocCall.Wrote`). `Later` says what the
steps of others may do to the catalog, and `AllocCall.Knows.mono` that nobody's knowledge is lost by
them.
-/

set_option autoImplicit false
set_option relaxedAutoImplicit false

namespace Fence

open ByteMemory Interleaving

variable {base poolSize slot other : ℕ} {memory later : Memory}

/-! ### Entries that are taken -/

/-- The entry of a slot is free. -/
def IsFree (base : ℕ) (memory : Memory) (slot : ℕ) : Prop :=
  (CatalogEntry.ofMemory memory base slot).state = .free

/-- The entries below a slot are taken. -/
def TakenBelow (base : ℕ) (memory : Memory) (slot : ℕ) : Prop :=
  ∀ other < slot, (CatalogEntry.ofMemory memory base other).Marked

/-- There is one first free slot. -/
theorem eq_of_isFree (hfree : IsFree base memory slot) (hbelow : TakenBelow base memory slot)
    (hfreeOther : IsFree base memory other) (hbelowOther : TakenBelow base memory other) :
    slot = other := by
  rcases Nat.lt_trichotomy slot other with hlt | hsame | hgt
  · exact absurd hfree (hbelowOther slot hlt).ne_free
  · exact hsame
  · exact absurd hfreeOther (hbelow other hgt).ne_free

/-! ### The ends of the regions -/

theorem maxEnd_concat (entries : List (ℕ × CatalogEntry)) (slot : ℕ) (entry : CatalogEntry)
    (start : ℕ) : maxEnd (entries ++ [(slot, entry)]) start =
      if entry.Marked then max (maxEnd entries start) ((entry.offset + entry.size) % 2 ^ 64)
      else maxEnd entries start := by
  induction entries generalizing start with
  | nil => rfl
  | cons pair rest ih =>
    rw [List.cons_append, maxEnd, maxEnd]
    exact ih _

/-- The largest end of the entries below one. -/
def endBelow (base : ℕ) (memory : Memory) : ℕ → ℕ
  | 0 => dataStart base memory
  | index + 1 =>
    if (CatalogEntry.ofMemory memory base index).Marked then
      max (endBelow base memory index) (((CatalogEntry.ofMemory memory base index).offset +
        (CatalogEntry.ofMemory memory base index).size) % 2 ^ 64)
    else endBelow base memory index

theorem endBelow_maxRegions (base : ℕ) (memory : Memory) :
    endBelow base memory maxRegions = catalogEnd base memory := by
  have hend : ∀ count, maxEnd ((List.range count).map fun slot ↦
      (slot, CatalogEntry.ofMemory memory base slot)) (dataStart base memory) =
      endBelow base memory count := by
    intro count
    induction count with
    | zero => rfl
    | succ count ih =>
      rw [List.range_succ, List.map_append, List.map_singleton, maxEnd_concat, ih]
      rfl
  rw [catalogEnd, entriesFrom, Nat.sub_zero, ← List.range_eq_range', hend]

/-- What was read of an entry is what counts of it. -/
structure CatalogEntry.Agrees (entry stored : CatalogEntry) : Prop where
  marked : entry.Marked ↔ stored.Marked
  offset : stored.Marked → entry.offset = stored.offset
  size : stored.Marked → entry.size = stored.size

theorem CatalogEntry.Agrees.refl (entry : CatalogEntry) : entry.Agrees entry :=
  ⟨Iff.rfl, fun _ ↦ rfl, fun _ ↦ rfl⟩

theorem CatalogEntry.Agrees.trans {first second third : CatalogEntry} (hfirst : first.Agrees second)
    (hsecond : second.Agrees third) : first.Agrees third where
  marked := hfirst.marked.trans hsecond.marked
  offset := fun hmarked ↦
    (hfirst.offset (hsecond.marked.mpr hmarked)).trans (hsecond.offset hmarked)
  size := fun hmarked ↦ (hfirst.size (hsecond.marked.mpr hmarked)).trans (hsecond.size hmarked)

theorem CatalogEntry.Agrees.symm {first second : CatalogEntry} (hagrees : first.Agrees second) :
    second.Agrees first where
  marked := hagrees.marked.symm
  offset := fun hmarked ↦ (hagrees.offset (hagrees.marked.mp hmarked)).symm
  size := fun hmarked ↦ (hagrees.size (hagrees.marked.mp hmarked)).symm

/-- The ends of entries that agree are the same. -/
theorem endBelow_congr {index : ℕ} (hstart : dataStart base later = dataStart base memory)
    (hagrees : ∀ slot < index, (CatalogEntry.ofMemory later base slot).Agrees
      (CatalogEntry.ofMemory memory base slot)) :
    endBelow base later index = endBelow base memory index := by
  induction index with
  | zero => exact hstart
  | succ index ih =>
    have hindex := hagrees index (Nat.lt_succ_self index)
    rw [endBelow, endBelow, ih fun slot hslot ↦ hagrees slot (Nat.lt_succ_of_lt hslot)]
    by_cases hmarked : (CatalogEntry.ofMemory memory base index).Marked
    · rw [if_pos hmarked, if_pos (hindex.marked.mpr hmarked), hindex.offset hmarked,
        hindex.size hmarked]
    · rw [if_neg hmarked, if_neg fun hlater ↦ hmarked (hindex.marked.mp hlater)]

/-! ### What others may do -/

/-- Entries that are taken stay so with what they hold. As long as the first free entry stays free,
no entry has been taken. -/
structure Later (base : ℕ) (memory later : Memory) : Prop where
  dataStart_eq : dataStart base later = dataStart base memory
  kept : ∀ slot < maxRegions, (CatalogEntry.ofMemory memory base slot).Marked →
    (CatalogEntry.ofMemory later base slot).Agrees (CatalogEntry.ofMemory memory base slot)
  fresh : ∀ slot < maxRegions, TakenBelow base memory slot → IsFree base later slot →
    IsFree base memory slot ∧ ∀ other < maxRegions, (CatalogEntry.ofMemory later base other).Agrees
      (CatalogEntry.ofMemory memory base other)

theorem Later.refl (base : ℕ) (memory : Memory) : Later base memory memory :=
  ⟨rfl, fun _ _ _ ↦ .refl _, fun _ _ _ hfree ↦ ⟨hfree, fun _ _ ↦ .refl _⟩⟩

theorem Later.marked (hlater : Later base memory later) (hslot : slot < maxRegions)
    (hmarked : (CatalogEntry.ofMemory memory base slot).Marked) :
    (CatalogEntry.ofMemory later base slot).Marked :=
  (hlater.kept slot hslot hmarked).marked.mpr hmarked

theorem Later.takenBelow (hlater : Later base memory later) (hslot : slot ≤ maxRegions)
    (hbelow : TakenBelow base memory slot) : TakenBelow base later slot :=
  fun other hother ↦ hlater.marked (Nat.lt_of_lt_of_le hother hslot) (hbelow other hother)

/-- A step that takes no entry. -/
theorem Later.of_agrees (hstart : dataStart base later = dataStart base memory)
    (hagrees : ∀ slot < maxRegions, (CatalogEntry.ofMemory later base slot).Agrees
      (CatalogEntry.ofMemory memory base slot))
    (hfree : ∀ slot < maxRegions, IsFree base later slot → IsFree base memory slot) :
    Later base memory later :=
  ⟨hstart, fun slot hslot _ ↦ hagrees slot hslot,
    fun slot hslot _ hlater ↦ ⟨hfree slot hslot hlater, hagrees⟩⟩

/-- A step that leaves all entries. -/
theorem Later.of_sameEntry (hstart : dataStart base later = dataStart base memory)
    (hsame : ∀ slot, SameEntry base slot later memory) : Later base memory later := by
  refine .of_agrees hstart (fun slot _ ↦ ?_) fun slot _ hfree ↦ ?_
  · rw [CatalogEntry.ofMemory_congr (hsame slot)]
    exact .refl _
  · rwa [IsFree, ← CatalogEntry.ofMemory_congr (hsame slot)]

section OneEntry

variable (hstart : dataStart base later = dataStart base memory)
  (hothers : ∀ other, other ≠ slot → SameEntry base other later memory)

include hstart hothers

/-- A step on an entry that stays free, or stays taken with what it holds. -/
theorem Later.of_slot
    (hagrees : (CatalogEntry.ofMemory later base slot).Agrees
      (CatalogEntry.ofMemory memory base slot))
    (hfree : IsFree base later slot → IsFree base memory slot) : Later base memory later := by
  refine .of_agrees hstart (fun other _ ↦ ?_) fun other _ ↦ ?_
  · by_cases hsame : other = slot
    · rwa [hsame]
    · rw [CatalogEntry.ofMemory_congr (hothers other hsame)]
      exact .refl _
  · by_cases hsame : other = slot
    · rwa [hsame]
    · rw [IsFree, IsFree, CatalogEntry.ofMemory_congr (hothers other hsame)]
      exact id

/-- The first free entry is taken. -/
theorem Later.of_taken (hbelow : TakenBelow base memory slot) (hfree : IsFree base memory slot)
    (htaken : (CatalogEntry.ofMemory later base slot).Marked) : Later base memory later where
  dataStart_eq := hstart
  kept := by
    intro other hother hmarked
    have hne : other ≠ slot := by
      rintro rfl
      exact hmarked.ne_free hfree
    rw [CatalogEntry.ofMemory_congr (hothers other hne)]
    exact .refl _
  fresh := by
    intro other hother hbelowOther hfreeLater
    have hne : other ≠ slot := by
      rintro rfl
      exact htaken.ne_free hfreeLater
    rw [IsFree, CatalogEntry.ofMemory_congr (hothers other hne)] at hfreeLater
    exact absurd (eq_of_isFree hfreeLater hbelowOther hfree hbelow) hne

end OneEntry

/-! ### Reading an entry -/

/-- A state in which the bytes of an entry are taken. -/
def RegionState.Taken (state : RegionState) : Prop := state = .active ∨ state = .allocating

/-- The state loaded so far. -/
def ReadEntryPoint.state? : ReadEntryPoint → Option RegionState
  | .loadState => none
  | .readNameLen state => some state
  | .readName state _ => some state
  | .loadOffset state _ => some state
  | .loadSize state _ _ => some state
  | .loadEpoch state _ _ _ => some state

/-- An entry that was not seen free is taken. -/
def ReadEntryPoint.SawTaken (stored : CatalogEntry) (point : ReadEntryPoint) : Prop :=
  ∀ state, point.state? = some state → state ≠ .free → stored.Marked

/-- What was loaded so far is what counts of the entry. -/
def ReadEntryPoint.Agrees (stored : CatalogEntry) : ReadEntryPoint → Prop
  | .loadState => True
  | .readNameLen state => state.Taken ↔ stored.Marked
  | .readName state _ => state.Taken ↔ stored.Marked
  | .loadOffset state _ => state.Taken ↔ stored.Marked
  | .loadSize state _ offset =>
    (state.Taken ↔ stored.Marked) ∧ (stored.Marked → offset = stored.offset)
  | .loadEpoch state name offset size =>
    (⟨state, name, offset, size, 0⟩ : CatalogEntry).Agrees stored

section ReadEntry

variable {index : ℕ} {point : ReadEntryPoint}

theorem ReadEntryPoint.SawTaken.step
    (hsaw : point.SawTaken (CatalogEntry.ofMemory memory base index))
    (htaken : IsFree base memory index ∨ (CatalogEntry.ofMemory memory base index).Marked) :
    ((Catalog.readEntry base index point).exec memory).1.fold
      (ReadEntryPoint.SawTaken (CatalogEntry.ofMemory memory base index))
      fun entry ↦ entry.state ≠ .free → (CatalogEntry.ofMemory memory base index).Marked := by
  cases point with
  | loadState =>
    rintro state hstate hne
    obtain rfl := Option.some.inj hstate
    exact htaken.resolve_left hne
  | readNameLen state =>
    have hsame : ∀ next : ReadEntryPoint, next.state? = some state →
        next.SawTaken (CatalogEntry.ofMemory memory base index) :=
      fun next hnext other hother ↦ hsaw other (hnext.symm.trans hother ▸ rfl)
    simp only [Catalog.readEntry, BackendCall.exec]
    split_ifs <;> exact hsame _ rfl
  | readName state nameLen => exact fun other hother ↦ hsaw other hother
  | loadOffset state name => exact fun other hother ↦ hsaw other hother
  | loadSize state name offset => exact fun other hother ↦ hsaw other hother
  | loadEpoch state name offset size => exact fun hne ↦ hsaw state rfl hne

theorem ReadEntryPoint.Agrees.step
    (hagrees : point.Agrees (CatalogEntry.ofMemory memory base index)) :
    ((Catalog.readEntry base index point).exec memory).1.fold
      (ReadEntryPoint.Agrees (CatalogEntry.ofMemory memory base index))
      fun entry ↦ entry.Agrees (CatalogEntry.ofMemory memory base index) := by
  cases point with
  | loadState => exact Iff.rfl
  | readNameLen state =>
    simp only [Catalog.readEntry, BackendCall.exec]
    split_ifs <;> exact hagrees
  | readName state nameLen => exact hagrees
  | loadOffset state name => exact ⟨hagrees, fun _ ↦ rfl⟩
  | loadSize state name offset => exact ⟨hagrees.1, hagrees.2, fun _ ↦ rfl⟩
  | loadEpoch state name offset size => exact ⟨hagrees.marked, hagrees.offset, hagrees.size⟩

/-- The state that was loaded is that of the entry. -/
theorem ReadEntryPoint.state_step
    (hstate : ∀ state, point.state? = some state →
      state = (CatalogEntry.ofMemory memory base index).state) :
    ((Catalog.readEntry base index point).exec memory).1.fold
      (fun next ↦ ∀ state, next.state? = some state →
        state = (CatalogEntry.ofMemory memory base index).state)
      fun entry ↦ entry.state = (CatalogEntry.ofMemory memory base index).state := by
  cases point with
  | loadState => exact fun state hloaded ↦ (Option.some.inj hloaded).symm
  | readNameLen state =>
    simp only [Catalog.readEntry, BackendCall.exec]
    split_ifs <;> exact hstate
  | loadEpoch state name offset size => exact hstate state rfl
  | _ => exact hstate

/-- What agrees with an entry agrees with it later, when the entry does. -/
theorem ReadEntryPoint.Agrees.mono {stored after : CatalogEntry} (hagrees : point.Agrees stored)
    (hafter : after.Agrees stored) : point.Agrees after := by
  cases point with
  | loadState => trivial
  | readNameLen state => exact Iff.trans hagrees hafter.marked.symm
  | readName state nameLen => exact Iff.trans hagrees hafter.marked.symm
  | loadOffset state name => exact Iff.trans hagrees hafter.marked.symm
  | loadSize state name offset =>
    refine ⟨hagrees.1.trans hafter.marked.symm, fun hmarked ↦ ?_⟩
    rw [hagrees.2 (hafter.marked.mp hmarked), hafter.offset (hafter.marked.mp hmarked)]
  | loadEpoch state name offset size => exact CatalogEntry.Agrees.trans hagrees hafter.symm

end ReadEntry

/-! ### What a creator knows -/

/-- The loop of `find_free_slot` has passed taken entries only. -/
structure SlotSearch (base : ℕ) (memory : Memory) (loop : EntryLoop Unit) : Prop where
  index_lt : loop.index < maxRegions
  below : TakenBelow base memory loop.index
  saw : loop.point.SawTaken (CatalogEntry.ofMemory memory base loop.index)

/-- A slot with all below it taken. -/
structure ChosenSlot (base : ℕ) (memory : Memory) (slot : ℕ) : Prop where
  slot_lt : slot < maxRegions
  below : TakenBelow base memory slot

theorem SlotSearch.chosen {loop : EntryLoop Unit} (hsearch : SlotSearch base memory loop) :
    ChosenSlot base memory loop.index := ⟨hsearch.index_lt, hsearch.below⟩

/-- The loop of `next_free_offset` has the largest end of the entries it has passed. -/
structure OffsetSearch (base : ℕ) (memory : Memory) (loop : EntryLoop ℕ) : Prop where
  index_lt : loop.index < maxRegions
  gathered : loop.gathered = endBelow base memory loop.index
  agrees : loop.point.Agrees (CatalogEntry.ofMemory memory base loop.index)

/-- What a creator knows while it searches. What it has seen of the ends counts while its slot is
free. -/
def CreatePoint.Knows (base : ℕ) (memory : Memory) : CreatePoint → Prop
  | .findFreeSlot loop => SlotSearch base memory loop
  | .loadDataStart slot => ChosenSlot base memory slot
  | .nextFreeOffset slot loop =>
    ChosenSlot base memory slot ∧ (IsFree base memory slot → OffsetSearch base memory loop)
  | .writeEntry slot regionOffset .writeNameLen =>
    ChosenSlot base memory slot ∧
      (IsFree base memory slot → regionOffset = nextOffset base memory)
  | _ => True

/-- A creator in flight knows what its program point says. -/
def AllocCall.Knows (base : ℕ) (memory : Memory) : AllocCall → Prop
  | .createRegion name _ (.running point) =>
    (asBytes name).length ≤ maxNameLen ∧ point.Knows base memory
  | .createRegion _ _ (.returned _) => True
  | _ => False

theorem ChosenSlot.mono (hlater : Later base memory later) (hchosen : ChosenSlot base memory slot) :
    ChosenSlot base later slot :=
  ⟨hchosen.slot_lt, hlater.takenBelow (Nat.le_of_lt hchosen.slot_lt) hchosen.below⟩

/-- What a creator knows stays so. -/
theorem CreatePoint.Knows.mono (hlater : Later base memory later) {point : CreatePoint}
    (hknows : point.Knows base memory) : point.Knows base later := by
  have hfresh : ∀ {slot}, ChosenSlot base memory slot → IsFree base later slot →
      IsFree base memory slot ∧ ∀ other < maxRegions,
        (CatalogEntry.ofMemory later base other).Agrees
        (CatalogEntry.ofMemory memory base other) :=
    fun hchosen ↦ hlater.fresh _ hchosen.slot_lt hchosen.below
  cases point with
  | findFreeSlot loop =>
    obtain ⟨hindex, hbelow, hsaw⟩ := hknows
    exact ⟨hindex, hlater.takenBelow (Nat.le_of_lt hindex) hbelow,
      fun state hstate hne ↦ hlater.marked hindex (hsaw state hstate hne)⟩
  | loadDataStart slot => exact ChosenSlot.mono hlater hknows
  | nextFreeOffset slot loop =>
    refine ⟨hknows.1.mono hlater, fun hfree ↦ ?_⟩
    obtain ⟨hbefore, hagrees⟩ := hfresh hknows.1 hfree
    obtain ⟨hindex, hgathered, hpoint⟩ := hknows.2 hbefore
    refine ⟨hindex, ?_, hpoint.mono (hagrees loop.index hindex)⟩
    rw [hgathered, endBelow_congr hlater.dataStart_eq fun other hother ↦
      hagrees other (Nat.lt_trans hother hindex)]
  | writeEntry slot regionOffset point =>
    cases point with
    | writeNameLen =>
      refine ⟨hknows.1.mono hlater, fun hfree ↦ ?_⟩
      obtain ⟨hbefore, hagrees⟩ := hfresh hknows.1 hfree
      rw [hknows.2 hbefore, nextOffset, nextOffset, ← endBelow_maxRegions, ← endBelow_maxRegions,
        endBelow_congr hlater.dataStart_eq hagrees]
    | _ => trivial
  | _ => trivial

theorem AllocCall.Knows.mono (hlater : Later base memory later) {call : AllocCall}
    (hknows : call.Knows base memory) : call.Knows base later := by
  cases call with
  | createRegion name size task =>
    cases task with
    | running point => exact ⟨hknows.1, hknows.2.mono hlater⟩
    | returned result => trivial
  | _ => exact hknows

/-! ### What a creator holds -/

/-- The region a creator writes, from its first store on. -/
def CreatePoint.held (name : String) (size : ℕ) : CreatePoint → Option RegionHandle
  | .writeEntry _ _ .writeNameLen => none
  | .writeEntry slot regionOffset _ => some ⟨slot, name, regionOffset, size⟩
  | .storeActive slot regionOffset => some ⟨slot, name, regionOffset, size⟩
  | .flushActive slot regionOffset => some ⟨slot, name, regionOffset, size⟩
  | .loadCount slot regionOffset => some ⟨slot, name, regionOffset, size⟩
  | .storeCount slot regionOffset _ => some ⟨slot, name, regionOffset, size⟩
  | .flushCount slot regionOffset => some ⟨slot, name, regionOffset, size⟩
  | _ => none

/-- The state of the entry a creator writes. -/
def CreatePoint.state : CreatePoint → RegionState
  | .writeEntry _ _ .flushState => .allocating
  | .storeActive _ _ => .allocating
  | .flushActive _ _ => .active
  | .loadCount _ _ => .active
  | .storeCount _ _ _ => .active
  | .flushCount _ _ => .active
  | _ => .free

/-- The fields of the entry a creator has written. -/
def CreatePoint.Wrote (base : ℕ) (memory : Memory) (region : RegionHandle) : CreatePoint → Prop
  | .writeEntry _ _ .writeName =>
    storedNameLen memory base region.slot = min (asBytes region.name).length maxNameLen
  | .writeEntry _ _ .storeOffset =>
    (CatalogEntry.ofMemory memory base region.slot).name = region.name
  | .writeEntry _ _ .storeSize =>
    (CatalogEntry.ofMemory memory base region.slot).name = region.name ∧
      (CatalogEntry.ofMemory memory base region.slot).offset = region.offset
  | _ => (CatalogEntry.ofMemory memory base region.slot).handle region.slot = region

/-- The region a call holds: the one it writes, and the one it has returned. -/
def AllocCall.held : AllocCall → Option RegionHandle
  | .createRegion name size (.running point) => point.held name size.toNat
  | .createRegion _ _ (.returned (.ok region)) => some region
  | _ => none

/-- The state of the entry a call holds. -/
def AllocCall.heldState : AllocCall → RegionState
  | .createRegion _ _ (.running point) => point.state
  | _ => .active

/-- The fields of the entry a call has written. -/
def AllocCall.Wrote (base : ℕ) (memory : Memory) (region : RegionHandle) : AllocCall → Prop
  | .createRegion _ _ (.running point) => point.Wrote base memory region
  | _ => (CatalogEntry.ofMemory memory base region.slot).handle region.slot = region

/-- Whether a call has counted its region. -/
def AllocCall.counted : AllocCall → Bool
  | .createRegion _ _ (.running (.flushCount _ _)) => true
  | .createRegion _ _ (.returned (.ok _)) => true
  | _ => false

/-- The call has begun to write a slot, and not yet taken it. -/
def AllocCall.Writes (slot : ℕ) (call : AllocCall) : Prop :=
  ∃ region, call.held = some region ∧ region.slot = slot ∧ call.heldState = .free

/-- The call has taken a slot. -/
def AllocCall.Took (slot : ℕ) (call : AllocCall) : Prop :=
  ∃ region, call.held = some region ∧ region.slot = slot ∧ call.heldState ≠ .free

/-- What the catalog has of a region that a call holds. -/
structure RegionHeld (base : ℕ) (memory : Memory) (call : AllocCall) (region : RegionHandle) :
    Prop where
  chosen : ChosenSlot base memory region.slot
  end_lt : region.offset + region.size < 2 ^ 64
  state_eq : (CatalogEntry.ofMemory memory base region.slot).state = call.heldState
  wrote : call.Wrote base memory region

/-- What a call holds is in the catalog as far as it was written. -/
def AllocCall.Holds (base : ℕ) (memory : Memory) (call : AllocCall) : Prop :=
  ∀ region, call.held = some region → RegionHeld base memory call region

/-- What a call has written stays so, when its entry is left. -/
theorem AllocCall.Wrote.congr {region : RegionHandle} {call : AllocCall}
    (hsame : SameEntry base region.slot later memory) (hwrote : call.Wrote base memory region) :
    call.Wrote base later region := by
  have hentry := CatalogEntry.ofMemory_congr hsame
  have hlength : storedNameLen later base region.slot = storedNameLen memory base region.slot := by
    rw [storedNameLen, storedNameLen, hsame.load (by decide : entNameLen + 2 ≤ catalogEntrySize)]
  cases call with
  | createRegion name size task =>
    cases task with
    | running point =>
      cases point with
      | writeEntry slot regionOffset point =>
        cases point <;>
          simpa only [AllocCall.Wrote, CreatePoint.Wrote, hentry, hlength] using hwrote
      | _ => simpa only [AllocCall.Wrote, CreatePoint.Wrote, hentry] using hwrote
    | returned result => simpa only [AllocCall.Wrote, hentry] using hwrote
  | _ => simpa only [AllocCall.Wrote, hentry] using hwrote

/-- What a call holds stays so, when its entry is left. -/
theorem AllocCall.Holds.mono (hlater : Later base memory later) {call : AllocCall}
    (hholds : call.Holds base memory)
    (hsame : ∀ region, call.held = some region → SameEntry base region.slot later memory) :
    call.Holds base later := by
  intro region hregion
  obtain ⟨hchosen, hend, hstate, hwrote⟩ := hholds region hregion
  refine ⟨hchosen.mono hlater, hend, ?_, hwrote.congr (hsame region hregion)⟩
  rw [CatalogEntry.ofMemory_congr (hsame region hregion), hstate]

/-- A call that holds a region has not taken it only while it writes it. -/
theorem RegionHeld.marked {call : AllocCall} {region : RegionHandle}
    (hheld : RegionHeld base memory call region) (htaken : call.heldState ≠ .free) :
    (CatalogEntry.ofMemory memory base region.slot).Marked ∧
      (CatalogEntry.ofMemory memory base region.slot).handle region.slot = region := by
  obtain ⟨-, -, hstate, hwrote⟩ := hheld
  unfold CatalogEntry.Marked
  rw [hstate]
  cases call with
  | createRegion name size task =>
    cases task with
    | running point =>
      cases point with
      | writeEntry slot regionOffset point =>
        cases point <;> first | exact absurd rfl htaken | exact ⟨Or.inr rfl, hwrote⟩
      | storeActive slot regionOffset => exact ⟨Or.inr rfl, hwrote⟩
      | flushActive slot regionOffset => exact ⟨Or.inl rfl, hwrote⟩
      | loadCount slot regionOffset => exact ⟨Or.inl rfl, hwrote⟩
      | storeCount slot regionOffset count => exact ⟨Or.inl rfl, hwrote⟩
      | flushCount slot regionOffset => exact ⟨Or.inl rfl, hwrote⟩
      | _ => exact absurd rfl htaken
    | returned result => exact ⟨Or.inl rfl, hwrote⟩
  | _ => exact ⟨Or.inl rfl, hwrote⟩

end Fence
