import Fence.Abstract.RegionTable
import Fence.Alloc.CallsAlone
import Mathlib.Algebra.Order.Interval.Finset.SuccPred
import Mathlib.Data.Nat.SuccPred
import Mathlib.Order.Interval.Finset.Nat

/-!
# What allocator calls leave

The catalog after a call, entry by entry and word by word: `create_region` changes one entry and
adds one to the count, `free_region` frees one entry and takes one off, `recover` frees the entries
that were in transition, and `init` frees all.
-/

set_option autoImplicit false
set_option relaxedAutoImplicit false

namespace Fence

open ByteMemory Interleaving

variable {base poolSize slot other : ℕ} {memory : Memory}

/-! ### Header words -/

theorem loadWord_store_entry {field width offset : ℕ} {bytes : List UInt8}
    (hfield : field + width ≤ catalogHeaderSize) (hoffset : entryOffset base slot ≤ offset) :
    loadWord (store memory offset bytes) (base + field) width =
      loadWord memory (base + field) width := by
  have hheader := header_le_entryOffset base slot
  exact loadWord_store_outside (Or.inl (by omega))

/-- Writing an entry leaves the words of the header. -/
theorem loadWord_writtenEntry {field width : ℕ} {entry : CatalogEntry}
    (hfield : field + width ≤ catalogHeaderSize) :
    loadWord (writtenEntry memory base slot entry) (base + field) width =
      loadWord memory (base + field) width := by
  have hheader := header_le_entryOffset base slot
  exact loadWord_congr (load_congr fun i hi ↦ writtenEntry_apply_outside (Or.inl (by omega)))

theorem loadWord_activatedMemory {field width : ℕ} {entry : CatalogEntry}
    (hfield : field + width ≤ catalogHeaderSize) :
    loadWord (activatedMemory base slot entry memory) (base + field) width =
      loadWord memory (base + field) width :=
  (loadWord_store_entry hfield (Nat.le_add_right (entryOffset base slot) _)).trans
    (loadWord_writtenEntry hfield)

theorem loadWord_releasedMemory {field width : ℕ} (hfield : field + width ≤ catalogHeaderSize) :
    loadWord (releasedMemory base slot memory) (base + field) width =
      loadWord memory (base + field) width :=
  (loadWord_store_entry hfield (Nat.le_add_right (entryOffset base slot) _)).trans
    (loadWord_store_entry hfield (Nat.le_add_right (entryOffset base slot) _))

/-! ### The count -/

theorem sameEntry_storeCount (base slot : ℕ) (memory : Memory) (count : ℕ) :
    SameEntry base slot (storeCount base memory count) memory := by
  have hheader := header_le_entryOffset base slot
  refine sameEntry_store (Or.inl ?_)
  rw [length_leBytes]
  unfold catHdrRegionCount catalogHeaderSize at *
  omega

theorem regionCount_storeCount (base : ℕ) (memory : Memory) (count : ℕ) :
    regionCount base (storeCount base memory count) = count % 2 ^ 64 :=
  loadWord_storeWord_self _ _ _ _

theorem dataStart_storeCount (base : ℕ) (memory : Memory) (count : ℕ) :
    dataStart base (storeCount base memory count) = dataStart base memory :=
  loadWord_store_outside (Or.inr (by
    simp only [length_leBytes, catHdrRegionCount, catHdrDataStart]
    omega))

theorem magic_storeCount (base : ℕ) (memory : Memory) (count : ℕ) :
    loadWord (storeCount base memory count) (base + catHdrMagic) 8 =
      loadWord memory (base + catHdrMagic) 8 :=
  loadWord_store_outside (Or.inl (by
    simp only [catHdrRegionCount, catHdrMagic]
    omega))

/-! ### Creating -/

section Create

variable {entry : CatalogEntry}

theorem sameEntry_activatedMemory (hne : other ≠ slot) :
    SameEntry base other (activatedMemory base slot entry memory) memory := by
  intro i hi
  have hdisjoint := @entryOffset_disjoint base other slot hne
  have hsize : catalogEntrySize = 64 := rfl
  have hstate : entState = 0 := rfl
  unfold activatedMemory
  rw [store_apply_outside (by rw [List.length_singleton]; omega),
    writtenEntry_apply_outside (by omega)]

/-- A region that was created is active. -/
theorem ofMemory_createdMemory_self (hfits : entry.Fits) :
    CatalogEntry.ofMemory (createdMemory base slot entry memory) base slot =
      { entry with state := .active } := by
  rw [createdMemory, CatalogEntry.ofMemory_congr (sameEntry_storeCount base slot _ _),
    activatedMemory, CatalogEntry.ofMemory_store_state, CatalogEntry.ofMemory_writtenEntry hfits]

theorem ofMemory_createdMemory_ne (hne : other ≠ slot) :
    CatalogEntry.ofMemory (createdMemory base slot entry memory) base other =
      CatalogEntry.ofMemory memory base other := by
  rw [createdMemory, CatalogEntry.ofMemory_congr (sameEntry_storeCount base other _ _),
    CatalogEntry.ofMemory_congr (sameEntry_activatedMemory hne)]

theorem regionCount_createdMemory :
    regionCount base (createdMemory base slot entry memory) =
      (regionCount base memory + 1) % 2 ^ 64 := by
  rw [createdMemory, regionCount_storeCount, regionCount, regionCount,
    loadWord_activatedMemory (by decide : catHdrRegionCount + 8 ≤ catalogHeaderSize)]

theorem dataStart_createdMemory :
    dataStart base (createdMemory base slot entry memory) = dataStart base memory := by
  rw [createdMemory, dataStart_storeCount, dataStart, dataStart,
    loadWord_activatedMemory (by decide : catHdrDataStart + 8 ≤ catalogHeaderSize)]

end Create

/-! ### Freeing -/

theorem ofMemory_releasedMemory_self :
    CatalogEntry.ofMemory (releasedMemory base slot memory) base slot =
      { CatalogEntry.ofMemory memory base slot with state := .free } := by
  rw [releasedMemory, CatalogEntry.ofMemory_store_state, CatalogEntry.ofMemory_store_state]

theorem sameEntry_store_state (hne : other ≠ slot) (value : UInt8) :
    SameEntry base other (store memory (entryOffset base slot + entState) [value]) memory := by
  have hdisjoint := @entryOffset_disjoint base other slot hne
  have hsize : catalogEntrySize = 64 := rfl
  have hstate : entState = 0 := rfl
  refine sameEntry_store ?_
  rw [List.length_singleton]
  omega

theorem ofMemory_releasedMemory_ne (hne : other ≠ slot) :
    CatalogEntry.ofMemory (releasedMemory base slot memory) base other =
      CatalogEntry.ofMemory memory base other :=
  CatalogEntry.ofMemory_congr ((sameEntry_store_state hne _).trans (sameEntry_store_state hne _))

theorem sameEntry_countedOff (base slot : ℕ) (memory : Memory) :
    SameEntry base slot (countedOff base memory) memory := by
  unfold countedOff
  split_ifs
  · exact sameEntry_storeCount base slot _ _
  · exact .refl base slot memory

theorem regionCount_countedOff :
    regionCount base (countedOff base memory) = regionCount base memory - 1 := by
  have hlt : regionCount base memory < 2 ^ 64 := loadWord_lt memory _ 8
  unfold countedOff
  split_ifs with hpos
  · rw [regionCount_storeCount]
    exact Nat.mod_eq_of_lt (by omega)
  · omega

theorem dataStart_countedOff :
    dataStart base (countedOff base memory) = dataStart base memory := by
  unfold countedOff
  split_ifs
  · exact dataStart_storeCount base _ _
  · rfl

theorem magic_countedOff : loadWord (countedOff base memory) (base + catHdrMagic) 8 =
    loadWord memory (base + catHdrMagic) 8 := by
  unfold countedOff
  split_ifs
  · exact magic_storeCount base _ _
  · rfl

theorem ofMemory_freedMemory :
    CatalogEntry.ofMemory (freedMemory base slot memory) base other =
      CatalogEntry.ofMemory (releasedMemory base slot memory) base other :=
  CatalogEntry.ofMemory_congr (sameEntry_countedOff base other _)

theorem regionCount_freedMemory :
    regionCount base (freedMemory base slot memory) = regionCount base memory - 1 := by
  rw [freedMemory, regionCount_countedOff, regionCount, regionCount,
    loadWord_releasedMemory (by decide : catHdrRegionCount + 8 ≤ catalogHeaderSize)]

theorem dataStart_freedMemory :
    dataStart base (freedMemory base slot memory) = dataStart base memory := by
  rw [freedMemory, dataStart_countedOff, dataStart, dataStart,
    loadWord_releasedMemory (by decide : catHdrDataStart + 8 ≤ catalogHeaderSize)]

/-! ### Recovering -/

/-- The state of an entry that recovery frees. -/
def RegionState.InTransition (state : RegionState) : Prop :=
  state = .allocating ∨ state = .freeing

instance (state : RegionState) : Decidable state.InTransition := inferInstanceAs (Decidable (_ ∨ _))

theorem not_inTransition_of_active {state : RegionState} (hactive : state = .active) :
    ¬ state.InTransition := by
  rw [hactive]
  decide

/-- The entries in transition from one slot on were freed, and nothing else has changed. -/
structure CatalogRecovered (base index : ℕ) (memory later : Memory) : Prop where
  entry : ∀ slot < maxRegions, CatalogEntry.ofMemory later base slot =
    if index ≤ slot ∧ (CatalogEntry.ofMemory memory base slot).state.InTransition then
      { CatalogEntry.ofMemory memory base slot with state := .free }
    else CatalogEntry.ofMemory memory base slot
  outside : ∀ address < base + catalogHeaderSize, later address = memory address
  unchanged : (∀ slot < maxRegions, index ≤ slot →
    ¬ (CatalogEntry.ofMemory memory base slot).state.InTransition) → later = memory

/-- Reading the entry at the head of the loop. -/
theorem recoverCatalog_entry_ends (index fixed : ℕ) :
    (allocatorMachine base poolSize).Ends
      (.recover (.running (.readEntry index fixed .loadState))) memory
      (.recover (CatalogRecoverPoint.body index fixed (CatalogEntry.ofMemory memory base index)))
      memory := by
  refine routine_ends_inside (fun task ↦ AllocCall.recover
    (task.fold (fun point ↦ .running (.readEntry index fixed point))
      (CatalogRecoverPoint.body index fixed))) ?_ (readEntry_ends base index memory)
  intro point memory
  refine ((@AllocCall.runs_recover base poolSize).step_running
    (.readEntry index fixed point) memory).trans ?_
  rw [RegionAllocator.recover, BackendCall.exec_map]

/-- The slots of the entries in transition from one slot on. -/
def transitionSlots (base index : ℕ) (memory : Memory) : Finset ℕ :=
  (Finset.Ico index maxRegions).filter fun slot ↦
    (CatalogEntry.ofMemory memory base slot).state.InTransition

theorem mem_transitionSlots {index : ℕ} : slot ∈ transitionSlots base index memory ↔
    (index ≤ slot ∧ slot < maxRegions) ∧
      (CatalogEntry.ofMemory memory base slot).state.InTransition := by
  rw [transitionSlots, Finset.mem_filter, Finset.mem_Ico]

/-- The slots past one are the same in memories that agree on their entries. -/
theorem transitionSlots_congr {first second : Memory} {index : ℕ}
    (hsame : ∀ slot, index ≤ slot → CatalogEntry.ofMemory first base slot =
      CatalogEntry.ofMemory second base slot) :
    transitionSlots base index first = transitionSlots base index second :=
  Finset.filter_congr fun slot hslot ↦ by rw [hsame slot (Finset.mem_Ico.mp hslot).1]

/-- The slot at the head of the loop is in transition or not. -/
theorem card_transitionSlots {index : ℕ} (hindex : index < maxRegions) :
    (transitionSlots base index memory).card =
      (transitionSlots base (index + 1) memory).card +
        if (CatalogEntry.ofMemory memory base index).state.InTransition then 1 else 0 := by
  have hnot : index ∉ transitionSlots base (index + 1) memory := fun hmem ↦
    Nat.not_succ_le_self index (mem_transitionSlots.mp hmem).1.1
  rw [transitionSlots, ← Finset.insert_Ico_add_one_left_eq_Ico hindex, Finset.filter_insert]
  split_ifs with htransition
  · exact Finset.card_insert_of_notMem hnot
  · rfl

/-- The loop of `recover` frees the entries in transition, and counts them. -/
theorem recoverCatalog_counts (base poolSize index fixed : ℕ) (memory : Memory) :
    ∃ later, (allocatorMachine base poolSize).Ends
        (.recover (CatalogRecoverPoint.head index fixed)) memory
        (.recover (.returned (fixed + (transitionSlots base index memory).card))) later ∧
      CatalogRecovered base index memory later := by
  induction hleft : maxRegions - index generalizing index fixed memory with
  | zero =>
    have hindex : maxRegions ≤ index := Nat.sub_eq_zero_iff_le.mp hleft
    refine ⟨memory, ?_, ?_, fun _ _ ↦ rfl, fun _ ↦ rfl⟩
    · rw [CatalogRecoverPoint.head, if_neg (Nat.not_lt.mpr hindex), transitionSlots,
        Finset.Ico_eq_empty_of_le hindex, Finset.filter_empty, Finset.card_empty, Nat.add_zero]
      exact .refl _ _
    · intro slot hslot
      rw [if_neg fun hpast ↦ Nat.not_le_of_lt hslot (Nat.le_trans hindex hpast.1)]
  | succ left ih =>
    have hindex : index < maxRegions := by omega
    rw [CatalogRecoverPoint.head, if_pos hindex, card_transitionSlots hindex]
    by_cases htransition : (CatalogEntry.ofMemory memory base index).state.InTransition
    · obtain ⟨later, hends, hlater⟩ := ih (index + 1) (fixed + 1)
        (store memory (entryOffset base index + entState) [RegionState.free.toU8]) (by omega)
      have hpast : transitionSlots base (index + 1)
          (store memory (entryOffset base index + entState) [RegionState.free.toU8]) =
          transitionSlots base (index + 1) memory := transitionSlots_congr fun slot hslot ↦
        CatalogEntry.ofMemory_congr (sameEntry_store_state (Nat.ne_of_gt hslot) _)
      rw [hpast, Nat.add_right_comm, Nat.add_assoc] at hends
      rw [if_pos htransition]
      refine ⟨later, recoverCatalog_entry_ends index fixed |>.trans ?_, ?_, ?_, ?_⟩
      · have hbody : (CatalogEntry.ofMemory memory base index).state = .allocating ∨
            (CatalogEntry.ofMemory memory base index).state = .freeing := htransition
        rw [CatalogRecoverPoint.body, if_pos hbody]
        exact AllocCall.runs_recover.ends_step (AllocCall.runs_recover.ends_step hends)
      · intro slot hslot
        rw [hlater.entry slot hslot]
        by_cases hsame : slot = index
        · subst hsame
          rw [CatalogEntry.ofMemory_store_state, if_neg (fun hpast ↦ by omega),
            if_pos ⟨Nat.le_refl _, htransition⟩]
        · rw [CatalogEntry.ofMemory_congr (sameEntry_store_state hsame _)]
          congr 1
          simp only [eq_iff_iff, and_congr_left_iff]
          omega
      · intro address haddress
        have hheader := header_le_entryOffset base index
        rw [hlater.outside address haddress, store_apply_outside (Or.inl (by omega))]
      · exact fun hnone ↦ absurd htransition (hnone index hindex (Nat.le_refl _))
    · obtain ⟨later, hends, hlater⟩ := ih (index + 1) fixed memory (by omega)
      rw [if_neg htransition, Nat.add_zero]
      refine ⟨later, recoverCatalog_entry_ends index fixed |>.trans ?_, ?_, hlater.outside, ?_⟩
      · have hbody : ¬ ((CatalogEntry.ofMemory memory base index).state = .allocating ∨
            (CatalogEntry.ofMemory memory base index).state = .freeing) := htransition
        rw [CatalogRecoverPoint.body, if_neg hbody]
        exact hends
      · intro slot hslot
        rw [hlater.entry slot hslot]
        by_cases hsame : slot = index
        · subst hsame
          rw [if_neg (fun hpast ↦ by omega), if_neg fun hpast ↦ htransition hpast.2]
        · congr 1
          simp only [eq_iff_iff, and_congr_left_iff]
          omega
      · exact fun hnone ↦ hlater.unchanged fun slot hslot hpast ↦ hnone slot hslot (by omega)

/-- The loop of `recover` frees the entries in transition. -/
theorem recoverCatalog_head_ends (base poolSize index fixed : ℕ) (memory : Memory) :
    ∃ count later, (allocatorMachine base poolSize).Ends
        (.recover (CatalogRecoverPoint.head index fixed)) memory
        (.recover (.returned count)) later ∧
      CatalogRecovered base index memory later :=
  ⟨_, recoverCatalog_counts base poolSize index fixed memory⟩

/-- Recovery frees no region. -/
theorem CatalogRecovered.activeRegions_eq {later : Memory}
    (hrecovered : CatalogRecovered base 0 memory later) :
    activeRegions base later = activeRegions base memory := by
  refine activeRegions_congr fun slot hslot ↦ ?_
  have hentry := hrecovered.entry slot hslot
  by_cases htransition : (CatalogEntry.ofMemory memory base slot).state.InTransition
  · rw [if_pos ⟨Nat.zero_le _, htransition⟩] at hentry
    rw [regionAt_eq_none_iff.mpr fun hactive ↦ not_inTransition_of_active hactive htransition,
      regionAt_eq_none_iff, hentry]
    exact RegionState.noConfusion
  · rw [if_neg fun hpast ↦ htransition hpast.2] at hentry
    rw [regionAt, regionAt, hentry]

/-- Recovery leaves no entry in transition. -/
theorem CatalogRecovered.not_inTransition {later : Memory}
    (hrecovered : CatalogRecovered base 0 memory later) (hslot : slot < maxRegions) :
    ¬ (CatalogEntry.ofMemory later base slot).state.InTransition := by
  rw [hrecovered.entry slot hslot]
  split_ifs with hpast
  · exact fun htransition ↦ htransition.elim RegionState.noConfusion RegionState.noConfusion
  · exact fun htransition ↦ hpast ⟨Nat.zero_le _, htransition⟩

/-! ### Initialising and opening -/

/-- A catalog with no regions. -/
structure EmptyCatalog (base : ℕ) (memory : Memory) : Prop where
  magic : loadWord memory (base + catHdrMagic) 8 = allocMagic
  regionCount_eq : regionCount base memory = 0
  dataStart_eq : dataStart base memory = (base + catalogSize) % 2 ^ 64
  free : ∀ slot < maxRegions, memory (entryOffset base slot + entState) = RegionState.free.toU8

theorem EmptyCatalog.state_eq (hempty : EmptyCatalog base memory) (hslot : slot < maxRegions) :
    (CatalogEntry.ofMemory memory base slot).state = .free := by
  rw [CatalogEntry.ofMemory, hempty.free slot hslot]
  rfl

/-- The loop of `init` frees the entries from one on. -/
theorem init_head_ends (base poolSize index : ℕ) (memory : Memory) :
    ∃ later, (allocatorMachine base poolSize).Ends (.init (InitPoint.head index)) memory
        (.init (.returned (.ok ()))) later ∧
      (∀ slot < maxRegions, index ≤ slot →
        later (entryOffset base slot + entState) = RegionState.free.toU8) ∧
      ∀ address < entryOffset base index, later address = memory address := by
  induction hleft : maxRegions - index generalizing index memory with
  | zero =>
    have hindex : maxRegions ≤ index := Nat.sub_eq_zero_iff_le.mp hleft
    refine ⟨memory, ?_, fun slot hslot hpast ↦ absurd hslot (by omega), fun _ _ ↦ rfl⟩
    rw [InitPoint.head, if_neg (Nat.not_lt.mpr hindex)]
    exact AllocCall.runs_init.ends_step (.refl _ _)
  | succ left ih =>
    have hindex : index < maxRegions := by omega
    obtain ⟨later, hends, hfree, hsame⟩ := ih (index + 1)
      (store memory (entryOffset base index + entState) [RegionState.free.toU8]) (by omega)
    have hnext : entryOffset base (index + 1) = entryOffset base index + 64 := by
      simp only [entryOffset_eq]
      omega
    refine ⟨later, ?_, fun slot hslot hpast ↦ ?_, fun address haddress ↦ ?_⟩
    · rw [InitPoint.head, if_pos hindex]
      exact AllocCall.runs_init.ends_step hends
    · by_cases hhere : slot = index
      · subst hhere
        rw [hsame _ (by rw [hnext]; unfold entState; omega)]
        exact store_one_self _ _ _
      · exact hfree slot hslot (by omega)
    · rw [hsame address (by omega), store_apply_outside (Or.inl (by omega))]

/-- The memory with the header `init` stores. -/
def initHeader (base poolSize : ℕ) (memory : Memory) : Memory :=
  let memory := storeWord memory (base + catHdrMagic) 8 allocMagic
  let memory := storeWord memory (base + catHdrRegionCount) 8 0
  let memory := storeWord memory (base + catHdrTotalSize) 8 poolSize
  storeWord memory (base + catHdrDataStart) 8 ((base + catalogSize) % 2 ^ 64)

theorem magic_initHeader :
    loadWord (initHeader base poolSize memory) (base + catHdrMagic) 8 = allocMagic := by
  unfold initHeader
  rw [storeWord, loadWord_store_outside (by simp only [catHdrMagic, catHdrDataStart]; omega),
    storeWord, loadWord_store_outside (by simp only [catHdrMagic, catHdrTotalSize]; omega),
    storeWord, loadWord_store_outside (by simp only [catHdrMagic, catHdrRegionCount]; omega),
    loadWord_storeWord_self]
  rfl

theorem regionCount_initHeader : regionCount base (initHeader base poolSize memory) = 0 := by
  unfold regionCount initHeader
  rw [storeWord, loadWord_store_outside (by simp only [catHdrRegionCount, catHdrDataStart]; omega),
    storeWord, loadWord_store_outside (by simp only [catHdrRegionCount, catHdrTotalSize]; omega),
    loadWord_storeWord_self, Nat.zero_mod]

theorem dataStart_initHeader :
    dataStart base (initHeader base poolSize memory) = (base + catalogSize) % 2 ^ 64 := by
  unfold dataStart initHeader
  rw [loadWord_storeWord_self]
  exact Nat.mod_mod _ _

/-- An `init` that is accepted leaves an empty catalog. -/
theorem init_ends (base : ℕ) (memory : Memory) (hsize : catalogSize ≤ poolSize) :
    ∃ later, (allocatorMachine base poolSize).Ends (AllocRequest.init.call poolSize) memory
        (.init (.returned (.ok ()))) later ∧ EmptyCatalog base later := by
  obtain ⟨later, hends, hfree, hsame⟩ :=
    init_head_ends base poolSize 0 (initHeader base poolSize memory)
  have hheader := header_le_entryOffset base 0
  have hword : ∀ field, field + 8 ≤ catalogHeaderSize → loadWord later (base + field) 8 =
      loadWord (initHeader base poolSize memory) (base + field) 8 := by
    intro field hfield
    exact loadWord_congr (load_congr fun i hi ↦ hsame _ (by omega))
  refine ⟨later, ?_, ?_, ?_, ?_, fun slot hslot ↦ hfree slot hslot (Nat.zero_le _)⟩
  · rw [AllocRequest.call, startInit, if_neg (Nat.not_lt.mpr hsize)]
    iterate 5 refine AllocCall.runs_init.ends_step ?_
    exact hends
  · rw [hword catHdrMagic (by decide), magic_initHeader]
  · rw [regionCount, hword catHdrRegionCount (by decide)]
    exact regionCount_initHeader
  · rw [dataStart, hword catHdrDataStart (by decide)]
    exact dataStart_initHeader

/-- A pool that has room for one cacheline behind the catalog. -/
theorem init_ends_one : ∃ later, (allocatorMachine 0 (catalogSize + 64)).Ends
    (AllocRequest.init.call (catalogSize + 64)) (fun _ ↦ 0) (.init (.returned (.ok ()))) later ∧
      EmptyCatalog 0 later := init_ends 0 _ (Nat.le_add_right _ _)

/-- What the call of `init` returns tells whether the pool was large enough. -/
theorem emptyCatalog_of_init {answer : AllocCall} {later : Memory}
    (hinit : (allocatorMachine base poolSize).Ends (AllocRequest.init.call poolSize) memory answer
      later) (hok : answer.answer = some (.ready (.ok ()))) :
    catalogSize ≤ poolSize ∧ EmptyCatalog base later := by
  by_cases hsize : catalogSize ≤ poolSize
  · obtain ⟨ready, hends, hempty⟩ := init_ends base memory hsize
    obtain ⟨-, rfl⟩ := hinit.unique hends (AllocCall.step_of_answer hok) fun _ ↦ rfl
    exact ⟨hsize, hempty⟩
  · have hrefused : (allocatorMachine base poolSize).Ends (AllocRequest.init.call poolSize) memory
        (.init (.returned (.error (.outOfSpace catalogSize poolSize)))) memory := by
      rw [AllocRequest.call, startInit, if_pos (Nat.lt_of_not_le hsize)]
      exact .refl _ _
    obtain ⟨rfl, -⟩ := hinit.unique hrefused (AllocCall.step_of_answer hok) fun _ ↦ rfl
    cases hok

/-! ### Searching an empty catalog -/

section Empty

variable (hempty : EmptyCatalog base memory)

include hempty

theorem EmptyCatalog.activeRegions_eq : activeRegions base memory = [] := by
  refine List.filterMap_eq_nil_iff.mpr fun slot hslot ↦ ?_
  rw [regionAt_eq_none_iff, hempty.state_eq (List.mem_range.mp hslot)]
  decide

theorem EmptyCatalog.catalogEnd_eq : catalogEnd base memory = (base + catalogSize) % 2 ^ 64 := by
  rw [← hempty.dataStart_eq]
  refine Nat.le_antisymm (maxEnd_le (Nat.le_refl _) fun slot entry hmem hmarked ↦ ?_)
    (le_maxEnd _ _)
  obtain ⟨hslot, rfl⟩ := mem_entriesFrom_zero.mp hmem
  exact absurd (hempty.state_eq hslot) hmarked.ne_free

/-- Every creator that searches an empty catalog finds the same slot and the same offset. -/
theorem EmptyCatalog.search_ends
    (hspace : (nextOffset base memory + 64) % 2 ^ 64 ≤ poolEnd base poolSize) :
    ∃ slot, ∀ name, (asBytes name).length ≤ maxNameLen →
      (allocatorMachine base poolSize).Ends
      ((AllocRequest.createRegion name 64).call poolSize) memory
        (.createRegion name 64 (.running (.writeEntry slot (nextOffset base memory) .writeNameLen)))
        memory := by
  rcases result_findFreeSlot base memory with ⟨slot, hslot, -, -, hfound⟩ | ⟨hfull, -⟩
  · refine ⟨slot, fun name hname ↦ ?_⟩
    have hfind := @createRegion_find_ends base poolSize memory name 64 hname
    rcases result_findRegion base memory name with ⟨region, hregion, -⟩ | ⟨-, hnone⟩
    · rw [hempty.activeRegions_eq] at hregion
      cases hregion
    · rw [lookup, hnone] at hfind
      have hslots := hfind.trans (createRegion_slot_ends (.notFound name))
      rw [hfound] at hslots
      have hoffset := hslots.trans (createRegion_offset_ends slot)
      have hroom : ¬ poolEnd base poolSize <
          (nextOffset base memory + (64 : UInt64).toNat) % 2 ^ 64 := Nat.not_lt.mpr hspace
      rwa [CreatePoint.afterOffset, if_neg hroom] at hoffset
  · exact absurd (hempty.state_eq (by decide : 0 < maxRegions)) (hfull 0 (by decide))

end Empty

/-- In a pool that starts with its catalog, the first region follows the catalog. -/
theorem EmptyCatalog.nextOffset_eq (hempty : EmptyCatalog 0 memory) :
    nextOffset 0 memory = catalogSize := by
  rw [nextOffset, hempty.catalogEnd_eq]
  decide

/-- A pool with one cacheline behind the catalog has room for it. -/
theorem EmptyCatalog.room_one (hempty : EmptyCatalog 0 memory) :
    (nextOffset 0 memory + 64) % 2 ^ 64 ≤ poolEnd 0 (catalogSize + 64) := by
  rw [hempty.nextOffset_eq]
  decide

/-! ### Opening -/

/-- `open` looks at the magic number and changes nothing. -/
theorem openPool_ends (base poolSize : ℕ) (memory : Memory) :
    (allocatorMachine base poolSize).Ends (AllocRequest.openPool.call poolSize) memory
      (.openPool (.returned (openResult (loadWord memory (base + catHdrMagic) 8)))) memory :=
  .step (.refl _ _)

theorem openResult_allocMagic : openResult allocMagic = .ok () := if_neg fun hne ↦ hne rfl

/-! ### Requests and errors -/

/-- A request that creates or frees a region. -/
def AllocRequest.Updates : AllocRequest → Prop
  | .createRegion _ _ => True
  | .freeRegion _ => True
  | _ => False

/-- A call that returns an error has changed nothing. -/
theorem eq_of_isError {request : AllocRequest} {call : AllocCall} {given : AllocAnswer}
    {later : Memory}
    (hends : (allocatorMachine base poolSize).Ends (request.call poolSize) memory call later)
    (hgiven : call.answer = some given) (herror : given.IsError) : later = memory := by
  have hunique : ∀ {other : AllocCall} {answered : AllocAnswer} {reached : Memory},
      (allocatorMachine base poolSize).Ends (request.call poolSize) memory other reached →
      other.answer = some answered → answered = given ∧ reached = later := by
    intro other answered reached hother hanswered
    obtain ⟨rfl, rfl⟩ := hother.unique hends (AllocCall.step_of_answer hanswered)
      (AllocCall.step_of_answer hgiven)
    exact ⟨Option.some.inj (hanswered.symm.trans hgiven), rfl⟩
  cases request with
  | init =>
    by_cases hsize : catalogSize ≤ poolSize
    · obtain ⟨reached, hinit, -⟩ := init_ends base memory hsize
      obtain ⟨rfl, -⟩ := hunique hinit rfl
      obtain ⟨error, herror⟩ := herror
      cases herror
    · have hrefused : (allocatorMachine base poolSize).Ends (AllocRequest.init.call poolSize)
          memory (.init (.returned (.error (.outOfSpace catalogSize poolSize)))) memory := by
        rw [AllocRequest.call, startInit, if_pos (Nat.lt_of_not_le hsize)]
        exact .refl _ _
      exact (hunique hrefused rfl).2.symm
  | openPool => exact (hunique (openPool_ends base poolSize memory) rfl).2.symm
  | createRegion name size =>
    obtain ⟨result, reached, hcreated, houtcome⟩ := createRegion_ends base poolSize name size memory
    obtain ⟨rfl, rfl⟩ := hunique hcreated rfl
    obtain ⟨error, rfl⟩ := herror
    cases houtcome <;> rfl
  | freeRegion name =>
    obtain ⟨result, reached, hfreed, houtcome⟩ := freeRegion_ends base poolSize name memory
    obtain ⟨rfl, rfl⟩ := hunique hfreed rfl
    obtain ⟨error, rfl⟩ := herror
    cases houtcome
    rfl
  | findRegion name => exact (hunique (findRegion_ends base poolSize name memory) rfl).2.symm
  | listRegions => exact (hunique (listRegions_ends base poolSize memory) rfl).2.symm
  | recover =>
    obtain ⟨count, reached, hrecovered, -⟩ := recoverCatalog_head_ends base poolSize 0 0 memory
    obtain ⟨rfl, -⟩ := hunique hrecovered rfl
    exact herror.elim

end Fence
