import Fence.Alloc.Catalogued
import Fence.Alloc.CrashFree
import Fence.Alloc.Creators

/-!
# The region count on the way

`create_region` makes a region active before it counts it, and `free_region` takes one off the count
after it has freed it. `Tallies` says by how much the count in the header differs from the active
regions, and `AllocCall.uncounted` and `AllocCall.outdated` what a call owes at each program point.
Every step of every call preserves the tally, so that wherever a call is stopped the count is wrong
by what it owes (`AllocCall.tallies_of_reaches`).
-/

set_option autoImplicit false
set_option relaxedAutoImplicit false

namespace Fence

open ByteMemory Interleaving

variable {base poolSize slot : ℕ} {memory before later : Memory}

/-! ### Tallies -/

/-- The active regions are those counted, and the uncounted ones, less the ones counted that are
gone. -/
def Tallies (base uncounted outdated : ℕ) (memory : Memory) : Prop :=
  (activeRegions base memory).length + outdated = regionCount base memory + uncounted

/-- Nothing but one entry has changed. -/
structure KeptElsewhere (base slot : ℕ) (memory later : Memory) : Prop where
  entry : ∀ other, other ≠ slot → SameEntry base other later memory
  count : regionCount base later = regionCount base memory

theorem KeptElsewhere.refl (base slot : ℕ) (memory : Memory) :
    KeptElsewhere base slot memory memory :=
  ⟨fun other _ ↦ .refl base other memory, rfl⟩

/-- A store to an entry. -/
theorem keptElsewhere_store {field : ℕ} {bytes : List UInt8}
    (hfits : field + bytes.length ≤ catalogEntrySize) :
    KeptElsewhere base slot memory (store memory (entryOffset base slot + field) bytes) where
  entry := by
    intro other hne
    have hdisjoint := @entryOffset_disjoint base other slot hne
    exact sameEntry_store (by omega)
  count := loadWord_store_entry (by decide) (Nat.le_add_right _ _)

/-- A store behind the state of an entry leaves the state. -/
theorem entryByte_store {field : ℕ} {bytes : List UInt8} (hfield : 1 ≤ field) :
    entryByte (store memory (entryOffset base slot + field) bytes) base slot =
      entryByte memory base slot :=
  store_apply_outside (Or.inl (by unfold entState; omega))

section Tallies

variable {uncounted outdated : ℕ}

/-- An entry that is not active and does not become so. -/
theorem Tallies.kept (htallies : Tallies base uncounted outdated memory)
    (hkept : KeptElsewhere base slot memory later)
    (hmemory : entryByte memory base slot ≠ RegionState.active.toU8)
    (hlater : entryByte later base slot ≠ RegionState.active.toU8) :
    Tallies base uncounted outdated later := by
  have hregions : activeRegions base later = activeRegions base memory := by
    refine @activeRegions_eq_of_slot base slot _ _ ?_ fun other _ hne ↦
      regionAt_congr (hkept.entry other hne)
    rw [regionAt_eq_none_iff_entryByte.mpr hmemory, regionAt_eq_none_iff_entryByte.mpr hlater]
  rwa [Tallies, hregions, hkept.count]

/-- Two catalogs that differ in one region. -/
theorem length_of_activated (hslot : slot < maxRegions)
    (hkept : KeptElsewhere base slot memory later)
    (hmemory : entryByte memory base slot ≠ RegionState.active.toU8)
    (hlater : entryByte later base slot = RegionState.active.toU8) :
    (activeRegions base later).length = (activeRegions base memory).length + 1 := by
  have hactive : (CatalogEntry.ofMemory later base slot).state = .active :=
    RegionState.ofByte_eq_active_iff.mpr hlater
  have hmore : OneMore base slot
    ((CatalogEntry.ofMemory later base slot).handle slot) memory later :=
    { slot_lt := hslot
      first_eq := regionAt_eq_none_iff_entryByte.mpr hmemory
      second_eq := regionAt_eq_some_iff.mpr ⟨hactive, rfl⟩
      others := fun other hne ↦ regionAt_congr (hkept.entry other hne) }
  exact hmore.length_eq

/-- An entry becomes active. -/
theorem Tallies.activate (htallies : Tallies base 0 0 memory) (hslot : slot < maxRegions)
    (hmemory : entryByte memory base slot ≠ RegionState.active.toU8) :
    Tallies base 1 0
      (store memory (entryOffset base slot + entState) [RegionState.active.toU8]) := by
  have hkept : KeptElsewhere base slot memory
      (store memory (entryOffset base slot + entState) [RegionState.active.toU8]) :=
    keptElsewhere_store (by decide)
  have hlength := length_of_activated hslot hkept hmemory (store_one_self _ _ _)
  rw [Tallies, hlength, hkept.count]
  exact congrArg (· + 1) htallies

/-- An active entry is given up. -/
theorem Tallies.release (htallies : Tallies base 0 0 memory) (hslot : slot < maxRegions)
    (hmemory : entryByte memory base slot = RegionState.active.toU8) :
    Tallies base 0 1
      (store memory (entryOffset base slot + entState) [RegionState.freeing.toU8]) := by
  have hkept : KeptElsewhere base slot memory
      (store memory (entryOffset base slot + entState) [RegionState.freeing.toU8]) :=
    keptElsewhere_store (by decide)
  have hback : KeptElsewhere base slot
      (store memory (entryOffset base slot + entState) [RegionState.freeing.toU8]) memory :=
    ⟨fun other hne ↦ (hkept.entry other hne).symm, hkept.count.symm⟩
  have hreleased : entryByte (store memory (entryOffset base slot + entState)
      [RegionState.freeing.toU8]) base slot ≠ RegionState.active.toU8 := by
    rw [entryByte, store_one_self]
    decide
  rw [Tallies, ← length_of_activated hslot hback hreleased hmemory, hkept.count]
  exact htallies

/-- The count catches up with a region that was made active. -/
theorem Tallies.countOn (htallies : Tallies base 1 0 memory) :
    Tallies base 0 0 (storeCount base memory (regionCount base memory + 1)) := by
  have hlength := length_activeRegions_le base memory
  have hsmall : maxRegions < 2 ^ 64 := by decide
  unfold Tallies at htallies ⊢
  rw [activeRegions_storeCount, regionCount_storeCount, Nat.mod_eq_of_lt (by omega)]
  exact htallies

/-- The count catches up with a region that was given up. -/
theorem Tallies.countOff (htallies : Tallies base 0 1 memory) :
    Tallies base 0 0 (storeCount base memory (regionCount base memory - 1)) := by
  have hcount : regionCount base memory < 2 ^ 64 := loadWord_lt _ _ _
  unfold Tallies at htallies ⊢
  rw [activeRegions_storeCount, regionCount_storeCount, Nat.mod_eq_of_lt (by omega)]
  omega

end Tallies

/-! ### What a call owes -/

/-- The regions that are active and not counted yet. -/
def CreatePoint.uncounted : CreatePoint → ℕ
  | .flushActive _ _ => 1
  | .loadCount _ _ => 1
  | .storeCount _ _ _ => 1
  | _ => 0

/-- The regions that are counted and not active any more. -/
def FreePoint.outdated : FreePoint → ℕ
  | .flushFreeing _ => 1
  | .storeFree _ => 1
  | .flushFree _ => 1
  | .loadCount => 1
  | .storeCount _ => 1
  | _ => 0

def AllocCall.uncounted : AllocCall → ℕ
  | .createRegion _ _ (.running point) => point.uncounted
  | _ => 0

def AllocCall.outdated : AllocCall → ℕ
  | .freeRegion _ (.running point) => point.outdated
  | _ => 0

/-- A call has changed which regions are active and not yet the count. -/
def AllocCall.OwesCount (call : AllocCall) : Prop := 0 < call.uncounted ∨ 0 < call.outdated

instance (call : AllocCall) : Decidable call.OwesCount := inferInstanceAs (Decidable (_ ∨ _))

/-- The count is wrong exactly when the call owes it something. -/
theorem AllocCall.count_eq_iff {call : AllocCall}
    (htallies : Tallies base call.uncounted call.outdated memory) :
    regionCount base memory = (activeRegions base memory).length ↔ ¬ call.OwesCount := by
  unfold Tallies at htallies
  have hone : call.uncounted = 0 ∨ call.outdated = 0 := by
    cases call with
    | createRegion name size task => exact Or.inr rfl
    | _ => exact Or.inl rfl
  unfold AllocCall.OwesCount
  omega

/-! ### Calls that run alone -/

/-- What every step preserves holds wherever a call gets to. The steps may use what the call will
return. -/
theorem AllocCall.Runs.reaches_alone {Point Result : Type} {inside : Task Point Result → AllocCall}
    {routine : Point → BackendCall (Task Point Result)}
    (hruns : AllocCall.Runs base poolSize inside routine) {task : Task Point Result}
    {call result : AllocCall} {given : AllocAnswer}
    (hreaches : (allocatorMachine base poolSize).Reaches (inside task) before call memory)
    (hends : (allocatorMachine base poolSize).Ends (inside task) before result later)
    (hgiven : result.answer = some given)
    (safe : Task Point Result → Memory → Prop) (hinit : safe task before)
    (hstep : ∀ point memory, safe (.running point) memory →
      (allocatorMachine base poolSize).Ends (inside ((routine point).exec memory).1)
        ((routine point).exec memory).2 result later →
      safe ((routine point).exec memory).1 ((routine point).exec memory).2) :
    ∃ task, call = inside task ∧ safe task memory := by
  refine (hreaches.invariant (fun call memory ↦ (∃ task, call = inside task ∧ safe task memory) ∧
    (allocatorMachine base poolSize).Ends call memory result later) ?_ (fun event ↦ event.elim)
    ⟨⟨task, rfl, hinit⟩, hends⟩).1
  rintro call memory ⟨⟨task, rfl, hsafe⟩, hends⟩
  have hnext := hends.next (AllocCall.step_of_answer hgiven)
  refine ⟨?_, hnext⟩
  cases task with
  | returned done =>
    have hhalted : (allocatorMachine base poolSize).step (inside (.returned done)) memory = _ :=
      hruns.step_returned done memory
    rw [hhalted]
    exact ⟨.returned done, rfl, hsafe⟩
  | running point =>
    have hone : (allocatorMachine base poolSize).step (inside (.running point)) memory = _ :=
      hruns.step_running point memory
    rw [hone] at hnext ⊢
    exact ⟨_, rfl, hstep point memory hsafe hnext⟩

/-! ### Creating -/

/-- Writing an entry does not make it active, and changes nothing else. -/
theorem writeEntry_kept {entry : CatalogEntry} (hstate : entry.state ≠ .active)
    (point : WriteEntryPoint) (hidle : entryByte memory base slot ≠ RegionState.active.toU8) :
    KeptElsewhere base slot memory ((Catalog.writeEntry base slot entry point).exec memory).2 ∧
      entryByte ((Catalog.writeEntry base slot entry point).exec memory).2 base slot ≠
        RegionState.active.toU8 := by
  have hstored : ∀ {field : ℕ} {bytes : List UInt8}, 1 ≤ field →
      field + bytes.length ≤ catalogEntrySize →
      KeptElsewhere base slot memory (store memory (entryOffset base slot + field) bytes) ∧
        entryByte (store memory (entryOffset base slot + field) bytes) base slot ≠
          RegionState.active.toU8 := by
    intro field bytes hfield hfits
    refine ⟨keptElsewhere_store hfits, ?_⟩
    rwa [entryByte_store hfield]
  cases point with
  | writeNameLen => exact hstored (by decide) (by rw [length_leBytes]; decide)
  | writeName =>
    have hlength := entry.length_take_nameLen
    have hname := entry.nameLen_le
    exact hstored (by decide) (by unfold entName catalogEntrySize; omega)
  | storeOffset => exact hstored (by decide) (by rw [length_leBytes]; decide)
  | storeSize => exact hstored (by decide) (by rw [length_leBytes]; decide)
  | storeEpoch => exact hstored (by decide) (by rw [length_leBytes]; decide)
  | flushEntry => exact ⟨.refl base slot memory, hidle⟩
  | storeState =>
    have hfits : entState + [entry.state.toU8].length ≤ catalogEntrySize := by
      rw [List.length_singleton]
      decide
    refine ⟨keptElsewhere_store hfits, ?_⟩
    show store memory (entryOffset base slot + entState) [entry.state.toU8] _ ≠ _
    rw [store_one_self]
    cases hentry : entry.state <;> first | decide | exact absurd hentry hstate
  | flushState => exact ⟨.refl base slot memory, hidle⟩

/-- An entry that can be written or made active. -/
structure Creatable (base : ℕ) (memory : Memory) (slot : ℕ) : Prop where
  slot_lt : slot < maxRegions
  idle : entryByte memory base slot ≠ RegionState.active.toU8
  tallies : Tallies base 0 0 memory

/-- The tally at a program point of `create_region`. -/
def CreatePoint.Tally (base : ℕ) (before memory : Memory) : CreatePoint → Prop
  | .findRegion _ => memory = before
  | .findFreeSlot _ => memory = before
  | .loadDataStart _ => memory = before
  | .nextFreeOffset _ _ => memory = before
  | .writeEntry slot _ _ => Creatable base memory slot
  | .storeActive slot _ => Creatable base memory slot
  | .flushActive _ _ => Tallies base 1 0 memory
  | .loadCount _ _ => Tallies base 1 0 memory
  | .storeCount _ _ count => count = regionCount base memory ∧ Tallies base 1 0 memory
  | .flushCount _ _ => Tallies base 0 0 memory

def createTally (base : ℕ) (before : Memory)
    (task : Task CreatePoint (Except AllocError RegionHandle)) (memory : Memory) : Prop :=
  task.fold (CreatePoint.Tally base before memory) fun _ ↦ Tallies base 0 0 memory

section Create

variable {name : String} {size : UInt64} {result : Except AllocError RegionHandle}
  (hbefore : Tallies base 0 0 before)

include hbefore

theorem createTally_afterSlot (found : Option ℕ) :
    createTally base before (CreatePoint.afterSlot found) before := by
  cases found with
  | none => exact hbefore
  | some slot => exact rfl

theorem createTally_afterFind (found : Except AllocError RegionHandle) :
    createTally base before (CreatePoint.afterFind name found) before := by
  cases found with
  | ok region => exact hbefore
  | error error =>
    unfold CreatePoint.afterFind
    cases RegionAllocator.findFreeSlot.head 0 () with
    | running loop => exact rfl
    | returned found => exact createTally_afterSlot hbefore found

theorem createTally_start : createTally base before (startCreate name) before := by
  unfold startCreate
  split_ifs
  · exact hbefore
  · cases (RegionAllocator.findRegion name).head 0 () with
    | running loop => exact rfl
    | returned found => exact createTally_afterFind hbefore found

variable (houtcome : CreateOutcome base poolSize name size.toNat before result later)

include houtcome

/-- The entry that is about to be written was free. -/
theorem createTally_afterOffset {regionOffset : ℕ}
    (hends : (allocatorMachine base poolSize).Ends (.createRegion name size
      (CreatePoint.afterOffset base poolSize size.toNat slot regionOffset)) before
      (.createRegion name size (.returned result)) later) :
    createTally base before (CreatePoint.afterOffset base poolSize size.toNat slot regionOffset)
      before := by
  unfold CreatePoint.afterOffset at hends ⊢
  split_ifs at hends ⊢
  · exact hbefore
  · obtain ⟨hresult, -⟩ := hends.unique (createRegion_write_ends slot regionOffset) (fun _ ↦ rfl)
      fun _ ↦ rfl
    obtain rfl : result = _ := Task.returned.inj (AllocCall.createRegion.inj hresult).2.2
    obtain ⟨hslot, hidle⟩ := houtcome.vacant
    exact ⟨hslot, hidle, hbefore⟩

/-- Every step of a `create_region` keeps the tally. -/
theorem CreatePoint.Tally.step {point : CreatePoint} (htally : point.Tally base before memory)
    (hends : (allocatorMachine base poolSize).Ends (.createRegion name size
      ((RegionAllocator.createRegion base poolSize name size.toNat point).exec memory).1)
      ((RegionAllocator.createRegion base poolSize name size.toNat point).exec memory).2
      (.createRegion name size (.returned result)) later) :
    createTally base before
      ((RegionAllocator.createRegion base poolSize name size.toNat point).exec memory).1
      ((RegionAllocator.createRegion base poolSize name size.toNat point).exec memory).2 := by
  cases point with
  | findRegion loop =>
    obtain rfl : memory = before := htally
    simp only [RegionAllocator.createRegion, EntryVisitor.exec_next_map]
    cases (((RegionAllocator.findRegion name).next base loop).exec memory).1 with
    | running next => exact rfl
    | returned found => exact createTally_afterFind hbefore found
  | findFreeSlot loop =>
    obtain rfl : memory = before := htally
    simp only [RegionAllocator.createRegion, EntryVisitor.exec_next_map]
    cases ((RegionAllocator.findFreeSlot.next base loop).exec memory).1 with
    | running next => exact rfl
    | returned found => exact createTally_afterSlot hbefore found
  | loadDataStart slot =>
    obtain rfl : memory = before := htally
    simp only [RegionAllocator.createRegion, BackendCall.exec] at hends ⊢
    cases hhead : RegionAllocator.nextFreeOffset.head 0 (loadWord memory (base + catHdrDataStart) 8)
      with
    | running next => exact rfl
    | returned regionOffset =>
      rw [hhead] at hends
      exact createTally_afterOffset hbefore houtcome hends
  | nextFreeOffset slot loop =>
    obtain rfl : memory = before := htally
    simp only [RegionAllocator.createRegion, EntryVisitor.exec_next_map] at hends ⊢
    cases hnext : ((RegionAllocator.nextFreeOffset.next base loop).exec memory).1 with
    | running next => exact rfl
    | returned regionOffset =>
      rw [hnext] at hends
      exact createTally_afterOffset hbefore houtcome hends
  | writeEntry slot regionOffset point =>
    obtain ⟨hkept, hidle⟩ := @writeEntry_kept base slot memory
      (newEntry name size.toNat regionOffset) RegionState.noConfusion point htally.idle
    have hwritten : Creatable base _ slot :=
      ⟨htally.slot_lt, hidle, htally.tallies.kept hkept htally.idle hidle⟩
    simp only [RegionAllocator.createRegion, BackendCall.exec_map]
    cases ((Catalog.writeEntry base slot (newEntry name size.toNat regionOffset)
        point).exec memory).1 with
    | running next => exact hwritten
    | returned done => exact hwritten
  | storeActive slot regionOffset => exact htally.tallies.activate htally.slot_lt htally.idle
  | flushActive slot regionOffset => exact htally
  | loadCount slot regionOffset => exact ⟨rfl, htally⟩
  | storeCount slot regionOffset count =>
    obtain ⟨rfl, htallies⟩ := htally
    exact htallies.countOn
  | flushCount slot regionOffset => exact htally

end Create

/-! ### Freeing -/

/-- The tally at a program point of `free_region`. -/
def FreePoint.Tally (base : ℕ) (before memory : Memory) : FreePoint → Prop
  | .findRegion _ => memory = before
  | .storeFreeing slot =>
    slot < maxRegions ∧ entryByte memory base slot = RegionState.active.toU8 ∧
      Tallies base 0 0 memory
  | .flushFreeing slot =>
    entryByte memory base slot ≠ RegionState.active.toU8 ∧ Tallies base 0 1 memory
  | .storeFree slot =>
    entryByte memory base slot ≠ RegionState.active.toU8 ∧ Tallies base 0 1 memory
  | .flushFree _ => Tallies base 0 1 memory
  | .loadCount => Tallies base 0 1 memory
  | .storeCount count => count = regionCount base memory ∧ Tallies base 0 1 memory
  | .flushCount => Tallies base 0 0 memory

def freeTally (base : ℕ) (before : Memory) (task : Task FreePoint (Except AllocError Unit))
    (memory : Memory) : Prop :=
  task.fold (FreePoint.Tally base before memory) fun _ ↦ Tallies base 0 0 memory

/-- An entry in another state than active stays none of the regions. -/
theorem Tallies.storeState {uncounted outdated : ℕ} {state : RegionState}
    (htallies : Tallies base uncounted outdated memory)
    (hmemory : entryByte memory base slot ≠ RegionState.active.toU8) (hstate : state ≠ .active) :
    Tallies base uncounted outdated
      (store memory (entryOffset base slot + entState) [state.toU8]) := by
  have hfits : entState + [state.toU8].length ≤ catalogEntrySize := by
    rw [List.length_singleton]
    decide
  refine htallies.kept (keptElsewhere_store hfits) hmemory ?_
  rw [entryByte, store_one_self]
  cases state <;> first | decide | exact absurd rfl hstate

/-- Every step of a `free_region` keeps the tally. -/
theorem FreePoint.Tally.step {name : String} {result : Except AllocError Unit} {point : FreePoint}
    (hbefore : Tallies base 0 0 before) (houtcome : FreeOutcome base name before result later)
    (htally : point.Tally base before memory)
    (hends : (allocatorMachine base poolSize).Ends (.freeRegion name
      ((RegionAllocator.freeRegion base name point).exec memory).1)
      ((RegionAllocator.freeRegion base name point).exec memory).2
      (.freeRegion name (.returned result)) later) :
    freeTally base before ((RegionAllocator.freeRegion base name point).exec memory).1
      ((RegionAllocator.freeRegion base name point).exec memory).2 := by
  cases point with
  | findRegion loop =>
    obtain rfl : memory = before := htally
    simp only [RegionAllocator.freeRegion, EntryVisitor.exec_next_map] at hends ⊢
    cases hnext : (((RegionAllocator.findRegion name).next base loop).exec memory).1 with
    | running next => exact rfl
    | returned found =>
      rw [hnext] at hends
      cases found with
      | error error => exact hbefore
      | ok region =>
        have hfrees := houtcome.frees hends
        exact ⟨hfrees.slot_lt, hfrees.active, hbefore⟩
  | storeFreeing slot =>
    obtain ⟨hslot, hactive, htallies⟩ := htally
    refine ⟨?_, htallies.release hslot hactive⟩
    show store memory (entryOffset base slot + entState) [RegionState.freeing.toU8] _ ≠ _
    rw [store_one_self]
    decide
  | flushFreeing slot => exact htally
  | storeFree slot => exact htally.2.storeState htally.1 RegionState.noConfusion
  | flushFree slot => exact htally
  | loadCount =>
    have htallies : Tallies base 0 1 memory := htally
    have hcount : 0 < loadWord memory (base + catHdrRegionCount) 8 := by
      have hcounted := htallies
      unfold Tallies regionCount at hcounted
      omega
    simp only [RegionAllocator.freeRegion, BackendCall.exec, if_pos hcount]
    exact ⟨rfl, htallies⟩
  | storeCount count =>
    obtain ⟨rfl, htallies⟩ := htally
    exact htallies.countOff
  | flushCount => exact htally

/-! ### Recovering -/

/-- The tally at a program point of `recover`. -/
def CatalogRecoverPoint.Tally (base uncounted outdated : ℕ) (memory : Memory) :
    CatalogRecoverPoint → Prop
  | .readEntry index _ point =>
    (∀ state, point.state? = some state →
      state = (CatalogEntry.ofMemory memory base index).state) ∧
        Tallies base uncounted outdated memory
  | .storeFree index _ =>
    entryByte memory base index ≠ RegionState.active.toU8 ∧ Tallies base uncounted outdated memory
  | .flushFree _ _ => Tallies base uncounted outdated memory

def recoverTally (base uncounted outdated : ℕ) (task : Task CatalogRecoverPoint ℕ)
    (memory : Memory) : Prop :=
  task.fold (CatalogRecoverPoint.Tally base uncounted outdated memory) fun _ ↦
    Tallies base uncounted outdated memory

section Recover

variable {uncounted outdated : ℕ}

theorem recoverTally_head {index fixed : ℕ} (htallies : Tallies base uncounted outdated memory) :
    recoverTally base uncounted outdated (CatalogRecoverPoint.head index fixed) memory := by
  unfold CatalogRecoverPoint.head
  split_ifs
  · exact ⟨(fun state hstate ↦ by cases hstate), htallies⟩
  · exact htallies

/-- Every step of a `recover` keeps the tally, whatever it is. -/
theorem CatalogRecoverPoint.Tally.step {point : CatalogRecoverPoint}
    (htally : point.Tally base uncounted outdated memory) :
    recoverTally base uncounted outdated ((RegionAllocator.recover base point).exec memory).1
      ((RegionAllocator.recover base point).exec memory).2 := by
  cases point with
  | readEntry index fixed point =>
    obtain ⟨hsaw, htallies⟩ := htally
    have hstep := ReadEntryPoint.state_step hsaw
    have hload := BackendCall.exec_of_isLoad (Catalog.isLoad_readEntry base index point) memory
    simp only [RegionAllocator.recover, BackendCall.exec_map, hload]
    cases hnext : ((Catalog.readEntry base index point).exec memory).1 with
    | running next =>
      rw [hnext] at hstep
      exact ⟨hstep, htallies⟩
    | returned entry =>
      rw [hnext] at hstep
      have hstate : entry.state = (CatalogEntry.ofMemory memory base index).state := hstep
      show recoverTally base uncounted outdated (CatalogRecoverPoint.body index fixed entry) memory
      unfold CatalogRecoverPoint.body
      split_ifs with htransition
      · refine ⟨fun hactive ↦ ?_, htallies⟩
        rw [hstate] at htransition
        exact not_inTransition_of_active (RegionState.ofByte_eq_active_iff.mpr hactive) htransition
      · exact recoverTally_head htallies
  | storeFree index fixed => exact htally.2.storeState htally.1 RegionState.noConfusion
  | flushFree index fixed => exact recoverTally_head htally

/-- A `recover` keeps the tally wherever it gets to. -/
theorem Tallies.of_recover {call : AllocCall} (htallies : Tallies base uncounted outdated before)
    (hreaches : (allocatorMachine base poolSize).Reaches (AllocRequest.recover.call poolSize) before
      call memory) : ∃ task, call = .recover task ∧ Tallies base uncounted outdated memory := by
  obtain ⟨count, later, hends, -⟩ := recoverCatalog_head_ends base poolSize 0 0 before
  obtain ⟨task, rfl, htally⟩ := AllocCall.runs_recover.reaches_alone hreaches hends rfl
    (recoverTally base uncounted outdated) (recoverTally_head htallies)
    fun _ _ htally _ ↦ htally.step
  refine ⟨task, rfl, ?_⟩
  cases task with
  | returned fixed => exact htally
  | running point =>
    cases point with
    | readEntry index fixed point => exact htally.2
    | storeFree index fixed => exact htally.2
    | flushFree index fixed => exact htally

end Recover

/-! ### Any call -/

/-- A call that only loads leaves the memory. -/
theorem AllocCall.Runs.eq_of_loads {Point Result : Type} {inside : Task Point Result → AllocCall}
    {routine : Point → BackendCall (Task Point Result)}
    (hruns : AllocCall.Runs base poolSize inside routine) {task : Task Point Result}
    {call result : AllocCall} {given : AllocAnswer}
    (hreaches : (allocatorMachine base poolSize).Reaches (inside task) before call memory)
    (hends : (allocatorMachine base poolSize).Ends (inside task) before result later)
    (hgiven : result.answer = some given) (hload : ∀ point, (routine point).isLoad = true) :
    ∃ task, call = inside task ∧ memory = before :=
  hruns.reaches_alone hreaches hends hgiven (fun _ memory ↦ memory = before) rfl
    (fun point _ hsame _ ↦ (BackendCall.exec_of_isLoad (hload point) _).trans hsame)

/-- Wherever a call gets to, the count is wrong by what the call owes. -/
theorem AllocCall.tallies_of_reaches {request : AllocRequest} {call : AllocCall}
    (hrequest : request ≠ .init) (htallies : Tallies base 0 0 before)
    (hreaches : (allocatorMachine base poolSize).Reaches
      (request.call poolSize) before call memory) :
    Tallies base call.uncounted call.outdated memory := by
  cases request with
  | init => exact absurd rfl hrequest
  | openPool =>
    obtain ⟨task, rfl, rfl⟩ := AllocCall.runs_openPool.eq_of_loads hreaches
      (openPool_ends base poolSize before) rfl fun _ ↦ rfl
    exact htallies
  | createRegion name size =>
    obtain ⟨result, later, hends, houtcome⟩ := createRegion_ends base poolSize name size before
    obtain ⟨task, rfl, htally⟩ :=
      (AllocCall.runs_createRegion name size).reaches_alone hreaches hends rfl
        (createTally base before) (createTally_start htallies)
        fun _ _ htally hnext ↦ htally.step htallies houtcome hnext
    cases task with
    | returned done => exact htally
    | running point =>
      cases point with
      | writeEntry slot regionOffset point => exact Creatable.tallies htally
      | storeActive slot regionOffset => exact Creatable.tallies htally
      | flushActive slot regionOffset => exact htally
      | loadCount slot regionOffset => exact htally
      | storeCount slot regionOffset count => exact htally.2
      | flushCount slot regionOffset => exact htally
      | _ =>
        obtain rfl : memory = before := htally
        exact htallies
  | freeRegion name =>
    obtain ⟨result, later, hends, houtcome⟩ := freeRegion_ends base poolSize name before
    have hinit : freeTally base before (((RegionAllocator.findRegion name).head 0 ()).fold
        (fun loop ↦ .running (.findRegion loop)) FreePoint.afterFind) before := rfl
    obtain ⟨task, rfl, htally⟩ := (AllocCall.runs_freeRegion name).reaches_alone hreaches hends rfl
      (freeTally base before) hinit
      fun _ _ htally hnext ↦ htally.step htallies houtcome hnext
    cases task with
    | returned done => exact htally
    | running point =>
      cases point with
      | findRegion loop =>
        obtain rfl : memory = before := htally
        exact htallies
      | storeFreeing slot => exact htally.2.2
      | flushFreeing slot => exact htally.2
      | storeFree slot => exact htally.2
      | flushFree slot => exact htally
      | loadCount => exact htally
      | storeCount count => exact htally.2
      | flushCount => exact htally
  | findRegion name =>
    obtain ⟨task, rfl, rfl⟩ := (AllocCall.runs_findRegion name).eq_of_loads hreaches
      (findRegion_ends base poolSize name before) rfl
      fun loop ↦ (RegionAllocator.findRegion name).isLoad_next base loop
    exact htallies
  | listRegions =>
    obtain ⟨task, rfl, rfl⟩ := AllocCall.runs_listRegions.eq_of_loads hreaches
      (listRegions_ends base poolSize before) rfl
      fun loop ↦ RegionAllocator.listRegions.isLoad_next base loop
    exact htallies
  | recover =>
    obtain ⟨task, rfl, hlater⟩ := htallies.of_recover hreaches
    exact hlater

end Fence
