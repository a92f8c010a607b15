import Fence.Alloc.Allocator

/-!
# Catalog entries in memory

What `read_entry` returns is a function of the bytes of the entry, `CatalogEntry.ofMemory`, so it
does not change when those bytes do not (`CatalogEntry.ofMemory_congr`). An entry that `write_entry`
has written is read as it was (`CatalogEntry.ofMemory_writtenEntry`), whatever the slot held before.
-/

set_option autoImplicit false
set_option relaxedAutoImplicit false

namespace Fence

open ByteMemory Interleaving

variable {base index other : ℕ}

/-! ### Where entries lie -/

theorem entryOffset_eq (base index : ℕ) : entryOffset base index = base + 64 + index * 64 := rfl

theorem header_le_entryOffset (base index : ℕ) :
    base + catalogHeaderSize ≤ entryOffset base index := Nat.le_add_right _ _

/-- Entries do not overlap. -/
theorem entryOffset_disjoint (hne : index ≠ other) :
    entryOffset base index + catalogEntrySize ≤ entryOffset base other ∨
      entryOffset base other + catalogEntrySize ≤ entryOffset base index := by
  simp only [entryOffset_eq, catalogEntrySize]
  omega

theorem entryOffset_le_catalogSize (hindex : index < maxRegions) :
    entryOffset base index + catalogEntrySize ≤ base + catalogSize := by
  simp only [entryOffset_eq, catalogEntrySize, catalogSize, catalogHeaderSize, maxRegions] at *
  omega

/-! ### Reading -/

/-- The bytes of an entry are the same in two memories. -/
def SameEntry (base index : ℕ) (first second : Memory) : Prop :=
  ∀ i < catalogEntrySize,
    first (entryOffset base index + i) = second (entryOffset base index + i)

theorem SameEntry.refl (base index : ℕ) (memory : Memory) : SameEntry base index memory memory :=
  fun _ _ ↦ rfl

theorem SameEntry.symm {first second : Memory} (hsame : SameEntry base index first second) :
    SameEntry base index second first := fun i hi ↦ (hsame i hi).symm

theorem SameEntry.trans {first second third : Memory} (hsame : SameEntry base index first second)
    (hother : SameEntry base index second third) : SameEntry base index first third :=
  fun i hi ↦ (hsame i hi).trans (hother i hi)

theorem SameEntry.load {first second : Memory} (hsame : SameEntry base index first second)
    {field length : ℕ} (hfits : field + length ≤ catalogEntrySize) :
    load first (entryOffset base index + field) length =
      load second (entryOffset base index + field) length := by
  refine load_congr fun i hi ↦ ?_
  rw [Nat.add_assoc]
  exact hsame (field + i) (by omega)

/-- The length of the name an entry holds. -/
def storedNameLen (memory : Memory) (base index : ℕ) : ℕ :=
  leValue (load memory (entryOffset base index + entNameLen) 2)

/-- The name an entry holds. -/
def storedName (memory : Memory) (base index : ℕ) : String :=
  if 0 < storedNameLen memory base index ∧ storedNameLen memory base index ≤ maxNameLen then
    fromUtf8Lossy (load memory (entryOffset base index + entName)
      (storedNameLen memory base index))
  else ""

/-- What `read_entry` returns. -/
def CatalogEntry.ofMemory (memory : Memory) (base index : ℕ) : CatalogEntry where
  state := .ofByte (memory (entryOffset base index + entState))
  name := storedName memory base index
  offset := loadWord memory (entryOffset base index + entOffset) 8
  size := loadWord memory (entryOffset base index + entSize) 8
  createdEpoch := loadWord memory (entryOffset base index + entEpoch) 8

/-- An entry is a function of its bytes. -/
theorem CatalogEntry.ofMemory_congr {first second : Memory}
    (hsame : SameEntry base index first second) :
    CatalogEntry.ofMemory first base index = CatalogEntry.ofMemory second base index := by
  have hlength : storedNameLen first base index = storedNameLen second base index := by
    rw [storedNameLen, storedNameLen, hsame.load (by decide : entNameLen + 2 ≤ catalogEntrySize)]
  have hname : storedName first base index = storedName second base index := by
    unfold storedName
    rw [hlength]
    split_ifs with hlen
    · rw [hsame.load]
      exact Nat.le_trans (Nat.add_le_add_left hlen.2 entName) (by decide)
    · rfl
  have hstate : first (entryOffset base index + entState) =
      second (entryOffset base index + entState) := hsame entState (by decide)
  rw [CatalogEntry.ofMemory, CatalogEntry.ofMemory, hname, hstate,
    loadWord_congr (hsame.load (by decide : entOffset + 8 ≤ catalogEntrySize)),
    loadWord_congr (hsame.load (by decide : entSize + 8 ≤ catalogEntrySize)),
    loadWord_congr (hsame.load (by decide : entEpoch + 8 ≤ catalogEntrySize))]

/-- `read_entry` on its own. -/
theorem readEntry_ends (base index : ℕ) (memory : Memory) :
    (routineMachine (Catalog.readEntry base index)).Ends (.running .loadState) memory
      (.returned (CatalogEntry.ofMemory memory base index)) memory := by
  refine .step (.step ?_)
  simp only [routineMachine_step_running, Catalog.readEntry, BackendCall.exec]
  have hname : (routineMachine (Catalog.readEntry base index)).Ends
      (if 0 < storedNameLen memory base index ∧ storedNameLen memory base index ≤ maxNameLen then
        .running (.readName (.ofByte (memory (entryOffset base index + entState)))
          (storedNameLen memory base index))
      else .running (.loadOffset (.ofByte (memory (entryOffset base index + entState))) ""))
      memory (.running (.loadOffset (.ofByte (memory (entryOffset base index + entState)))
        (storedName memory base index))) memory := by
    unfold storedName
    split_ifs with hlen
    · exact .step (.refl _ _)
    · exact .refl _ _
  exact hname.trans (.step (.step (.step (.refl _ _))))

/-! ### Writing -/

/-- The memory `write_entry` leaves. -/
def writtenEntry (memory : Memory) (base index : ℕ) (entry : CatalogEntry) : Memory :=
  let offset := entryOffset base index
  let memory := store memory (offset + entNameLen) (leBytes 2 entry.nameLen)
  let memory := store memory (offset + entName) ((asBytes entry.name).take entry.nameLen)
  let memory := storeWord memory (offset + entOffset) 8 entry.offset
  let memory := storeWord memory (offset + entSize) 8 entry.size
  let memory := storeWord memory (offset + entEpoch) 8 entry.createdEpoch
  store memory (offset + entState) [entry.state.toU8]

/-- `write_entry` on its own. -/
theorem writeEntry_ends (base index : ℕ) (entry : CatalogEntry) (memory : Memory) :
    (routineMachine (Catalog.writeEntry base index entry)).Ends (.running .writeNameLen) memory
      (.returned ()) (writtenEntry memory base index entry) := by
  refine .step ?_
  simp only [routineMachine_step_running, Catalog.writeEntry, BackendCall.exec]
  have hname : ∀ memory, (routineMachine (Catalog.writeEntry base index entry)).Ends
      (if 0 < entry.nameLen then .running .writeName else .running .storeOffset) memory
      (.running .storeOffset) (store memory (entryOffset base index + entName)
        ((asBytes entry.name).take entry.nameLen)) := by
    intro memory
    split_ifs with hlen
    · exact .step (.refl _ _)
    · rw [Nat.eq_zero_of_not_pos hlen, List.take_zero, store_nil]
      exact .refl _ _
  exact (hname _).trans (.step (.step (.step (.step (.step (.step (.refl _ _)))))))

/-- An entry whose name is not cut and whose numbers are words. -/
structure CatalogEntry.Fits (entry : CatalogEntry) : Prop where
  name : (asBytes entry.name).length ≤ maxNameLen
  offset : entry.offset < 2 ^ 64
  size : entry.size < 2 ^ 64
  createdEpoch : entry.createdEpoch < 2 ^ 64

section Written

variable {memory : Memory} {entry : CatalogEntry}

theorem CatalogEntry.length_take_nameLen (entry : CatalogEntry) :
    ((asBytes entry.name).take entry.nameLen).length = entry.nameLen := by
  rw [List.length_take]
  exact Nat.min_eq_left (Nat.min_le_left _ _)

theorem CatalogEntry.nameLen_le (entry : CatalogEntry) : entry.nameLen ≤ 24 := Nat.min_le_right _ _

/-- Writing an entry does not reach outside it. -/
theorem writtenEntry_apply_outside {address : ℕ}
    (houtside : address < entryOffset base index ∨
      entryOffset base index + catalogEntrySize ≤ address) :
    writtenEntry memory base index entry address = memory address := by
  have hname := entry.nameLen_le
  have hlength := entry.length_take_nameLen
  simp only [catalogEntrySize] at houtside
  unfold writtenEntry storeWord
  iterate 6 rw [store_apply_outside (by
    simp only [length_leBytes, List.length_singleton, hlength, entState, entEpoch, entSize,
      entOffset, entName, entNameLen]
    omega)]

theorem storedNameLen_writtenEntry :
    storedNameLen (writtenEntry memory base index entry) base index = entry.nameLen := by
  have hname := entry.nameLen_le
  have hlength := entry.length_take_nameLen
  have hself := load_store_self memory (entryOffset base index + entNameLen)
    (leBytes 2 entry.nameLen)
  rw [length_leBytes] at hself
  unfold storedNameLen writtenEntry storeWord
  iterate 5 rw [load_store_outside (by
    simp only [length_leBytes, List.length_singleton, hlength, entState, entEpoch, entSize,
      entOffset, entName, entNameLen]
    omega)]
  rw [hself, leValue_leBytes]
  exact Nat.mod_eq_of_lt (Nat.lt_of_le_of_lt hname (by decide))

theorem load_name_writtenEntry :
    load (writtenEntry memory base index entry) (entryOffset base index + entName) entry.nameLen =
      (asBytes entry.name).take entry.nameLen := by
  have hname := entry.nameLen_le
  have hself := load_store_self (store memory (entryOffset base index + entNameLen)
    (leBytes 2 entry.nameLen)) (entryOffset base index + entName)
    ((asBytes entry.name).take entry.nameLen)
  rw [entry.length_take_nameLen] at hself
  unfold writtenEntry storeWord
  iterate 4 rw [load_store_outside (by
    simp only [length_leBytes, List.length_singleton, entState, entEpoch, entSize, entOffset,
      entName]
    omega)]
  exact hself

theorem storedName_writtenEntry (hfits : (asBytes entry.name).length ≤ maxNameLen) :
    storedName (writtenEntry memory base index entry) base index = entry.name := by
  have hlen : entry.nameLen = (asBytes entry.name).length := Nat.min_eq_left hfits
  unfold storedName
  simp only [storedNameLen_writtenEntry]
  split_ifs with hpos
  · rw [load_name_writtenEntry, hlen, List.take_length, fromUtf8Lossy_asBytes]
  · have hzero : entry.nameLen = 0 := by
      have := entry.nameLen_le
      unfold maxNameLen at hpos
      omega
    exact (eq_empty_of_asBytes (List.eq_nil_of_length_eq_zero (hlen.symm.trans hzero))).symm

/-- An entry that was written is read as it was. -/
theorem CatalogEntry.ofMemory_writtenEntry (hfits : entry.Fits) :
    CatalogEntry.ofMemory (writtenEntry memory base index entry) base index = entry := by
  have hstate : writtenEntry memory base index entry (entryOffset base index + entState) =
      entry.state.toU8 := by
    unfold writtenEntry
    exact store_one_self _ _ _
  have hoffset : loadWord (writtenEntry memory base index entry)
      (entryOffset base index + entOffset) 8 = entry.offset := by
    unfold writtenEntry
    rw [loadWord_store_outside (by simp only [List.length_singleton, entState, entOffset]; omega),
      storeWord, loadWord_store_outside (by simp only [length_leBytes, entEpoch, entOffset]; omega),
      storeWord, loadWord_store_outside (by simp only [length_leBytes, entSize, entOffset]; omega),
      loadWord_storeWord_self]
    exact Nat.mod_eq_of_lt hfits.offset
  have hsize : loadWord (writtenEntry memory base index entry)
      (entryOffset base index + entSize) 8 = entry.size := by
    unfold writtenEntry
    rw [loadWord_store_outside (by simp only [List.length_singleton, entState, entSize]; omega),
      storeWord, loadWord_store_outside (by simp only [length_leBytes, entEpoch, entSize]; omega),
      loadWord_storeWord_self]
    exact Nat.mod_eq_of_lt hfits.size
  have hepoch : loadWord (writtenEntry memory base index entry)
      (entryOffset base index + entEpoch) 8 = entry.createdEpoch := by
    unfold writtenEntry
    rw [loadWord_store_outside (by simp only [List.length_singleton, entState, entEpoch]; omega),
      loadWord_storeWord_self]
    exact Nat.mod_eq_of_lt hfits.createdEpoch
  rw [CatalogEntry.ofMemory, hstate, RegionState.ofByte_toU8, storedName_writtenEntry hfits.name,
    hoffset, hsize, hepoch]

end Written

/-! ### Storing a state -/

/-- Storing a state changes the state of the entry and nothing else of it. -/
theorem CatalogEntry.ofMemory_store_state (memory : Memory) (base index : ℕ) (state : RegionState) :
    CatalogEntry.ofMemory (store memory (entryOffset base index + entState) [state.toU8]) base
        index = { CatalogEntry.ofMemory memory base index with state := state } := by
  have hstate : store memory (entryOffset base index + entState) [state.toU8]
      (entryOffset base index + entState) = state.toU8 :=
    store_one_self _ _ _
  have hname : storedName (store memory (entryOffset base index + entState) [state.toU8]) base
      index = storedName memory base index := by
    unfold storedName storedNameLen
    rw [load_store_outside (by simp only [List.length_singleton, entState, entNameLen]; omega)]
    split_ifs
    · rw [load_store_outside (by simp only [List.length_singleton, entState, entName]; omega)]
    · rfl
  rw [CatalogEntry.ofMemory, hstate, RegionState.ofByte_toU8, hname,
    loadWord_store_outside (by simp only [List.length_singleton, entState, entOffset]; omega),
    loadWord_store_outside (by simp only [List.length_singleton, entState, entSize]; omega),
    loadWord_store_outside (by simp only [List.length_singleton, entState, entEpoch]; omega)]
  rfl

/-- A store that does not reach an entry leaves its bytes. -/
theorem sameEntry_store {memory : Memory} {offset : ℕ} {bytes : List UInt8}
    (houtside : offset + bytes.length ≤ entryOffset base index ∨
      entryOffset base index + catalogEntrySize ≤ offset) :
    SameEntry base index (store memory offset bytes) memory :=
  fun _ hi ↦ store_apply_outside (by omega)

end Fence
