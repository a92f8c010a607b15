import Fence.Core.Routine

/-!
# The catalog of the region allocator

The routines of `catalog.rs`: the catalog is a header of one cacheline, followed by the entries of
256 regions, one cacheline each. `readEntry` loads the state byte first, `writeEntry` stores it
last. Names are strings. Their bytes are decoded by `from_utf8_lossy`, which gives a name back from
its own bytes (`fromUtf8Lossy_asBytes`).
-/

set_option autoImplicit false
set_option relaxedAutoImplicit false

namespace Fence

open ByteMemory Interleaving

/-! ### Layout -/

def allocMagic : ℕ := 0x46454E43455F414C
def catalogHeaderSize : ℕ := 64
def catalogEntrySize : ℕ := 64
def maxNameLen : ℕ := 24
def maxRegions : ℕ := 256

def catHdrMagic : ℕ := 0
def catHdrRegionCount : ℕ := 8
def catHdrTotalSize : ℕ := 16
def catHdrDataStart : ℕ := 24

def entState : ℕ := 0
def entNameLen : ℕ := 2
def entName : ℕ := 4
def entOffset : ℕ := 32
def entSize : ℕ := 40
def entEpoch : ℕ := 48

/-- `entry_offset`. -/
def entryOffset (base index : ℕ) : ℕ := base + catalogHeaderSize + index * catalogEntrySize

/-- `RegionState`. -/
inductive RegionState
  /-- The slot is unused. -/
  | free
  /-- An allocation is in progress. -/
  | allocating
  /-- The region is in use. -/
  | active
  /-- A free is in progress. -/
  | freeing
  deriving DecidableEq, Repr

/-- The byte of a state, `state as u8`. -/
def RegionState.toU8 : RegionState → UInt8
  | .free => 0
  | .allocating => 1
  | .active => 2
  | .freeing => 3

/-- `RegionState::from_u8`. -/
def RegionState.fromU8 (val : UInt8) : Option RegionState :=
  if val = 0 then some .free
  else if val = 1 then some .allocating
  else if val = 2 then some .active
  else if val = 3 then some .freeing
  else none

/-- The state of an entry. A byte that is no state counts as free. -/
def RegionState.ofByte (val : UInt8) : RegionState := (RegionState.fromU8 val).getD .free

@[simp] theorem RegionState.ofByte_toU8 (state : RegionState) :
    RegionState.ofByte state.toU8 = state := by
  cases state <;> rfl

theorem RegionState.ofByte_eq_active_iff {val : UInt8} :
    RegionState.ofByte val = .active ↔ val = RegionState.active.toU8 := by
  constructor
  · unfold RegionState.ofByte RegionState.fromU8
    intro hactive
    split_ifs at hactive with h0 h1 h2 h3
    · cases hactive
    · cases hactive
    · exact h2
    · cases hactive
    · cases hactive
  · rintro rfl
    rfl

/-- `CatalogEntry`. -/
structure CatalogEntry where
  state : RegionState
  name : String
  offset : ℕ
  size : ℕ
  createdEpoch : ℕ
  deriving DecidableEq, Repr

/-! ### Names -/

/-- `as_bytes`. -/
def asBytes (name : String) : List UInt8 := name.toByteArray.data.toList

/-- Whether a byte can follow a first byte of three or four bytes. -/
def isSecondOf (first second : UInt8) : Bool :=
  if first = 0xE0 then 0xA0 ≤ second && second ≤ 0xBF
  else if first = 0xED then 0x80 ≤ second && second ≤ 0x9F
  else if first = 0xF0 then 0x90 ≤ second && second ≤ 0xBF
  else if first = 0xF4 then 0x80 ≤ second && second ≤ 0x8F
  else 0xE1 ≤ first && first ≤ 0xF3 && 0x80 ≤ second && second ≤ 0xBF

/-- The length of the broken character that bytes start with. A character of three or four bytes
that breaks off later counts up to there. -/
def brokenLength : List UInt8 → ℕ
  | first :: second :: rest =>
    if isSecondOf first second then
      match rest with
      | third :: _ => if 0xF0 ≤ first && 0x80 ≤ third && third ≤ 0xBF then 3 else 2
      | [] => 2
    else 1
  | _ => 1

/-- The characters of bytes, each broken one replaced. The first argument bounds their number. -/
def lossyChars : ℕ → List UInt8 → List Char
  | 0, _ => []
  | _, [] => []
  | fuel + 1, bytes =>
    match ByteArray.utf8DecodeChar? ⟨bytes.toArray⟩ 0 with
    | some char => char :: lossyChars fuel (bytes.drop char.utf8Size)
    | none => Char.ofNat 0xFFFD :: lossyChars fuel (bytes.drop (brokenLength bytes))

/-- `String::from_utf8_lossy`. Bytes that are a string are that string. -/
def fromUtf8Lossy (bytes : List UInt8) : String :=
  (String.fromUTF8? ⟨bytes.toArray⟩).getD (String.ofList (lossyChars bytes.length bytes))

/-- A name is decoded from its own bytes. -/
@[simp] theorem fromUtf8Lossy_asBytes (name : String) : fromUtf8Lossy (asBytes name) = name := by
  have hbytes : (⟨(asBytes name).toArray⟩ : ByteArray) = name.toByteArray := by
    simp [asBytes]
  rw [fromUtf8Lossy, hbytes, String.fromUTF8?, dif_pos name.isValidUTF8]
  rfl

theorem eq_empty_of_asBytes {name : String} (hempty : asBytes name = []) : name = "" := by
  rw [← fromUtf8Lossy_asBytes name, hempty]
  exact fromUtf8Lossy_asBytes ""

/-! ### Reading an entry -/

/-- Program points of `read_entry`, with the fields loaded so far. -/
inductive ReadEntryPoint
  | loadState
  | readNameLen (state : RegionState)
  | readName (state : RegionState) (nameLen : ℕ)
  | loadOffset (state : RegionState) (name : String)
  | loadSize (state : RegionState) (name : String) (offset : ℕ)
  | loadEpoch (state : RegionState) (name : String) (offset size : ℕ)
  deriving DecidableEq

/-- `read_entry`. -/
def Catalog.readEntry (base index : ℕ) :
    ReadEntryPoint → BackendCall (Task ReadEntryPoint CatalogEntry)
  | .loadState =>
    .loadU8 (entryOffset base index + entState) fun stateByte ↦
      .running (.readNameLen (RegionState.ofByte stateByte))
  | .readNameLen state =>
    .read (entryOffset base index + entNameLen) 2 fun buf ↦
      if 0 < leValue buf ∧ leValue buf ≤ maxNameLen then .running (.readName state (leValue buf))
      else .running (.loadOffset state "")
  | .readName state nameLen =>
    .read (entryOffset base index + entName) nameLen fun buf ↦
      .running (.loadOffset state (fromUtf8Lossy buf))
  | .loadOffset state name =>
    .loadU64 (entryOffset base index + entOffset) fun offset ↦
      .running (.loadSize state name offset)
  | .loadSize state name offset =>
    .loadU64 (entryOffset base index + entSize) fun size ↦
      .running (.loadEpoch state name offset size)
  | .loadEpoch state name offset size =>
    .loadU64 (entryOffset base index + entEpoch) fun createdEpoch ↦
      .returned ⟨state, name, offset, size, createdEpoch⟩

/-! ### Writing an entry -/

/-- Program points of `write_entry`. -/
inductive WriteEntryPoint
  | writeNameLen
  | writeName
  | storeOffset
  | storeSize
  | storeEpoch
  | flushEntry
  | storeState
  | flushState
  deriving DecidableEq

/-- The number of bytes of a name that are written. -/
def CatalogEntry.nameLen (entry : CatalogEntry) : ℕ := min (asBytes entry.name).length maxNameLen

/-- `write_entry`. The state is stored last. -/
def Catalog.writeEntry (base index : ℕ) (entry : CatalogEntry) :
    WriteEntryPoint → BackendCall (Task WriteEntryPoint Unit)
  | .writeNameLen =>
    .write (entryOffset base index + entNameLen) (leBytes 2 entry.nameLen)
      (if 0 < entry.nameLen then .running .writeName else .running .storeOffset)
  | .writeName =>
    .write (entryOffset base index + entName) ((asBytes entry.name).take entry.nameLen)
      (.running .storeOffset)
  | .storeOffset =>
    .storeU64 (entryOffset base index + entOffset) entry.offset (.running .storeSize)
  | .storeSize =>
    .storeU64 (entryOffset base index + entSize) entry.size (.running .storeEpoch)
  | .storeEpoch =>
    .storeU64 (entryOffset base index + entEpoch) entry.createdEpoch (.running .flushEntry)
  | .flushEntry => .flush (entryOffset base index) catalogEntrySize (.running .storeState)
  | .storeState =>
    .storeU8 (entryOffset base index + entState) entry.state.toU8 (.running .flushState)
  | .flushState => .flush (entryOffset base index) 64 (.returned ())

end Fence
