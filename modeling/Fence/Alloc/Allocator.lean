import Fence.Alloc.Catalog

/-!
# The region allocator

The routines of `allocator.rs` on a catalog: `init`, `open`, `create_region`, `free_region`,
`find_region`, `list_regions` and `recover`, as machines over program points. All loops over the
entries but that of `recover` only read, so they are one loop, `EntryLoop`, with a visitor that says
what its body does with an entry. An `AllocCall` is a call in flight or returned, and
`allocatorMachine` lets any number of calls of any number of `RegionAllocator` values over one pool
interleave.
-/

set_option autoImplicit false
set_option relaxedAutoImplicit false

namespace Fence

open ByteMemory Interleaving

/-- `RegionHandle`. -/
structure RegionHandle where
  slot : ℕ
  name : String
  offset : ℕ
  size : ℕ
  deriving DecidableEq, Repr

/-- `RegionHandle::contains`. Both sums wrap. -/
def RegionHandle.contains (region : RegionHandle) (byteOffset len : ℕ) : Bool :=
  region.offset ≤ byteOffset &&
    (byteOffset + len) % 2 ^ 64 ≤ (region.offset + region.size) % 2 ^ 64

/-- `RegionHandle::absolute_offset`. The sum wraps. -/
def RegionHandle.absoluteOffset (region : RegionHandle) (relative : ℕ) : ℕ :=
  (region.offset + relative) % 2 ^ 64

/-- `AllocError`, less the errors of a backend. -/
inductive AllocError
  /-- No free catalog slot is available. -/
  | catalogFull
  /-- A region with this name already exists. -/
  | nameExists (name : String)
  /-- Not enough contiguous free space. -/
  | outOfSpace (requested available : ℕ)
  /-- No region has this name. -/
  | notFound (name : String)
  /-- Invalid allocator state or argument. -/
  | invalidState (detail : String)
  deriving DecidableEq, Repr

/-- A number in sixteen hexadecimal digits, `{:016X}`. -/
def hex16 (value : ℕ) : String :=
  let digits := (Nat.toDigits 16 value).map Char.toUpper
  String.ofList (List.replicate (16 - digits.length) (Char.ofNat 48) ++ digits)

/-! ### Loops over the entries -/

/-- What a loop over the entries starts with, does with each entry, and returns after the last. The
body goes on with what it has gathered, or leaves the loop with a result. -/
structure EntryVisitor (Gathered Result : Type) where
  visit : ℕ → CatalogEntry → Gathered → Gathered ⊕ Result
  finish : Gathered → Result

/-- The local variables of a loop over the entries. -/
structure EntryLoop (Gathered : Type) where
  index : ℕ
  gathered : Gathered
  point : ReadEntryPoint

section EntryLoop

variable {Gathered Result : Type} (visitor : EntryVisitor Gathered Result)

/-- The head of a loop over the entries. -/
def EntryVisitor.head (index : ℕ) (gathered : Gathered) : Task (EntryLoop Gathered) Result :=
  if index < maxRegions then .running ⟨index, gathered, .loadState⟩
  else .returned (visitor.finish gathered)

/-- The body of a loop over the entries, once it has read one. -/
def EntryVisitor.body (index : ℕ) (gathered : Gathered) (entry : CatalogEntry) :
    Task (EntryLoop Gathered) Result :=
  match visitor.visit index entry gathered with
  | .inl gathered => visitor.head (index + 1) gathered
  | .inr result => .returned result

/-- A loop over the entries. -/
def EntryVisitor.next (base : ℕ) (loop : EntryLoop Gathered) :
    BackendCall (Task (EntryLoop Gathered) Result) :=
  (Catalog.readEntry base loop.index loop.point).map <| Task.fold
    (fun point ↦ .running { loop with point }) (visitor.body loop.index loop.gathered)

end EntryLoop

/-- The handle of an entry. -/
def CatalogEntry.handle (slot : ℕ) (entry : CatalogEntry) : RegionHandle where
  slot := slot
  name := entry.name
  offset := entry.offset
  size := entry.size

/-- `find_region`. -/
def RegionAllocator.findRegion (name : String) :
    EntryVisitor Unit (Except AllocError RegionHandle) where
  visit := fun i entry _ ↦
    if entry.state = .active ∧ entry.name = name then .inr (.ok (entry.handle i)) else .inl ()
  finish := fun _ ↦ .error (.notFound name)

/-- `list_regions`. -/
def RegionAllocator.listRegions : EntryVisitor (List RegionHandle) (List RegionHandle) where
  visit := fun i entry regions ↦
    if entry.state = .active then .inl (regions ++ [entry.handle i]) else .inl regions
  finish := id

/-- `find_free_slot`. -/
def RegionAllocator.findFreeSlot : EntryVisitor Unit (Option ℕ) where
  visit := fun i entry _ ↦ if entry.state = .free then .inr (some i) else .inl ()
  finish := fun _ ↦ none

/-- The next multiple of 64. The mask `!63` clears the six low bits. -/
def alignUp (maxEnd : ℕ) : ℕ := (maxEnd + 63) % 2 ^ 64 / 64 * 64

/-- `next_free_offset`. -/
def RegionAllocator.nextFreeOffset : EntryVisitor ℕ ℕ where
  visit := fun _ entry maxEnd ↦
    if entry.state = .active ∨ entry.state = .allocating then
      if maxEnd < (entry.offset + entry.size) % 2 ^ 64 then
        .inl ((entry.offset + entry.size) % 2 ^ 64)
      else .inl maxEnd
    else .inl maxEnd
  finish := alignUp

variable (base poolSize : ℕ)

/-! ### Initialising and opening -/

/-- The size of the catalog. -/
def catalogSize : ℕ := catalogHeaderSize + maxRegions * catalogEntrySize

/-- Program points of `init`. -/
inductive InitPoint
  | storeMagic
  | storeCount
  | storeTotalSize
  | storeDataStart
  | flushHeader
  | storeState (index : ℕ)
  | flushEntries
  deriving DecidableEq

/-- The size check `init` starts with. -/
def startInit : Task InitPoint (Except AllocError Unit) :=
  if poolSize < catalogSize then .returned (.error (.outOfSpace catalogSize poolSize))
  else .running .storeMagic

/-- The head of the loop of `init`. -/
def InitPoint.head (index : ℕ) : Task InitPoint (Except AllocError Unit) :=
  if index < maxRegions then .running (.storeState index) else .running .flushEntries

/-- `RegionAllocator::init`, after the size check. -/
def RegionAllocator.init : InitPoint → BackendCall (Task InitPoint (Except AllocError Unit))
  | .storeMagic => .storeU64 (base + catHdrMagic) allocMagic (.running .storeCount)
  | .storeCount => .storeU64 (base + catHdrRegionCount) 0 (.running .storeTotalSize)
  | .storeTotalSize => .storeU64 (base + catHdrTotalSize) poolSize (.running .storeDataStart)
  | .storeDataStart =>
    .storeU64 (base + catHdrDataStart) ((base + catalogSize) % 2 ^ 64) (.running .flushHeader)
  | .flushHeader => .flush base catalogHeaderSize (InitPoint.head 0)
  | .storeState index =>
    .storeU8 (entryOffset base index + entState) RegionState.free.toU8 (InitPoint.head (index + 1))
  | .flushEntries =>
    .flush (base + catalogHeaderSize) (maxRegions * catalogEntrySize) (.returned (.ok ()))

/-- Program points of `open`. -/
inductive OpenPoint
  | loadMagic
  deriving DecidableEq

/-- What `open` returns for a magic number. -/
def openResult (magic : ℕ) : Except AllocError Unit :=
  if magic ≠ allocMagic then
    .error (.invalidState
      ("bad magic: expected 0x" ++ hex16 allocMagic ++ ", got 0x" ++ hex16 magic))
  else .ok ()

/-- `RegionAllocator::open`. -/
def RegionAllocator.open : OpenPoint → BackendCall (Task OpenPoint (Except AllocError Unit))
  | .loadMagic => .loadU64 (base + catHdrMagic) fun magic ↦ .returned (openResult magic)

/-! ### Creating a region -/

/-- Program points of `create_region`. -/
inductive CreatePoint
  | findRegion (loop : EntryLoop Unit)
  | findFreeSlot (loop : EntryLoop Unit)
  | loadDataStart (slot : ℕ)
  | nextFreeOffset (slot : ℕ) (loop : EntryLoop ℕ)
  | writeEntry (slot regionOffset : ℕ) (point : WriteEntryPoint)
  | storeActive (slot regionOffset : ℕ)
  | flushActive (slot regionOffset : ℕ)
  | loadCount (slot regionOffset : ℕ)
  | storeCount (slot regionOffset count : ℕ)
  | flushCount (slot regionOffset : ℕ)

section Create

variable (name : String) (size : ℕ)

/-- A slot was found, or none. -/
def CreatePoint.afterSlot : Option ℕ → Task CreatePoint (Except AllocError RegionHandle)
  | none => .returned (.error .catalogFull)
  | some slot => .running (.loadDataStart slot)

/-- The name exists already, or a slot is searched for. -/
def CreatePoint.afterFind :
    Except AllocError RegionHandle → Task CreatePoint (Except AllocError RegionHandle)
  | .ok _ => .returned (.error (.nameExists name))
  | .error _ =>
    (RegionAllocator.findFreeSlot.head 0 ()).fold (fun loop ↦ .running (.findFreeSlot loop))
      CreatePoint.afterSlot

/-- The length check `create_region` starts with. -/
def startCreate : Task CreatePoint (Except AllocError RegionHandle) :=
  if maxNameLen < (asBytes name).length then
    .returned (.error (.invalidState "name too long: max 24 bytes"))
  else ((RegionAllocator.findRegion name).head 0 ()).fold (fun loop ↦ .running (.findRegion loop))
    (CreatePoint.afterFind name)

/-- `pool_end`. -/
def poolEnd : ℕ := (base + poolSize) % 2 ^ 64

/-- The space check. -/
def CreatePoint.afterOffset (slot regionOffset : ℕ) :
    Task CreatePoint (Except AllocError RegionHandle) :=
  if poolEnd base poolSize < (regionOffset + size) % 2 ^ 64 then
    .returned (.error (.outOfSpace size (poolEnd base poolSize - regionOffset)))
  else .running (.writeEntry slot regionOffset .writeNameLen)

/-- The entry `create_region` writes. -/
def newEntry (regionOffset : ℕ) : CatalogEntry where
  state := .allocating
  name := name
  offset := regionOffset
  size := size
  createdEpoch := 0

/-- `RegionAllocator::create_region`, after the length check. -/
def RegionAllocator.createRegion :
    CreatePoint → BackendCall (Task CreatePoint (Except AllocError RegionHandle))
  | .findRegion loop =>
    ((RegionAllocator.findRegion name).next base loop).map <| Task.fold
      (fun loop ↦ .running (.findRegion loop)) (CreatePoint.afterFind name)
  | .findFreeSlot loop =>
    (RegionAllocator.findFreeSlot.next base loop).map <| Task.fold
      (fun loop ↦ .running (.findFreeSlot loop)) CreatePoint.afterSlot
  | .loadDataStart slot =>
    .loadU64 (base + catHdrDataStart) fun dataStart ↦
      (RegionAllocator.nextFreeOffset.head 0 dataStart).fold
        (fun loop ↦ .running (.nextFreeOffset slot loop))
        (CreatePoint.afterOffset base poolSize size slot)
  | .nextFreeOffset slot loop =>
    (RegionAllocator.nextFreeOffset.next base loop).map <| Task.fold
      (fun loop ↦ .running (.nextFreeOffset slot loop))
      (CreatePoint.afterOffset base poolSize size slot)
  | .writeEntry slot regionOffset point =>
    (Catalog.writeEntry base slot (newEntry name size regionOffset) point).map <| Task.fold
      (fun point ↦ .running (.writeEntry slot regionOffset point))
      fun _ ↦ .running (.storeActive slot regionOffset)
  | .storeActive slot regionOffset =>
    .storeU8 (entryOffset base slot + entState) RegionState.active.toU8
      (.running (.flushActive slot regionOffset))
  | .flushActive slot regionOffset =>
    .flush (entryOffset base slot) 64 (.running (.loadCount slot regionOffset))
  | .loadCount slot regionOffset =>
    .loadU64 (base + catHdrRegionCount) fun count ↦ .running (.storeCount slot regionOffset count)
  | .storeCount slot regionOffset count =>
    .storeU64 (base + catHdrRegionCount) (count + 1) (.running (.flushCount slot regionOffset))
  | .flushCount slot regionOffset =>
    .flush base catalogHeaderSize (.returned (.ok ⟨slot, name, regionOffset, size⟩))

end Create

/-! ### Freeing a region -/

/-- Program points of `free_region`. -/
inductive FreePoint
  | findRegion (loop : EntryLoop Unit)
  | storeFreeing (slot : ℕ)
  | flushFreeing (slot : ℕ)
  | storeFree (slot : ℕ)
  | flushFree (slot : ℕ)
  | loadCount
  | storeCount (count : ℕ)
  | flushCount

/-- The region was found, or not. -/
def FreePoint.afterFind :
    Except AllocError RegionHandle → Task FreePoint (Except AllocError Unit)
  | .ok handle => .running (.storeFreeing handle.slot)
  | .error error => .returned (.error error)

/-- `RegionAllocator::free_region`. -/
def RegionAllocator.freeRegion (name : String) :
    FreePoint → BackendCall (Task FreePoint (Except AllocError Unit))
  | .findRegion loop =>
    ((RegionAllocator.findRegion name).next base loop).map <| Task.fold
      (fun loop ↦ .running (.findRegion loop)) FreePoint.afterFind
  | .storeFreeing slot =>
    .storeU8 (entryOffset base slot + entState) RegionState.freeing.toU8
      (.running (.flushFreeing slot))
  | .flushFreeing slot => .flush (entryOffset base slot) 64 (.running (.storeFree slot))
  | .storeFree slot =>
    .storeU8 (entryOffset base slot + entState) RegionState.free.toU8 (.running (.flushFree slot))
  | .flushFree slot => .flush (entryOffset base slot) 64 (.running .loadCount)
  | .loadCount =>
    .loadU64 (base + catHdrRegionCount) fun count ↦
      if 0 < count then .running (.storeCount count) else .returned (.ok ())
  | .storeCount count => .storeU64 (base + catHdrRegionCount) (count - 1) (.running .flushCount)
  | .flushCount => .flush base catalogHeaderSize (.returned (.ok ()))

/-! ### Recovery -/

/-- Program points of `recover`. -/
inductive CatalogRecoverPoint
  | readEntry (index fixed : ℕ) (point : ReadEntryPoint)
  | storeFree (index fixed : ℕ)
  | flushFree (index fixed : ℕ)
  deriving DecidableEq

/-- The head of the loop of `recover`. -/
def CatalogRecoverPoint.head (index fixed : ℕ) : Task CatalogRecoverPoint ℕ :=
  if index < maxRegions then .running (.readEntry index fixed .loadState) else .returned fixed

/-- Whether an entry is rolled back or forward. -/
def CatalogRecoverPoint.body (index fixed : ℕ) (entry : CatalogEntry) :
    Task CatalogRecoverPoint ℕ :=
  if entry.state = .allocating ∨ entry.state = .freeing then .running (.storeFree index fixed)
  else CatalogRecoverPoint.head (index + 1) fixed

/-- `RegionAllocator::recover`. -/
def RegionAllocator.recover : CatalogRecoverPoint → BackendCall (Task CatalogRecoverPoint ℕ)
  | .readEntry index fixed point =>
    (Catalog.readEntry base index point).map <| Task.fold
      (fun point ↦ .running (.readEntry index fixed point)) (CatalogRecoverPoint.body index fixed)
  | .storeFree index fixed =>
    .storeU8 (entryOffset base index + entState) RegionState.free.toU8
      (.running (.flushFree index fixed))
  | .flushFree index fixed =>
    .flush (entryOffset base index) 64 (CatalogRecoverPoint.head (index + 1) (fixed + 1))

/-! ### Calls in flight -/

/-- A request to an allocator of the pool. -/
inductive AllocRequest
  | init
  | openPool
  | createRegion (name : String) (size : UInt64)
  | freeRegion (name : String)
  | findRegion (name : String)
  | listRegions
  | recover
  deriving DecidableEq, Repr

/-- A call with its arguments, in flight or returned. -/
inductive AllocCall
  | init (task : Task InitPoint (Except AllocError Unit))
  | openPool (task : Task OpenPoint (Except AllocError Unit))
  | createRegion (name : String) (size : UInt64)
      (task : Task CreatePoint (Except AllocError RegionHandle))
  | freeRegion (name : String) (task : Task FreePoint (Except AllocError Unit))
  | findRegion (name : String) (task : Task (EntryLoop Unit) (Except AllocError RegionHandle))
  | listRegions (task : Task (EntryLoop (List RegionHandle)) (List RegionHandle))
  | recover (task : Task CatalogRecoverPoint ℕ)

/-- What a call returns. For the two constructors, whether there is an allocator now. -/
inductive AllocAnswer
  | ready (result : Except AllocError Unit)
  | created (result : Except AllocError RegionHandle)
  | freed (result : Except AllocError Unit)
  | found (result : Except AllocError RegionHandle)
  | listed (regions : List RegionHandle)
  | recovered (fixed : ℕ)
  deriving DecidableEq

/-- The call a request starts. -/
def AllocRequest.call : AllocRequest → AllocCall
  | .init => .init (startInit poolSize)
  | .openPool => .openPool (.running .loadMagic)
  | .createRegion name size => .createRegion name size (startCreate name)
  | .freeRegion name =>
    .freeRegion name (((RegionAllocator.findRegion name).head 0 ()).fold
      (fun loop ↦ .running (.findRegion loop)) FreePoint.afterFind)
  | .findRegion name => .findRegion name ((RegionAllocator.findRegion name).head 0 ())
  | .listRegions => .listRegions (RegionAllocator.listRegions.head 0 [])
  | .recover => .recover (CatalogRecoverPoint.head 0 0)

/-- The next backend call of a call in flight. -/
def AllocCall.next : AllocCall → Option (BackendCall AllocCall)
  | .init (.running point) => some ((RegionAllocator.init base poolSize point).map .init)
  | .openPool (.running point) => some ((RegionAllocator.open base point).map .openPool)
  | .createRegion name size (.running point) =>
    some ((RegionAllocator.createRegion base poolSize name size.toNat point).map
      (.createRegion name size))
  | .freeRegion name (.running point) =>
    some ((RegionAllocator.freeRegion base name point).map (.freeRegion name))
  | .findRegion name (.running loop) =>
    some (((RegionAllocator.findRegion name).next base loop).map (.findRegion name))
  | .listRegions (.running loop) =>
    some ((RegionAllocator.listRegions.next base loop).map .listRegions)
  | .recover (.running point) => some ((RegionAllocator.recover base point).map .recover)
  | _ => none

/-- One step of a call. A returned call stays as it is. -/
def AllocCall.step (call : AllocCall) (memory : Memory) : AllocCall × Memory :=
  match call.next base poolSize with
  | some next => next.exec memory
  | none => (call, memory)

/-- What a call has returned. -/
def AllocCall.answer : AllocCall → Option AllocAnswer
  | .init (.returned result) => some (.ready result)
  | .openPool (.returned result) => some (.ready result)
  | .createRegion _ _ (.returned result) => some (.created result)
  | .freeRegion _ (.returned result) => some (.freed result)
  | .findRegion _ (.returned result) => some (.found result)
  | .listRegions (.returned regions) => some (.listed regions)
  | .recover (.returned fixed) => some (.recovered fixed)
  | _ => none

/-- Any number of calls on one pool, each backend call an atomic step. -/
def allocatorMachine : Machine AllocRequest AllocCall Memory Empty where
  start := AllocRequest.call poolSize
  step := AllocCall.step base poolSize
  env := fun event _ ↦ event.elim

end Fence
