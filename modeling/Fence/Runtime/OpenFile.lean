import Fence.Core.RawGeometry
import Fence.Runtime.Open

/-!
# What opening does to a file

`MmapBackend::open` and `FenceRuntime::open` with every way they may fail. The file may be absent,
and each system call may fail, with a text. `openFile` says what is returned and what file is left,
with the geometry the machine computes. Where the system grants everything and the geometry is exact
it is `FenceRuntime.open` (`openFile_of_granted`).
-/

set_option autoImplicit false
set_option relaxedAutoImplicit false

namespace Fence

open ByteMemory

/-! ### The system -/

/-- The text of each system call of `MmapBackend::open` that fails. -/
structure SystemFailures where
  openError : Option String
  ftruncateError : Option String
  mmapError : Option String
  deriving DecidableEq, Repr

/-- No call fails. -/
def SystemFailures.none : SystemFailures := ⟨.none, .none, .none⟩

/-- The conversion of a path to a C string. There is no text when the path is not UTF-8. -/
def MmapBackend.cPath (path : Option String) : Except FenceError String :=
  match path with
  | none => .error (.mmapFailed "path contains invalid UTF-8")
  | some text =>
    if Char.ofNat 0 ∈ text.toList then .error (.mmapFailed "path contains null byte") else .ok text

/-- `MmapBackend::open`: the memory it maps, and the file it leaves. -/
def MmapBackend.open (failures : SystemFailures) (path : Option String) (size : ℕ)
    (file : Option (List UInt8)) : Except FenceError Memory × Option (List UInt8) :=
  match MmapBackend.cPath path with
  | .error error => (.error error, file)
  | .ok _ =>
    match failures.openError with
    | some detail => (.error (.mmapFailed ("open() failed: " ++ detail)), file)
    | none =>
      -- `O_CREAT`
      let opened := file.getD []
      match failures.ftruncateError with
      | some detail => (.error (.mmapFailed ("ftruncate() failed: " ++ detail)), some opened)
      | none =>
        let resized := ftruncate opened size
        match failures.mmapError with
        | some detail => (.error (.mmapFailed ("mmap() failed: " ++ detail)), some resized)
        | none => (.ok (mapped resized), some resized)

/-! ### Opening -/

/-- The header stores of `FenceRuntime::open`, with the geometry of the machine. -/
def RawGeometry.createHeader (raw : RawGeometry) (memory : Memory) : Memory :=
  let memory := storeWord memory hdrMagic 8 magicNumber
  let memory := storeWord memory hdrCapacity 8 raw.capacity.toNat
  let memory := storeWord memory hdrRecordSize 8 raw.recordSize.toNat
  let memory := storeWord memory hdrMaxHosts 8 raw.maxHosts.toNat
  let memory := storeWord memory hdrCommittedTail 8 0
  let memory := storeWord memory hdrReserveTail 8 0
  storeWord memory hdrEpoch 8 1

/-- A `FenceRuntime` with the geometry of the machine. -/
structure RawRuntime where
  geometry : RawGeometry
  hostId : UInt16
  memory : Memory

/-- `FenceRuntime::open` of a release build: what it returns, and the file it leaves. The result is
`none` where an assertion fails. -/
def FenceRuntime.openFile (failures : SystemFailures) (path : Option String) (config : PoolConfig)
    (file : Option (List UInt8)) : Option (Except FenceError RawRuntime × Option (List UInt8)) :=
  (RawGeometry.new config.capacity config.payloadSize config.maxHosts).map fun geometry ↦
    match MmapBackend.open failures path geometry.totalSize.toNat file with
    | (.error error, later) => (.error error, later)
    | (.ok memory, later) =>
      if config.create then
        (.ok ⟨geometry, config.hostId, geometry.createHeader memory⟩,
          some (unmapped (geometry.createHeader memory) geometry.totalSize.toNat))
      else if loadWord memory hdrMagic 8 ≠ magicNumber then
        (.error (.invalidMagic magicNumber (loadWord memory hdrMagic 8)), later)
      else (.ok ⟨geometry, config.hostId, memory⟩, later)

/-! ### Resized files -/

section Resized

variable {bytes : List UInt8} {size : ℕ}

/-- A file is left alone when it has the size already, and only then. -/
theorem ftruncate_eq_self_iff : ftruncate bytes size = bytes ↔ bytes.length = size := by
  constructor
  · intro hsame
    rw [← hsame, length_ftruncate]
  · rintro rfl
    simp [ftruncate]

/-- No byte is cut off a file that is at most as long as the size, and only then. -/
theorem prefix_ftruncate_iff : bytes <+: ftruncate bytes size ↔ bytes.length ≤ size := by
  constructor
  · intro hprefix
    have hlength := hprefix.length_le
    rwa [length_ftruncate] at hlength
  · intro hle
    rw [ftruncate, List.take_of_length_le hle]
    exact List.prefix_append _ _

/-- The magic number of a file is there after it is resized. -/
theorem magic_mapped_ftruncate (hsize : 8 ≤ size) :
    loadWord (mapped (ftruncate bytes size)) hdrMagic 8 = loadWord (mapped bytes) hdrMagic 8 :=
  loadWord_congr (load_congr fun i hi ↦ mapped_ftruncate_of_lt (by unfold hdrMagic; omega))

end Resized

/-- A pool has room for its magic number. -/
theorem RawGeometry.headerSize_le_totalSize {capacity payloadSize : UInt32} {maxHosts : UInt16}
    {raw : RawGeometry} (hnew : RawGeometry.new capacity payloadSize maxHosts = some raw) :
    headerSize ≤ raw.totalSize.toNat := by
  rw [RawGeometry.totalSize_toNat hnew, Nat.add_assoc]
  exact Nat.le_add_right _ _

/-! ### Where nothing fails -/

variable {config : PoolConfig} {path : Option String} {file : Option (List UInt8)}
  {raw : RawGeometry}

/-- The host and the memory of the runtime that is opened, when the system grants everything and the
geometry is exact. -/
theorem FenceRuntime.openFile_of_granted {text : String}
    (hpath : MmapBackend.cPath path = .ok text)
    (hnew : RawGeometry.new config.capacity config.payloadSize config.maxHosts = some raw)
    (hexact : raw.Exact) :
    (FenceRuntime.openFile .none path config file).map (fun opened ↦
        opened.1.map fun runtime ↦ (runtime.hostId, runtime.memory)) =
      (FenceRuntime.open config (file.getD [])).map fun result ↦
        result.map fun runtime ↦ (runtime.hostId, runtime.memory) := by
  obtain ⟨g, hpool, hcapacity, -, hhosts, hrecord, htotal⟩ := RawGeometry.exists_pool hnew hexact
  obtain ⟨hrawCapacity, -, hrawHosts⟩ := RawGeometry.fields_eq hnew
  have hheader : ∀ memory, raw.createHeader memory = createHeader g memory := by
    intro memory
    rw [RawGeometry.createHeader, createHeader, hcapacity, hhosts, hrecord, hrawCapacity,
      hrawHosts]
  rw [FenceRuntime.openFile, FenceRuntime.open, hnew, hpool]
  simp only [Option.map_some, MmapBackend.open, hpath, SystemFailures.none, htotal, hheader]
  split_ifs <;> rfl

end Fence
