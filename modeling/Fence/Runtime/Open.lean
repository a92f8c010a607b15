import Fence.Core.Config
import Fence.Runtime.Engine
import Mathlib.Data.List.GetD

/-!
# Opening a pool

`FenceRuntime::open` of `engine.rs` with `MmapBackend::open` of `mmap_backend.rs`. The backing file
is a list of bytes. It is cut or extended to the size of the geometry the caller asks for, and
mapped. A pool that is created gets its header written; of one that is opened only the magic number
is looked at. The system is taken to grant any size, so that neither the file nor the mapping fails.
-/

set_option autoImplicit false
set_option relaxedAutoImplicit false

namespace Fence

open ByteMemory

/-- `PoolConfig`, less the path. -/
structure PoolConfig where
  capacity : UInt32
  payloadSize : UInt32
  maxHosts : UInt16
  hostId : UInt16
  create : Bool
  deriving DecidableEq, Repr

/-- The pool configuration of a configuration file. -/
def FenceConfig.poolConfig (config : FenceConfig) (create : Bool) : PoolConfig where
  capacity := config.pool.capacity
  payloadSize := config.pool.payloadSize
  maxHosts := config.pool.maxHosts
  hostId := config.host.hostId
  create := create

/-! ### Backing files -/

/-- `ftruncate`: a file is cut, or extended with zeros. -/
def ftruncate (file : List UInt8) (size : ℕ) : List UInt8 :=
  file.take size ++ List.replicate (size - file.length) 0

/-- The memory a file is mapped to. -/
def mapped (file : List UInt8) : Memory := fun address ↦ file.getD address 0

/-- The bytes of a file that was mapped with a size. -/
def unmapped (memory : Memory) (size : ℕ) : List UInt8 := load memory 0 size

/-! ### Opening -/

/-- A `FenceRuntime`, with the memory its backend maps. -/
structure Runtime where
  geometry : PoolGeometry
  hostId : UInt16
  memory : Memory

/-- `FenceRuntime::open` of either build, for records that fit 32 bits. The result is `none` for
others, and where an assertion fails. -/
def FenceRuntime.open (config : PoolConfig) (file : List UInt8) :
    Option (Except FenceError Runtime) :=
  (PoolGeometry.new config.capacity config.payloadSize config.maxHosts).map fun geometry ↦
    let memory := mapped (ftruncate file geometry.totalSize)
    if config.create then .ok ⟨geometry, config.hostId, createHeader geometry memory⟩
    else if loadWord memory hdrMagic 8 ≠ magicNumber then
      .error (.invalidMagic magicNumber (loadWord memory hdrMagic 8))
    else .ok ⟨geometry, config.hostId, memory⟩

/-! ### What a file holds -/

section File

variable {file : List UInt8} {memory : Memory} {size address : ℕ}

@[simp] theorem length_ftruncate (file : List UInt8) (size : ℕ) :
    (ftruncate file size).length = size := by
  rw [ftruncate, List.length_append, List.length_take, List.length_replicate]
  omega

/-- A mapped file has the bytes of the file up to its size. -/
theorem mapped_ftruncate_of_lt (haddress : address < size) :
    mapped (ftruncate file size) address = mapped file address := by
  unfold mapped ftruncate
  by_cases hinside : address < file.length
  · rw [List.getD_append _ _ _ _ (by rw [List.length_take]; omega), List.getD_eq_getElem?_getD,
      List.getD_eq_getElem?_getD, List.getElem?_take_of_lt haddress]
  · rw [List.getD_append_right _ _ _ _ (by rw [List.length_take]; omega),
      List.getD_eq_default _ _ (Nat.le_of_not_lt hinside)]
    exact List.getElem?_getD_replicate_default_eq _ _ _

/-- A mapped file is zero past its size. -/
theorem mapped_of_length_le (haddress : file.length ≤ address) : mapped file address = 0 :=
  List.getD_eq_default _ _ haddress

/-- A file that was mapped has the bytes of the memory. -/
theorem mapped_unmapped_of_lt (haddress : address < size) :
    mapped (unmapped memory size) address = memory address := by
  unfold mapped unmapped
  rw [List.getD_eq_getElem _ _ (by rwa [length_load]), getElem_load, Nat.zero_add]

end File

end Fence
