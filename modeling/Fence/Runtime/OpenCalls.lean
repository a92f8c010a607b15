import Fence.Core.Routine
import Fence.Runtime.CachedEngine
import Fence.Runtime.Open

/-!
# Opening a pool, call by call

What `FenceRuntime::open` does once the file is mapped, one backend call at a time: the header of a
new pool is stored word by word and then flushed, and of a pool that is opened the magic number is
loaded. Alone it does what `FenceRuntime.open` says (`FenceRuntime.open_eq_of_calls`). Any number of
hosts may open one file at the same time, on a memory with a volatile cache.
-/

set_option autoImplicit false
set_option relaxedAutoImplicit false

namespace Fence

open ByteMemory Interleaving

/-- Program points of `FenceRuntime::open`, each a backend call. -/
inductive PoolOpenPoint
  | storeMagic
  | storeCapacity
  | storeRecordSize
  | storeMaxHosts
  | storeCommittedTail
  | storeReserveTail
  | storeEpoch
  | flushHeader
  | loadMagic
  deriving DecidableEq, Repr

/-- What `FenceRuntime::open` does with the magic number of a pool that exists. -/
def checkMagic (magic : ℕ) : Except FenceError Unit :=
  if magic ≠ magicNumber then .error (.invalidMagic magicNumber magic) else .ok ()

variable (g : PoolGeometry)

/-- `FenceRuntime::open`, after the file was mapped. -/
def FenceRuntime.openMapped :
    PoolOpenPoint → BackendCall (Task PoolOpenPoint (Except FenceError Unit))
  | .storeMagic => .storeU64 hdrMagic magicNumber (.running .storeCapacity)
  | .storeCapacity => .storeU64 hdrCapacity g.capacity (.running .storeRecordSize)
  | .storeRecordSize => .storeU64 hdrRecordSize g.recordSize (.running .storeMaxHosts)
  | .storeMaxHosts => .storeU64 hdrMaxHosts g.maxHosts (.running .storeCommittedTail)
  | .storeCommittedTail => .storeU64 hdrCommittedTail 0 (.running .storeReserveTail)
  | .storeReserveTail => .storeU64 hdrReserveTail 0 (.running .storeEpoch)
  | .storeEpoch => .storeU64 hdrEpoch 1 (.running .flushHeader)
  | .flushHeader => .flush 0 headerSize (.returned (.ok ()))
  | .loadMagic => .loadU64 hdrMagic fun magic ↦ .returned (checkMagic magic)

/-- The first call of `FenceRuntime::open`. -/
def PoolOpenPoint.first (create : Bool) : PoolOpenPoint :=
  if create then .storeMagic else .loadMagic

/-- A call of `FenceRuntime::open` in flight, or returned. -/
structure OpenCall where
  create : Bool
  task : Task PoolOpenPoint (Except FenceError Unit)
  deriving DecidableEq

/-- Any number of hosts that open one file. The environment writes back lines. -/
def cachedOpenMachine : Machine Bool OpenCall CachedMemory ℕ where
  start := fun create ↦ ⟨create, .running (.first create)⟩
  step := fun call memory ↦
    match call.task with
    | .running point => ((FenceRuntime.openMapped g point).execCached memory).map
        (fun task ↦ { call with task := task }) id
    | .returned _ => (call, memory)
  env := fun line memory ↦ memory.writeBack cacheline line

variable {g}

/-! ### A call alone -/

/-- Alone on the mapped file, the calls come to what `FenceRuntime.open` says. -/
theorem FenceRuntime.open_eq_of_calls {config : PoolConfig} {geometry : PoolGeometry}
    (hgeometry : PoolGeometry.new config.capacity config.payloadSize config.maxHosts =
      some geometry) (file : List UInt8) :
    ∃ outcome later, (routineMachine (FenceRuntime.openMapped geometry)).Ends
        (.running (.first config.create)) (mapped (ftruncate file geometry.totalSize))
        (.returned outcome) later ∧
      FenceRuntime.open config file =
        some (outcome.map fun _ ↦ ⟨geometry, config.hostId, later⟩) := by
  rw [FenceRuntime.open, hgeometry, Option.map_some]
  cases config.create with
  | true =>
    refine ⟨.ok (), createHeader geometry (mapped (ftruncate file geometry.totalSize)), ?_, rfl⟩
    iterate 8 refine .step ?_
    exact .refl _ _
  | false =>
    refine ⟨checkMagic (loadWord (mapped (ftruncate file geometry.totalSize)) hdrMagic 8), _,
      .step (.refl _ _), ?_⟩
    rw [checkMagic, if_neg Bool.false_ne_true]
    split_ifs <;> rfl

end Fence
