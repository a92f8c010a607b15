import Fence.Runtime.ReadRange

/-!
# Ranges among other calls

Any number of calls of `read_range` run next to appends, reads, trims and recoveries. A range whose
vector cannot be allocated ends the process before its first read, so a `RangeRequest` is one that
gets its vector. In between its backend calls a range is in the read of one index, which is a read
like any other (`RangePoint.read`).
-/

set_option autoImplicit false
set_option relaxedAutoImplicit false

namespace Fence

open ByteMemory Interleaving

/-- A call of `read_range` that gets its vector. -/
structure RangeRequest where
  checked : Bool
  hostId : UInt16
  startIndex : UInt64
  endIndex : UInt64
  starts : (startReadRange checked startIndex endIndex).isSome = true
  deriving DecidableEq

/-- A call of `read_range` in flight, or returned. -/
structure RangeCall where
  request : RangeRequest
  task : Task RangePoint (Except FenceError (List Record))
  deriving DecidableEq

/-- The call a request starts. -/
def RangeRequest.call (request : RangeRequest) : RangeCall where
  request := request
  task := (startReadRange request.checked request.startIndex request.endIndex).get request.starts

/-- The read a range is in. -/
def RangePoint.read (hostId : UInt16) (range : RangePoint) : Call :=
  .read hostId (UInt64.ofNat range.index) (.running range.point)

variable (g : PoolGeometry) (hasher : Hasher)

/-- One step of a range. A returned one stays as it is. -/
def RangeCall.step (call : RangeCall) (memory : Memory) : RangeCall × Memory :=
  match call.task with
  | .running range =>
    ((FenceRuntime.readRange g hasher call.request.hostId call.request.endIndex.toNat range).exec
      memory).map (fun task ↦ { call with task := task }) id
  | .returned _ => (call, memory)

/-- Any number of ranges on one memory. -/
def rangeMachine : Machine RangeRequest RangeCall Memory Empty where
  start := RangeRequest.call
  step := RangeCall.step g hasher
  env := fun event _ ↦ event.elim

/-- Any number of calls of all kinds and of ranges on one memory. -/
def rangesMachine : Machine (Request ⊕ RangeRequest) (Call ⊕ RangeCall) Memory Empty :=
  (runtimeMachine g hasher).sum (rangeMachine g hasher)

/-- A pool just created. -/
def freshRanges : Config (Call ⊕ RangeCall) Memory := ⟨freshMemory g, []⟩

end Fence
