import Fence.Core.Routine
import Fence.Runtime.Engine

/-!
# Reading a range

`read_range` of `engine.rs`: it allocates a vector for as many records as the range has indices, and
then reads one index after the other, up to the first error. `startReadRange` is `none` where the
call does not return: the length is computed by a subtraction, which wraps or panics by the build,
and a vector of more than `isize::MAX` bytes cannot be allocated. Smaller vectors are taken to be
granted: memory is never exhausted here.
-/

set_option autoImplicit false
set_option relaxedAutoImplicit false

namespace Fence

open Interleaving

/-- The bytes of a `Record` in a vector: three words, and the three words of its payload vector. -/
def sizeOfRecord : ℕ := 48

/-- The most bytes a vector may have. -/
def isizeMax : ℕ := 2 ^ 63 - 1

/-- A `u64` subtraction, in a build that checks for overflows or in one that does not. -/
def subU64 (checked : Bool) (first second : UInt64) : Option UInt64 :=
  if checked = true ∧ first < second then none else some (first - second)

/-- Program points of `read_range`: in the read of an index, with the records found before it. -/
structure RangePoint where
  index : ℕ
  records : List Record
  point : ReadPoint
  deriving DecidableEq

/-- The head of the loop of `read_range`. -/
def RangePoint.head (endIndex index : ℕ) (records : List Record) :
    Task RangePoint (Except FenceError (List Record)) :=
  if index < endIndex then
    (startRead index).fold (fun point ↦ .running ⟨index, records, point⟩)
      fun outcome ↦ .returned (outcome.map fun found ↦ records ++ found.toList)
  else .returned (.ok records)

/-- What `read_range` does with the outcome of a read. -/
def RangePoint.next (endIndex index : ℕ) (records : List Record) :
    Except FenceError (Option Record) → Task RangePoint (Except FenceError (List Record))
  | .error error => .returned (.error error)
  | .ok (some record) => RangePoint.head endIndex (index + 1) (records ++ [record])
  -- an abandoned or free slot is skipped
  | .ok none => RangePoint.head endIndex (index + 1) records

/-- `FenceRuntime::read_range`, after the allocation. -/
def FenceRuntime.readRange (g : PoolGeometry) (hasher : Hasher) (hostId : UInt16) (endIndex : ℕ)
    (range : RangePoint) : BackendCall (Task RangePoint (Except FenceError (List Record))) :=
  (FenceRuntime.read g hasher hostId range.index range.point).map
    (Task.fold (fun point ↦ .running ⟨range.index, range.records, point⟩)
      (RangePoint.next endIndex range.index range.records))

/-- The allocation `read_range` starts with. A vector of more than `isize::MAX` bytes cannot be had,
and one of at most that many is taken to be granted. -/
def startReadRange (checked : Bool) (startIndex endIndex : UInt64) :
    Option (Task RangePoint (Except FenceError (List Record))) :=
  match subU64 checked endIndex startIndex with
  | none => none
  | some capacity =>
    if isizeMax < capacity.toNat * sizeOfRecord then none
    else some (RangePoint.head endIndex.toNat startIndex.toNat [])

end Fence
