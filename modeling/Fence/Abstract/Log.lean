import Fence.Runtime.Engine

/-!
# The log a pool stands for

The pool is there to hold a log. `Log.serve` says what the four operations of a runtime do to it,
with no memory, no slot and no tail: an append pushes an entry while there is room, a read returns
an entry that was not trimmed, a trim marks the entries up to a bound, and a recovery finds nothing
to do. `Call.answer` is what a call of the runtime has returned, in the same words.
-/

set_option autoImplicit false
set_option relaxedAutoImplicit false

namespace Fence

/-- What a call has returned. -/
inductive Answer
  | append (outcome : Except FenceError ℕ)
  | read (outcome : Except FenceError (Option Record))
  | trim (outcome : Except FenceError TrimResult)
  | recover (report : RecoveryReport)
  deriving DecidableEq

/-- The answer of a call that has returned. -/
def Call.answer : Call → Option Answer
  | .append _ (.returned outcome) => some (.append outcome)
  | .read _ _ (.returned outcome) => some (.read outcome)
  | .trim _ (.returned outcome) => some (.trim outcome)
  | .recover _ (.returned report) => some (.recover report)
  | _ => none

/-- An entry of the log, and whether it was trimmed. -/
structure LogEntry where
  entry : Entry
  trimmed : Bool
  deriving DecidableEq

/-- The log, its first entry being the one of index one. -/
abbrev Log := List LogEntry

namespace Log

/-- The entry an index names. -/
def read (log : Log) (index : ℕ) : Except FenceError (Option Record) :=
  if index = 0 ∨ log.length < index then .error (.indexOutOfBounds index log.length)
  else .ok (log[index - 1]?.bind fun item ↦
    if item.trimmed then none
    else some ⟨index, item.entry.term.toNat, item.entry.hostId.toNat, item.entry.data⟩)

/-- The log with its first entries marked. -/
def markTrimmed (log : Log) (bound : ℕ) : Log :=
  log.mapIdx fun slot item ↦ if slot < bound then { item with trimmed := true } else item

/-- How many of the first entries are not marked yet. -/
def countLive (log : Log) (bound : ℕ) : ℕ :=
  (log.take bound).countP fun item ↦ !item.trimmed

/-- The four operations on the log of a pool with given dimensions. -/
def serve (g : PoolGeometry) : Request → Log → Answer × Log
  | .append entry, log =>
    if g.payloadSize < entry.data.length then
      (.append (.error (.payloadTooLarge g.payloadSize entry.data.length)), log)
    else if log.length = g.capacity then
      (.append (.error (.poolFull g.capacity log.length)), log)
    else (.append (.ok (log.length + 1)), log ++ [⟨entry, false⟩])
  | .read _ index, log => (.read (log.read index.toNat), log)
  | .trim upTo, log =>
    if log.length < upTo.toNat then
      (.trim (.error (.trimBeyondCommitted upTo.toNat log.length)), log)
    else (.trim (.ok ⟨log.countLive upTo.toNat⟩), log.markTrimmed upTo.toNat)
  | .recover _, log => (.recover ⟨0, log.length, log.length⟩, log)

end Log

/-! ### Marking entries -/

section MarkTrimmed

variable (log : Log) (bound : ℕ)

@[simp] theorem Log.length_markTrimmed : (log.markTrimmed bound).length = log.length :=
  List.length_mapIdx

theorem Log.getElem?_markTrimmed (slot : ℕ) :
    (log.markTrimmed bound)[slot]? =
      log[slot]?.map fun item ↦ if slot < bound then { item with trimmed := true } else item :=
  List.getElem?_mapIdx

end MarkTrimmed

end Fence
