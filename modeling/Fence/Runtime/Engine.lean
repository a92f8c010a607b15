import Fence.Runtime.Recovery

/-!
# The runtime engine

The routines of `engine.rs`, with `trim` of `compaction.rs` and the counters of `metrics.rs`:
`append`, `read`, `trim` and `recover` of a `FenceRuntime`, as machines over program points.
Every point is named after the backend call made there. A `Call` is a call in flight or
returned, with its arguments, and `runtimeMachine` lets any number of calls interleave on one
memory. `freshMemory` is the memory `FenceRuntime::open` leaves when it creates a pool on an
all-zero file.
-/

set_option autoImplicit false
set_option relaxedAutoImplicit false

namespace Fence

open ByteMemory Interleaving

variable (g : PoolGeometry)

/-! ### Metrics -/

def metricsAppendsTotal : ℕ := 0
def metricsAppendsFailed : ℕ := 8
def metricsBytesWritten : ℕ := 16
def metricsReadsTotal : ℕ := 24
def metricsChecksumFailures : ℕ := 32
def metricsRecoveryRuns : ℕ := 40
def metricsAbandonedFound : ℕ := 48

section Metrics

variable {Next : Type}

/-- Adds to one counter of a host's metrics block. -/
def Metrics.incrementCounter (field : ℕ) (hostId : UInt16) (n : ℕ) (next : Next) :
    BackendCall Next :=
  .fetchAddU64 (g.metricsOffset hostId.toNat + field) n fun _ ↦ next

/-- `increment_appends`. -/
def Metrics.incrementAppends (hostId : UInt16) (next : Next) : BackendCall Next :=
  Metrics.incrementCounter g metricsAppendsTotal hostId 1 next

/-- `increment_appends_failed`. -/
def Metrics.incrementAppendsFailed (hostId : UInt16) (next : Next) : BackendCall Next :=
  Metrics.incrementCounter g metricsAppendsFailed hostId 1 next

/-- `increment_bytes_written`. -/
def Metrics.incrementBytesWritten (hostId : UInt16) (n : ℕ) (next : Next) : BackendCall Next :=
  Metrics.incrementCounter g metricsBytesWritten hostId n next

/-- `increment_reads`. -/
def Metrics.incrementReads (hostId : UInt16) (next : Next) : BackendCall Next :=
  Metrics.incrementCounter g metricsReadsTotal hostId 1 next

/-- `increment_checksum_failures`. -/
def Metrics.incrementChecksumFailures (hostId : UInt16) (next : Next) : BackendCall Next :=
  Metrics.incrementCounter g metricsChecksumFailures hostId 1 next

/-- `increment_recovery_runs`. -/
def Metrics.incrementRecoveryRuns (hostId : UInt16) (next : Next) : BackendCall Next :=
  Metrics.incrementCounter g metricsRecoveryRuns hostId 1 next

/-- `increment_abandoned_found`. -/
def Metrics.incrementAbandonedFound (hostId : UInt16) (n : ℕ) (next : Next) : BackendCall Next :=
  Metrics.incrementCounter g metricsAbandonedFound hostId n next

end Metrics

/-! ### Creating a pool -/

/-- The header stores of `FenceRuntime::open` with `create` set. -/
def createHeader (memory : Memory) : Memory :=
  let memory := storeWord memory hdrMagic 8 magicNumber
  let memory := storeWord memory hdrCapacity 8 g.capacity
  let memory := storeWord memory hdrRecordSize 8 g.recordSize
  let memory := storeWord memory hdrMaxHosts 8 g.maxHosts
  let memory := storeWord memory hdrCommittedTail 8 0
  let memory := storeWord memory hdrReserveTail 8 0
  storeWord memory hdrEpoch 8 1

/-- The memory of a pool created on an all-zero file. -/
def freshMemory : Memory := createHeader g fun _ ↦ 0

/-! ### Append -/

/-- What one append call is asked to write: the host of the runtime, and the two arguments. -/
structure Entry where
  hostId : UInt16
  term : UInt64
  data : List UInt8
  deriving DecidableEq, Repr

/-- Program points of `append`. -/
inductive AppendPoint
  | reserve
  | undo (slot : ℕ)
  | countFailed (slot : ℕ)
  | storeWriting (slot : ℕ)
  | storeTerm (slot : ℕ)
  | storeIndex (slot : ℕ)
  | storeWriterId (slot : ℕ)
  | writeDataLen (slot : ℕ)
  | writePayload (slot : ℕ)
  | storeChecksum (slot : ℕ)
  | flushRecord (slot : ℕ)
  | storeCommitted (slot : ℕ)
  | flushState (slot : ℕ)
  | sweep (slot : ℕ) (point : SweepPoint)
  | countAppends (slot : ℕ)
  | countBytes (slot : ℕ)
  deriving DecidableEq

/-- The size check `append` starts with. -/
def startAppend (entry : Entry) : Task AppendPoint (Except FenceError ℕ) :=
  if g.payloadSize < entry.data.length then
    .returned (.error (.payloadTooLarge g.payloadSize entry.data.length))
  else .running .reserve

/-- The record offset `append` computes for its slot. -/
def appendOffset (slot : ℕ) : ℕ := g.recordOffset (asU32 slot)

variable (hasher : Hasher)

/-- `FenceRuntime::append`, after the size check. -/
def FenceRuntime.append (entry : Entry) :
    AppendPoint → BackendCall (Task AppendPoint (Except FenceError ℕ))
  | .reserve =>
    .fetchAddU64 hdrReserveTail 1 fun slot ↦
      if g.capacity ≤ slot then .running (.undo slot) else .running (.storeWriting slot)
  | .undo slot =>
    -- `u64::MAX` wraps to minus one
    .fetchAddU64 hdrReserveTail (2 ^ 64 - 1) fun _ ↦ .running (.countFailed slot)
  | .countFailed slot =>
    Metrics.incrementAppendsFailed g entry.hostId (.returned (.error (.poolFull g.capacity slot)))
  | .storeWriting slot =>
    .storeU8 (appendOffset g slot + recState) stateWriting (.running (.storeTerm slot))
  | .storeTerm slot =>
    .storeU64 (appendOffset g slot + recTerm) entry.term.toNat (.running (.storeIndex slot))
  | .storeIndex slot =>
    .storeU64 (appendOffset g slot + recIndex) (slot + 1) (.running (.storeWriterId slot))
  | .storeWriterId slot =>
    .storeU64 (appendOffset g slot + recWriterId) entry.hostId.toNat
      (.running (.writeDataLen slot))
  | .writeDataLen slot =>
    .write (appendOffset g slot + recDataLen) (leBytes 4 (asU32 entry.data.length))
      (if entry.data = [] then .running (.storeChecksum slot) else .running (.writePayload slot))
  | .writePayload slot =>
    .write (appendOffset g slot + recordMetaSize) entry.data (.running (.storeChecksum slot))
  | .storeChecksum slot =>
    .storeU64 (appendOffset g slot + recChecksum)
      (Checksum.compute hasher entry.term.toNat (slot + 1) entry.data)
      (.running (.flushRecord slot))
  | .flushRecord slot => .flush (appendOffset g slot) g.recordSize (.running (.storeCommitted slot))
  | .storeCommitted slot =>
    .storeU8 (appendOffset g slot + recState) stateCommitted (.running (.flushState slot))
  | .flushState slot =>
    .flush (appendOffset g slot) cacheline (.running (.sweep slot .loadTail))
  | .sweep slot point =>
    (Recovery.advanceCommittedTail g point).map fun task ↦
      match task with
      | .running point => .running (.sweep slot point)
      | .returned _ => .running (.countAppends slot)
  | .countAppends slot => Metrics.incrementAppends g entry.hostId (.running (.countBytes slot))
  | .countBytes slot =>
    Metrics.incrementBytesWritten g entry.hostId entry.data.length (.returned (.ok (slot + 1)))

/-! ### Read -/

/-- `Record`, what a read returns. -/
structure Record where
  index : ℕ
  term : ℕ
  writerId : ℕ
  data : List UInt8
  deriving DecidableEq, Repr

/-- Program points of `read`. Those inside a record carry the fields loaded so far. -/
inductive ReadPoint
  | loadTailOfZero
  | loadTail
  | loadState (slot : ℕ)
  | loadTerm (slot : ℕ)
  | loadIndex (slot term : ℕ)
  | loadWriterId (slot term storedIndex : ℕ)
  | readDataLen (slot term storedIndex writerId : ℕ)
  | loadChecksum (slot term storedIndex writerId dataLen : ℕ)
  | readPayload (slot term storedIndex writerId payloadLen storedChecksum : ℕ)
  | countMismatch
  | countRead (record : Record)
  deriving DecidableEq

/-- The test for index zero `read` starts with. -/
def startRead (index : ℕ) : Task ReadPoint (Except FenceError (Option Record)) :=
  if index = 0 then .running .loadTailOfZero else .running .loadTail

/-- The checksum test of `read` on a loaded record. -/
def checkRead (term storedIndex writerId : ℕ) (data : List UInt8) (storedChecksum : ℕ) :
    Task ReadPoint (Except FenceError (Option Record)) :=
  if Checksum.verify hasher term storedIndex data storedChecksum then
    .running (.countRead ⟨storedIndex, term, writerId, data⟩)
  else .running .countMismatch

/-- `FenceRuntime::read`. -/
def FenceRuntime.read (hostId : UInt16) (index : ℕ) :
    ReadPoint → BackendCall (Task ReadPoint (Except FenceError (Option Record)))
  | .loadTailOfZero =>
    .loadU64 hdrCommittedTail fun committedTail ↦
      .returned (.error (.indexOutOfBounds index committedTail))
  | .loadTail =>
    .loadU64 hdrCommittedTail fun committedTail ↦
      if committedTail < index then .returned (.error (.indexOutOfBounds index committedTail))
      else .running (.loadState (asU32 (index - 1)))
  | .loadState slot =>
    .loadU8 (g.recordOffset slot + recState) fun state ↦
      if state = stateCommitted then .running (.loadTerm slot) else .returned (.ok none)
  | .loadTerm slot =>
    .loadU64 (g.recordOffset slot + recTerm) fun term ↦ .running (.loadIndex slot term)
  | .loadIndex slot term =>
    .loadU64 (g.recordOffset slot + recIndex) fun storedIndex ↦
      .running (.loadWriterId slot term storedIndex)
  | .loadWriterId slot term storedIndex =>
    .loadU64 (g.recordOffset slot + recWriterId) fun writerId ↦
      .running (.readDataLen slot term storedIndex writerId)
  | .readDataLen slot term storedIndex writerId =>
    .read (g.recordOffset slot + recDataLen) 4 fun buf ↦
      .running (.loadChecksum slot term storedIndex writerId (leValue buf))
  | .loadChecksum slot term storedIndex writerId dataLen =>
    .loadU64 (g.recordOffset slot + recChecksum) fun storedChecksum ↦
      if 0 < min dataLen g.payloadSize then
        .running (.readPayload slot term storedIndex writerId (min dataLen g.payloadSize)
          storedChecksum)
      else checkRead hasher term storedIndex writerId [] storedChecksum
  | .readPayload slot term storedIndex writerId payloadLen storedChecksum =>
    .read (g.recordOffset slot + recordMetaSize) payloadLen fun data ↦
      checkRead hasher term storedIndex writerId data storedChecksum
  | .countMismatch =>
    Metrics.incrementChecksumFailures g hostId (.returned (.error (.checksumMismatch index)))
  | .countRead record => Metrics.incrementReads g hostId (.returned (.ok (some record)))

/-! ### Trim -/

/-- `TrimResult`. -/
structure TrimResult where
  trimmedCount : ℕ
  deriving DecidableEq, Repr

/-- Program points of `trim`. -/
inductive TrimPoint
  | loadTail
  | loadState (slot trimmedCount : ℕ)
  | storeAbandoned (slot trimmedCount : ℕ)
  | flushAbandoned (slot trimmedCount : ℕ)
  deriving DecidableEq

/-- The head of the loop of `trim`. -/
def TrimPoint.head (upTo slot trimmedCount : ℕ) : Task TrimPoint (Except FenceError TrimResult) :=
  if slot < asU32 upTo then .running (.loadState slot trimmedCount)
  else .returned (.ok ⟨trimmedCount⟩)

/-- `compaction::trim`. -/
def Compaction.trim (upTo : ℕ) :
    TrimPoint → BackendCall (Task TrimPoint (Except FenceError TrimResult))
  | .loadTail =>
    .loadU64 hdrCommittedTail fun committedTail ↦
      if committedTail < upTo then .returned (.error (.trimBeyondCommitted upTo committedTail))
      else TrimPoint.head upTo 0 0
  | .loadState slot trimmedCount =>
    .loadU8 (g.recordOffset slot + recState) fun state ↦
      if state = stateCommitted then .running (.storeAbandoned slot trimmedCount)
      else TrimPoint.head upTo (slot + 1) trimmedCount
  | .storeAbandoned slot trimmedCount =>
    .storeU8 (g.recordOffset slot + recState) stateAbandoned
      (.running (.flushAbandoned slot trimmedCount))
  | .flushAbandoned slot trimmedCount =>
    .flush (g.recordOffset slot) cacheline (TrimPoint.head upTo (slot + 1) (trimmedCount + 1))

/-! ### Recover -/

/-- Program points of `FenceRuntime::recover`. -/
inductive RuntimeRecoverPoint
  | recovery (point : RecoverPoint)
  | countRuns (report : RecoveryReport)
  | countAbandoned (report : RecoveryReport)
  deriving DecidableEq

/-- `FenceRuntime::recover`: the recovery, then its metrics. -/
def FenceRuntime.recover (hostId : UInt16) :
    RuntimeRecoverPoint → BackendCall (Task RuntimeRecoverPoint RecoveryReport)
  | .recovery point =>
    (Recovery.recover g hasher point).map fun task ↦
      match task with
      | .running point => .running (.recovery point)
      | .returned report => .running (.countRuns report)
  | .countRuns report =>
    Metrics.incrementRecoveryRuns g hostId
      (if 0 < report.abandonedCount then .running (.countAbandoned report)
      else .returned report)
  | .countAbandoned report =>
    Metrics.incrementAbandonedFound g hostId report.abandonedCount (.returned report)

/-! ### Calls in flight -/

/-- A request to a runtime of some host. -/
inductive Request
  | append (entry : Entry)
  | read (hostId : UInt16) (index : UInt64)
  | trim (upTo : UInt64)
  | recover (hostId : UInt16)
  deriving DecidableEq, Repr

/-- A call with its arguments, in flight or returned. -/
inductive Call
  | append (entry : Entry) (task : Task AppendPoint (Except FenceError ℕ))
  | read (hostId : UInt16) (index : UInt64)
      (task : Task ReadPoint (Except FenceError (Option Record)))
  | trim (upTo : UInt64) (task : Task TrimPoint (Except FenceError TrimResult))
  | recover (hostId : UInt16) (task : Task RuntimeRecoverPoint RecoveryReport)
  deriving DecidableEq

/-- The call a request starts. -/
def Request.call : Request → Call
  | .append entry => .append entry (startAppend g entry)
  | .read hostId index => .read hostId index (startRead index.toNat)
  | .trim upTo => .trim upTo (.running .loadTail)
  | .recover hostId => .recover hostId (.running (.recovery .loadReserveTail))

/-- The next backend call of a call in flight. -/
def Call.next : Call → Option (BackendCall Call)
  | .append entry (.running point) =>
    some ((FenceRuntime.append g hasher entry point).map (.append entry))
  | .read hostId index (.running point) =>
    some ((FenceRuntime.read g hasher hostId index.toNat point).map (.read hostId index))
  | .trim upTo (.running point) => some ((Compaction.trim g upTo.toNat point).map (.trim upTo))
  | .recover hostId (.running point) =>
    some ((FenceRuntime.recover g hasher hostId point).map (.recover hostId))
  | _ => none

/-- One step of a call. A returned call stays as it is. -/
def Call.step (call : Call) (memory : Memory) : Call × Memory :=
  match call.next g hasher with
  | some next => next.exec memory
  | none => (call, memory)

/-- Any number of calls on one memory, each backend call an atomic step. -/
def runtimeMachine : Machine Request Call Memory Empty where
  start := Request.call g
  step := Call.step g hasher
  env := fun event _ ↦ event.elim

/-- A pool just created, with no call started. -/
def freshConfig : Config Call Memory where
  shared := freshMemory g
  threads := []

end Fence
