import Fence.Core.Backend
import Fence.Core.Checksum
import Fence.Core.Layout

/-!
# Crash recovery and the tail sweep

The routines of `recovery.rs`. `advanceCommittedTail` is the sweep: it loads the committed tail,
walks forward through committed slots, and publishes what it found by one compare-exchange, from
the start again when the exchange fails. `recover` scans the claimed slots, marks abandoned what
was being written, what has an unknown state and what fails its checksum, and then runs the
sweep. The inner loop head is `SweepPoint.scanFrom`, the loop head of the scan is `Scan.head`.
-/

set_option autoImplicit false
set_option relaxedAutoImplicit false

namespace Fence

open ByteMemory Interleaving

variable (g : PoolGeometry)

/-! ### The tail sweep -/

/-- Program points of `advance_committed_tail`, each named after the call made there. -/
inductive SweepPoint
  | loadTail
  | loadState (currentTail newTail : ℕ)
  | compareExchange (currentTail newTail : ℕ)
  deriving DecidableEq

/-- After the inner loop: return when nothing was gained, else try to publish. -/
def SweepPoint.settle (currentTail newTail : ℕ) : Task SweepPoint ℕ :=
  if newTail = currentTail then .returned currentTail
  else .running (.compareExchange currentTail newTail)

/-- The head of the inner loop. -/
def SweepPoint.scanFrom (currentTail newTail : ℕ) : Task SweepPoint ℕ :=
  if newTail < g.capacity then .running (.loadState currentTail newTail)
  else SweepPoint.settle currentTail newTail

/-- `advance_committed_tail`, returning the tail it reached. -/
def Recovery.advanceCommittedTail : SweepPoint → BackendCall (Task SweepPoint ℕ)
  | .loadTail =>
    .loadU64 hdrCommittedTail fun currentTail ↦ SweepPoint.scanFrom g currentTail currentTail
  | .loadState currentTail newTail =>
    .loadU8 (g.recordOffset (asU32 newTail) + recState) fun state ↦
      if state ≠ stateCommitted then SweepPoint.settle currentTail newTail
      else SweepPoint.scanFrom g currentTail (newTail + 1)
  | .compareExchange currentTail newTail =>
    .compareExchangeU64 hdrCommittedTail currentTail newTail fun outcome ↦
      match outcome with
      | .ok _ => .returned newTail
      -- another writer or recoverer advanced the tail: retry
      | .error _ => .running .loadTail

/-! ### The recovery scan -/

/-- `RecoveryReport`. -/
structure RecoveryReport where
  abandonedCount : ℕ
  committedTail : ℕ
  slotsScanned : ℕ
  deriving DecidableEq, Repr

/-- The local variables of the scan loop. -/
structure Scan where
  slotsToScan : ℕ
  slot : ℕ
  abandonedCount : ℕ
  deriving DecidableEq

/-- Program points of `recover`. The points that check a record carry the fields loaded so
far. -/
inductive RecoverPoint
  | loadReserveTail
  | loadState (scan : Scan)
  | storeAbandoned (scan : Scan)
  | flushAbandoned (scan : Scan)
  | loadTerm (scan : Scan)
  | loadIndex (scan : Scan) (term : ℕ)
  | readDataLen (scan : Scan) (term index : ℕ)
  | loadChecksum (scan : Scan) (term index dataLen : ℕ)
  | readPayload (scan : Scan) (term index payloadLen storedChecksum : ℕ)
  | sweep (scan : Scan) (point : SweepPoint)
  deriving DecidableEq

/-- The head of the scan loop. -/
def Scan.head (scan : Scan) : Task RecoverPoint RecoveryReport :=
  if scan.slot < asU32 scan.slotsToScan then .running (.loadState scan)
  else .running (.sweep scan .loadTail)

/-- The next slot, this one left alone. -/
def Scan.next (scan : Scan) : Task RecoverPoint RecoveryReport :=
  Scan.head { scan with slot := scan.slot + 1 }

/-- The next slot, this one counted as abandoned. -/
def Scan.nextAbandoned (scan : Scan) : Task RecoverPoint RecoveryReport :=
  Scan.head { scan with slot := scan.slot + 1, abandonedCount := scan.abandonedCount + 1 }

/-- The report of a finished recovery. -/
def Scan.report (scan : Scan) (committedTail : ℕ) : RecoveryReport where
  abandonedCount := scan.abandonedCount
  committedTail := committedTail
  slotsScanned := scan.slotsToScan

variable (hasher : Hasher)

/-- The checksum test on a committed record: a mismatch is a torn write or corruption. -/
def Scan.check (scan : Scan) (term index : ℕ) (payload : List UInt8) (storedChecksum : ℕ) :
    Task RecoverPoint RecoveryReport :=
  if Checksum.verify hasher term index payload storedChecksum then scan.next
  else .running (.storeAbandoned scan)

/-- `recover`. -/
def Recovery.recover : RecoverPoint → BackendCall (Task RecoverPoint RecoveryReport)
  | .loadReserveTail =>
    .loadU64 hdrReserveTail fun reserveTail ↦
      Scan.head { slotsToScan := min reserveTail g.capacity, slot := 0, abandonedCount := 0 }
  | .loadState scan =>
    .loadU8 (g.recordOffset scan.slot + recState) fun state ↦
      if state = stateWriting then .running (.storeAbandoned scan)
      else if state = stateCommitted then .running (.loadTerm scan)
      else if state = stateFree ∨ state = stateAbandoned then scan.next
      -- unknown state byte
      else .running (.storeAbandoned scan)
  | .storeAbandoned scan =>
    .storeU8 (g.recordOffset scan.slot + recState) stateAbandoned
      (.running (.flushAbandoned scan))
  | .flushAbandoned scan => .flush (g.recordOffset scan.slot) cacheline scan.nextAbandoned
  | .loadTerm scan =>
    .loadU64 (g.recordOffset scan.slot + recTerm) fun term ↦ .running (.loadIndex scan term)
  | .loadIndex scan term =>
    .loadU64 (g.recordOffset scan.slot + recIndex) fun index ↦
      .running (.readDataLen scan term index)
  | .readDataLen scan term index =>
    .read (g.recordOffset scan.slot + recDataLen) 4 fun buf ↦
      .running (.loadChecksum scan term index (leValue buf))
  | .loadChecksum scan term index dataLen =>
    .loadU64 (g.recordOffset scan.slot + recChecksum) fun storedChecksum ↦
      if 0 < min dataLen g.payloadSize then
        .running (.readPayload scan term index (min dataLen g.payloadSize) storedChecksum)
      else scan.check hasher term index [] storedChecksum
  | .readPayload scan term index payloadLen storedChecksum =>
    .read (g.recordOffset scan.slot + recordMetaSize) payloadLen fun payload ↦
      scan.check hasher term index payload storedChecksum
  | .sweep scan point =>
    (Recovery.advanceCommittedTail g point).map fun task ↦
      match task with
      | .running point => .running (.sweep scan point)
      | .returned committedTail => .returned (scan.report committedTail)

end Fence
