import Fence.Core.Access
import Fence.Protocol.Counters
import Fence.Runtime.Service

/-!
# Every access lies within the pool

`Lawful` is what is asked of a backend call: it lies in the pool, an access to a word is aligned
when payloads are a multiple of eight, and a store leaves the dimensions in the header alone and the
committed tail within the capacity. A call in flight is `Bounded` when the slots and hosts at its
program point are those of the pool. Then its next backend call is lawful, and it stays bounded,
routine by routine. No assumption is made on how many calls there are or what they did before, not
even that the reserve tail has not wrapped.
-/

set_option autoImplicit false
set_option relaxedAutoImplicit false

namespace Fence

open ByteMemory Interleaving

variable {g : PoolGeometry} {hasher : Hasher} {memory : Memory} {Next Other : Type}

/-! ### Lawful backend calls -/

/-- The committed tail lies within the pool. -/
def TailWithin (g : PoolGeometry) (memory : Memory) : Prop :=
  loadWord memory hdrCommittedTail 8 ≤ g.capacity

/-- A call of the backend that keeps to the pool. -/
structure BackendCall.Lawful (g : PoolGeometry) (call : BackendCall Next) : Prop where
  bounds : call.offset + call.length ≤ g.totalSize
  aligned : g.payloadSize % 8 = 0 → call.isWord = true → call.offset % 8 = 0
  header : call.isStore = true → hdrCommittedTail ≤ call.offset
  tail : ∀ memory, TailWithin g memory → TailWithin g (call.exec memory).2

theorem BackendCall.Lawful.map {call : BackendCall Next} (hlawful : call.Lawful g)
    (f : Next → Other) : (call.map f).Lawful g where
  bounds := by simpa using hlawful.bounds
  aligned := by simpa using hlawful.aligned
  header := by simpa using hlawful.header
  tail := by
    intro memory htail
    rw [BackendCall.exec_map]
    exact hlawful.tail memory htail

/-- A store behind the committed tail leaves it alone. -/
theorem TailWithin.exec {call : BackendCall Next} (htail : TailWithin g memory)
    (hbehind : call.isStore = true → hdrReserveTail ≤ call.offset) :
    TailWithin g (call.exec memory).2 := by
  have hcommitted : hdrCommittedTail = 32 := rfl
  have hreserve : hdrReserveTail = 40 := rfl
  have hsame : loadWord (call.exec memory).2 hdrCommittedTail 8 =
      loadWord memory hdrCommittedTail 8 :=
    loadWord_congr (load_congr fun i hi ↦ BackendCall.exec_apply_of_store_outside fun hstore ↦ by
      have := hbehind hstore
      omega)
  rw [TailWithin, hsame]
  exact htail

theorem PoolGeometry.headerSize_le_totalSize : headerSize ≤ g.totalSize := by
  have htotal := g.totalSize_eq
  omega

theorem PoolGeometry.metricsOffset_add_le {hostId : ℕ} (hhost : hostId < g.maxHosts) :
    g.metricsOffset hostId + cacheline ≤ g.totalSize := by
  have htotal := g.totalSize_eq
  have hmul : g.capacity * g.recordSize = g.recordSize * g.capacity := Nat.mul_comm _ _
  unfold PoolGeometry.metricsOffset cacheline at *
  omega

theorem PoolGeometry.recordOffset_add_le_totalSize {slot : ℕ} (hslot : slot < g.capacity) :
    g.recordOffset slot + g.recordSize ≤ g.totalSize := by
  have hrecord := PoolGeometry.recordOffset_add_le_metricsOffset hslot 0
  have hmetrics := PoolGeometry.metricsOffset_add_le g.maxHosts_pos
  omega

/-- A call that reads the header, or stores to the reserve tail. -/
theorem BackendCall.Lawful.header_access {call : BackendCall Next} {offset : ℕ}
    (hoffset : call.offset = offset) (hlength : call.length = 8)
    (hfits : offset + 8 ≤ headerSize) (hword : offset % 8 = 0)
    (hstore : call.isStore = true → hdrReserveTail ≤ offset) : call.Lawful g where
  bounds := by
    rw [hoffset, hlength]
    exact hfits.trans PoolGeometry.headerSize_le_totalSize
  aligned := fun _ _ ↦ hoffset ▸ hword
  header := fun hstores ↦ by
    rw [hoffset]
    exact Nat.le_trans (by decide : hdrCommittedTail ≤ hdrReserveTail) (hstore hstores)
  tail := fun _ htail ↦ htail.exec fun hstores ↦ hoffset ▸ hstore hstores

section Aligned

variable (haligned : g.payloadSize % 8 = 0)

include haligned

theorem PoolGeometry.recordSize_mod : g.recordSize % 8 = 0 := by
  have hrecord := g.recordSize_eq
  have hmeta : recordMetaSize = 64 := rfl
  omega

theorem PoolGeometry.recordOffset_mod (slot : ℕ) : g.recordOffset slot % 8 = 0 := by
  have hmul := Nat.mul_mod slot g.recordSize 8
  rw [PoolGeometry.recordSize_mod haligned, Nat.mul_zero, Nat.zero_mod] at hmul
  unfold PoolGeometry.recordOffset headerSize
  omega

theorem PoolGeometry.metricsOffset_mod (hostId : ℕ) : g.metricsOffset hostId % 8 = 0 := by
  have hrecords := PoolGeometry.recordOffset_mod haligned g.capacity
  unfold PoolGeometry.recordOffset at hrecords
  unfold PoolGeometry.metricsOffset cacheline
  omega

end Aligned

/-- A call that accesses a record slot. -/
theorem BackendCall.Lawful.record_access {call : BackendCall Next} {slot field : ℕ}
    (hslot : slot < g.capacity) (hoffset : call.offset = g.recordOffset slot + field)
    (hfits : field + call.length ≤ g.recordSize)
    (hword : call.isWord = true → field % 8 = 0) : call.Lawful g where
  bounds := by
    have hrecord := PoolGeometry.recordOffset_add_le_totalSize hslot
    omega
  aligned := by
    intro haligned hwords
    have hrecord := PoolGeometry.recordOffset_mod haligned slot
    have hfield := hword hwords
    omega
  header := by
    intro _
    have hheader := g.headerSize_le_recordOffset slot
    have hcommitted : hdrCommittedTail ≤ headerSize := by decide
    omega
  tail := by
    intro memory htail
    refine htail.exec fun _ ↦ ?_
    have hheader := g.headerSize_le_recordOffset slot
    have hreserve : hdrReserveTail ≤ headerSize := by decide
    omega

/-- A call that accesses the metadata of a record. -/
theorem BackendCall.Lawful.meta_access {call : BackendCall Next} {slot field length : ℕ}
    (hslot : slot < g.capacity) (hoffset : call.offset = g.recordOffset slot + field)
    (hlength : call.length = length) (hfits : field + length ≤ recordMetaSize)
    (hword : call.isWord = true → field % 8 = 0) : call.Lawful g :=
  .record_access hslot hoffset
    (hlength ▸ hfits.trans PoolGeometry.recordMetaSize_le) hword

/-- A call that accesses a counter of a host. -/
theorem BackendCall.Lawful.counter_access {call : BackendCall Next} {hostId field : ℕ}
    (hhost : hostId < g.maxHosts) (hoffset : call.offset = g.metricsOffset hostId + field)
    (hlength : call.length = 8) (hfield : field ∈ metricsFields) : call.Lawful g := by
  have hbounds := metricsFields_bounds hfield
  have hmetrics := PoolGeometry.metricsOffset_add_le hhost
  have hheader := headerSize_le_metricsOffset (g := g) hostId
  have hreserve : hdrReserveTail ≤ headerSize := by decide
  have hcommitted : hdrCommittedTail ≤ headerSize := by decide
  exact
    { bounds := by omega
      aligned := fun haligned _ ↦ by
        have hmod := PoolGeometry.metricsOffset_mod haligned hostId
        omega
      header := fun _ ↦ by omega
      tail := fun _ htail ↦ htail.exec fun _ ↦ by omega }

/-! ### Program points within the pool -/

variable (g) in
/-- The slots a sweep looks at are those of the pool. -/
def SweepPoint.Bounded : SweepPoint → Prop
  | .loadTail => True
  | .loadState _ newTail => newTail < g.capacity
  | .compareExchange _ newTail => newTail ≤ g.capacity

variable (g) in
/-- The slot of an append is one of the pool, once there is one. -/
def AppendPoint.Bounded : AppendPoint → Prop
  | .reserve | .undo _ | .countFailed _ => True
  | .storeWriting slot | .storeTerm slot | .storeIndex slot | .storeWriterId slot
  | .writeDataLen slot | .writePayload slot | .storeChecksum slot | .flushRecord slot
  | .storeCommitted slot | .flushState slot | .countAppends slot | .countBytes slot =>
    slot < g.capacity
  | .sweep slot point => slot < g.capacity ∧ point.Bounded g

variable (g) in
/-- The slot of a read is one of the pool, once there is one. -/
def ReadPoint.Bounded : ReadPoint → Prop
  | .loadTailOfZero | .loadTail | .countMismatch | .countRead _ => True
  | .loadState slot | .loadTerm slot | .loadIndex slot _ | .loadWriterId slot _ _
  | .readDataLen slot _ _ _ | .loadChecksum slot _ _ _ _ => slot < g.capacity
  | .readPayload slot _ _ _ payloadLen _ => slot < g.capacity ∧ payloadLen ≤ g.payloadSize

variable (g) in
/-- The slots of a trim are those of the pool. -/
def TrimPoint.Bounded (upTo : ℕ) : TrimPoint → Prop
  | .loadTail => True
  | .loadState slot _ | .storeAbandoned slot _ | .flushAbandoned slot _ =>
    slot < g.capacity ∧ asU32 upTo ≤ g.capacity

variable (g) in
/-- The slots of a scan are those of the pool. -/
def Scan.Bounded (scan : Scan) : Prop := scan.slotsToScan ≤ g.capacity ∧ scan.slot < g.capacity

variable (g) in
/-- The slots of a recovery are those of the pool. -/
def RecoverPoint.Bounded : RecoverPoint → Prop
  | .loadReserveTail => True
  | .loadState scan | .storeAbandoned scan | .flushAbandoned scan | .loadTerm scan
  | .loadIndex scan _ | .readDataLen scan _ _ | .loadChecksum scan _ _ _ => scan.Bounded g
  | .readPayload scan _ _ payloadLen _ => scan.Bounded g ∧ payloadLen ≤ g.payloadSize
  | .sweep _ point => point.Bounded g

/-- The host whose counters a statistics call is adding up. -/
def StatsPoint.hostId : StatsPoint → ℕ
  | .loadAppendsTotal hostId _ | .loadAppendsFailed hostId _ | .loadBytesWritten hostId _
  | .loadReadsTotal hostId _ | .loadChecksumFailures hostId _ | .loadRecoveryRuns hostId _
  | .loadAbandonedFound hostId _ => hostId

/-! ### The sweep -/

theorem SweepPoint.settle_bounded {currentTail newTail : ℕ} (hnew : newTail ≤ g.capacity) :
    (SweepPoint.settle currentTail newTail).Holds (·.Bounded g) := by
  unfold SweepPoint.settle
  split_ifs
  · trivial
  · exact hnew

theorem SweepPoint.scanFrom_bounded {currentTail newTail : ℕ} (hnew : newTail ≤ g.capacity) :
    (SweepPoint.scanFrom g currentTail newTail).Holds (·.Bounded g) := by
  unfold SweepPoint.scanFrom
  split_ifs with hroom
  · exact hroom
  · exact SweepPoint.settle_bounded hnew

theorem Recovery.advanceCommittedTail_lawful {point : SweepPoint} (hpoint : point.Bounded g) :
    (Recovery.advanceCommittedTail g point).Lawful g := by
  cases point with
  | loadTail =>
    exact .header_access (rfl : _ = hdrCommittedTail) rfl (by decide) (by decide)
      fun hstore ↦ by cases hstore
  | loadState currentTail newTail =>
    have hcast : asU32 newTail = newTail := asU32_of_lt hpoint (Nat.le_of_lt g.capacity_lt)
    have hslot : asU32 newTail < g.capacity := hcast.symm ▸ hpoint
    exact .meta_access hslot (rfl : _ = _ + recState) (rfl : _ = 1) (by decide)
      fun hword ↦ by cases hword
  | compareExchange currentTail newTail =>
    exact
      { bounds := Nat.le_trans (by decide : hdrCommittedTail + 8 ≤ headerSize)
          PoolGeometry.headerSize_le_totalSize
        aligned := fun _ _ ↦ (by decide : hdrCommittedTail % 8 = 0)
        header := fun _ ↦ Nat.le_refl _
        tail := by
          intro memory htail
          simp only [Recovery.advanceCommittedTail, BackendCall.exec]
          split_ifs
          · rw [TailWithin, loadWord_storeWord_self]
            exact (Nat.mod_le _ _).trans hpoint
          · exact htail }

theorem Recovery.advanceCommittedTail_bounded (htail : TailWithin g memory) {point : SweepPoint}
    (hpoint : point.Bounded g) :
    ((Recovery.advanceCommittedTail g point).exec memory).1.Holds (·.Bounded g) := by
  cases point with
  | loadTail => exact SweepPoint.scanFrom_bounded htail
  | loadState currentTail newTail =>
    simp only [Recovery.advanceCommittedTail, BackendCall.exec]
    split_ifs
    · exact SweepPoint.settle_bounded (Nat.le_of_lt hpoint)
    · exact SweepPoint.scanFrom_bounded hpoint
  | compareExchange currentTail newTail =>
    simp only [Recovery.advanceCommittedTail, BackendCall.exec]
    split_ifs <;> trivial

/-! ### Append -/

theorem Metrics.incrementCounter_lawful {hostId : UInt16} {field amount : ℕ} {next : Next}
    (hhost : hostId.toNat < g.maxHosts) (hfield : field ∈ metricsFields) :
    (Metrics.incrementCounter g field hostId amount next).Lawful g :=
  .counter_access hhost rfl rfl hfield

theorem FenceRuntime.append_lawful {entry : Entry} (hhost : entry.hostId.toNat < g.maxHosts)
    (hsize : entry.data.length ≤ g.payloadSize) {point : AppendPoint}
    (hpoint : point.Bounded g) : (FenceRuntime.append g hasher entry point).Lawful g := by
  have hpayload : recordMetaSize + entry.data.length ≤ g.recordSize :=
    g.recordSize_eq ▸ Nat.add_le_add_left hsize _
  cases point with
  | reserve =>
    exact .header_access (rfl : _ = hdrReserveTail) rfl (by decide) (by decide)
      fun _ ↦ Nat.le_refl _
  | undo slot =>
    exact .header_access (rfl : _ = hdrReserveTail) rfl (by decide) (by decide)
      fun _ ↦ Nat.le_refl _
  | countFailed slot => exact Metrics.incrementCounter_lawful hhost (by decide)
  | storeWriting slot =>
    exact .meta_access hpoint (congrArg (· + recState) (appendOffset_of_lt hpoint))
      (rfl : _ = 1) (by decide) fun hword ↦ by cases hword
  | storeTerm slot =>
    exact .meta_access hpoint (congrArg (· + recTerm) (appendOffset_of_lt hpoint))
      (rfl : _ = 8) (by decide) fun _ ↦ by decide
  | storeIndex slot =>
    exact .meta_access hpoint (congrArg (· + recIndex) (appendOffset_of_lt hpoint))
      (rfl : _ = 8) (by decide) fun _ ↦ by decide
  | storeWriterId slot =>
    exact .meta_access hpoint (congrArg (· + recWriterId) (appendOffset_of_lt hpoint))
      (rfl : _ = 8) (by decide) fun _ ↦ by decide
  | writeDataLen slot =>
    exact .meta_access hpoint (congrArg (· + recDataLen) (appendOffset_of_lt hpoint))
      (length_leBytes 4 _) (by decide) fun hword ↦ by cases hword
  | writePayload slot =>
    exact .record_access hpoint
      (congrArg (· + recordMetaSize) (appendOffset_of_lt hpoint)) hpayload
      fun hword ↦ by cases hword
  | storeChecksum slot =>
    exact .meta_access hpoint (congrArg (· + recChecksum) (appendOffset_of_lt hpoint))
      (rfl : _ = 8) (by decide) fun _ ↦ by decide
  | flushRecord slot =>
    have hoffset : appendOffset g slot = g.recordOffset slot + 0 := appendOffset_of_lt hpoint
    exact .record_access hpoint hoffset (Nat.zero_add _).le fun hword ↦ by cases hword
  | storeCommitted slot =>
    exact .meta_access hpoint (congrArg (· + recState) (appendOffset_of_lt hpoint))
      (rfl : _ = 1) (by decide) fun hword ↦ by cases hword
  | flushState slot =>
    have hoffset : appendOffset g slot = g.recordOffset slot + 0 := appendOffset_of_lt hpoint
    exact .meta_access hpoint hoffset (rfl : _ = cacheline) (by decide)
      fun hword ↦ by cases hword
  | sweep slot point =>
    simp only [FenceRuntime.append]
    exact (Recovery.advanceCommittedTail_lawful hpoint.2).map _
  | countAppends slot => exact Metrics.incrementCounter_lawful hhost (by decide)
  | countBytes slot => exact Metrics.incrementCounter_lawful hhost (by decide)

theorem FenceRuntime.append_bounded {entry : Entry} (htail : TailWithin g memory)
    {point : AppendPoint} (hpoint : point.Bounded g) :
    ((FenceRuntime.append g hasher entry point).exec memory).1.Holds (·.Bounded g) := by
  cases point with
  | reserve =>
    simp only [FenceRuntime.append, BackendCall.exec]
    split_ifs with hfull
    · trivial
    · exact Nat.lt_of_not_le hfull
  | writeDataLen slot =>
    simp only [FenceRuntime.append, BackendCall.exec]
    split_ifs
    · exact hpoint
    · exact hpoint
  | flushState slot => exact ⟨hpoint, trivial⟩
  | sweep slot point =>
    have hnext := Recovery.advanceCommittedTail_bounded htail hpoint.2
    simp only [FenceRuntime.append, BackendCall.exec_map]
    cases htask : ((Recovery.advanceCommittedTail g point).exec memory).1 with
    | running next =>
      rw [htask] at hnext
      exact ⟨hpoint.1, hnext⟩
    | returned committedTail => exact hpoint.1
  | undo slot => trivial
  | countFailed slot => trivial
  | countBytes slot => trivial
  | _ => exact hpoint

/-! ### Read -/

theorem FenceRuntime.read_lawful {hostId : UInt16} (hhost : hostId.toNat < g.maxHosts)
    (index : ℕ) {point : ReadPoint} (hpoint : point.Bounded g) :
    (FenceRuntime.read g hasher hostId index point).Lawful g := by
  cases point with
  | loadTailOfZero =>
    exact .header_access (rfl : _ = hdrCommittedTail) rfl (by decide) (by decide)
      fun hstore ↦ by cases hstore
  | loadTail =>
    exact .header_access (rfl : _ = hdrCommittedTail) rfl (by decide) (by decide)
      fun hstore ↦ by cases hstore
  | loadState slot =>
    exact .meta_access hpoint (rfl : _ = _ + recState) (rfl : _ = 1) (by decide)
      fun hword ↦ by cases hword
  | loadTerm slot =>
    exact .meta_access hpoint (rfl : _ = _ + recTerm) (rfl : _ = 8) (by decide)
      fun _ ↦ by decide
  | loadIndex slot term =>
    exact .meta_access hpoint (rfl : _ = _ + recIndex) (rfl : _ = 8) (by decide)
      fun _ ↦ by decide
  | loadWriterId slot term storedIndex =>
    exact .meta_access hpoint (rfl : _ = _ + recWriterId) (rfl : _ = 8) (by decide)
      fun _ ↦ by decide
  | readDataLen slot term storedIndex writerId =>
    exact .meta_access hpoint (rfl : _ = _ + recDataLen) (rfl : _ = 4) (by decide)
      fun hword ↦ by cases hword
  | loadChecksum slot term storedIndex writerId dataLen =>
    exact .meta_access hpoint (rfl : _ = _ + recChecksum) (rfl : _ = 8) (by decide)
      fun _ ↦ by decide
  | readPayload slot term storedIndex writerId payloadLen storedChecksum =>
    exact .record_access hpoint.1 (rfl : _ = _ + recordMetaSize)
      (g.recordSize_eq ▸ Nat.add_le_add_left hpoint.2 _) fun hword ↦ by cases hword
  | countMismatch => exact Metrics.incrementCounter_lawful hhost (by decide)
  | countRead record => exact Metrics.incrementCounter_lawful hhost (by decide)

theorem checkRead_bounded {term storedIndex writerId storedChecksum : ℕ} {data : List UInt8} :
    (checkRead hasher term storedIndex writerId data storedChecksum).Holds (·.Bounded g) := by
  unfold checkRead
  split_ifs <;> trivial

theorem FenceRuntime.read_bounded {hostId : UInt16} {index : ℕ} (htail : TailWithin g memory)
    {point : ReadPoint} (hpoint : point.Bounded g) :
    ((FenceRuntime.read g hasher hostId index point).exec memory).1.Holds (·.Bounded g) := by
  cases point with
  | loadTail =>
    simp only [FenceRuntime.read, BackendCall.exec]
    split_ifs with hbeyond
    · trivial
    · have hcast := asU32_le (index - 1)
      have hcapacity := g.capacity_pos
      have hwithin : loadWord memory hdrCommittedTail 8 ≤ g.capacity := htail
      show asU32 (index - 1) < g.capacity
      omega
  | loadState slot =>
    simp only [FenceRuntime.read, BackendCall.exec]
    split_ifs
    · exact hpoint
    · trivial
  | loadChecksum slot term storedIndex writerId dataLen =>
    simp only [FenceRuntime.read, BackendCall.exec]
    split_ifs
    · exact ⟨hpoint, Nat.min_le_right _ _⟩
    · exact checkRead_bounded
  | readPayload slot term storedIndex writerId payloadLen storedChecksum =>
    exact checkRead_bounded
  | loadTailOfZero => trivial
  | countMismatch => trivial
  | countRead record => trivial
  | _ => exact hpoint

/-! ### Trim -/

theorem Compaction.trim_lawful {upTo : ℕ} {point : TrimPoint} (hpoint : point.Bounded g upTo) :
    (Compaction.trim g upTo point).Lawful g := by
  cases point with
  | loadTail =>
    exact .header_access (rfl : _ = hdrCommittedTail) rfl (by decide) (by decide)
      fun hstore ↦ by cases hstore
  | loadState slot trimmedCount =>
    exact .meta_access hpoint.1 (rfl : _ = _ + recState) (rfl : _ = 1) (by decide)
      fun hword ↦ by cases hword
  | storeAbandoned slot trimmedCount =>
    exact .meta_access hpoint.1 (rfl : _ = _ + recState) (rfl : _ = 1) (by decide)
      fun hword ↦ by cases hword
  | flushAbandoned slot trimmedCount =>
    exact .meta_access hpoint.1 (rfl : _ = _ + 0) (rfl : _ = cacheline) (by decide)
      fun hword ↦ by cases hword

theorem TrimPoint.head_bounded {upTo slot trimmedCount : ℕ} (hupTo : asU32 upTo ≤ g.capacity) :
    (TrimPoint.head upTo slot trimmedCount).Holds (·.Bounded g upTo) := by
  unfold TrimPoint.head
  split_ifs with hbelow
  · exact ⟨Nat.lt_of_lt_of_le hbelow hupTo, hupTo⟩
  · trivial

theorem Compaction.trim_bounded {upTo : ℕ} (htail : TailWithin g memory) {point : TrimPoint}
    (hpoint : point.Bounded g upTo) :
    ((Compaction.trim g upTo point).exec memory).1.Holds (·.Bounded g upTo) := by
  cases point with
  | loadTail =>
    simp only [Compaction.trim, BackendCall.exec]
    split_ifs with hbeyond
    · trivial
    · exact TrimPoint.head_bounded
        ((asU32_le upTo).trans ((Nat.le_of_not_lt hbeyond).trans htail))
  | loadState slot trimmedCount =>
    simp only [Compaction.trim, BackendCall.exec]
    split_ifs
    · exact hpoint
    · exact TrimPoint.head_bounded hpoint.2
  | storeAbandoned slot trimmedCount => exact hpoint
  | flushAbandoned slot trimmedCount => exact TrimPoint.head_bounded hpoint.2

/-! ### Recover -/

theorem Recovery.recover_lawful {point : RecoverPoint} (hpoint : point.Bounded g) :
    (Recovery.recover g hasher point).Lawful g := by
  cases point with
  | loadReserveTail =>
    exact .header_access (rfl : _ = hdrReserveTail) rfl (by decide) (by decide)
      fun _ ↦ Nat.le_refl _
  | loadState scan =>
    exact .meta_access hpoint.2 (rfl : _ = _ + recState) (rfl : _ = 1) (by decide)
      fun hword ↦ by cases hword
  | storeAbandoned scan =>
    exact .meta_access hpoint.2 (rfl : _ = _ + recState) (rfl : _ = 1) (by decide)
      fun hword ↦ by cases hword
  | flushAbandoned scan =>
    exact .meta_access hpoint.2 (rfl : _ = _ + 0) (rfl : _ = cacheline) (by decide)
      fun hword ↦ by cases hword
  | loadTerm scan =>
    exact .meta_access hpoint.2 (rfl : _ = _ + recTerm) (rfl : _ = 8) (by decide)
      fun _ ↦ by decide
  | loadIndex scan term =>
    exact .meta_access hpoint.2 (rfl : _ = _ + recIndex) (rfl : _ = 8) (by decide)
      fun _ ↦ by decide
  | readDataLen scan term index =>
    exact .meta_access hpoint.2 (rfl : _ = _ + recDataLen) (rfl : _ = 4) (by decide)
      fun hword ↦ by cases hword
  | loadChecksum scan term index dataLen =>
    exact .meta_access hpoint.2 (rfl : _ = _ + recChecksum) (rfl : _ = 8) (by decide)
      fun _ ↦ by decide
  | readPayload scan term index payloadLen storedChecksum =>
    exact .record_access hpoint.1.2 (rfl : _ = _ + recordMetaSize)
      (g.recordSize_eq ▸ Nat.add_le_add_left hpoint.2 _) fun hword ↦ by cases hword
  | sweep scan point =>
    simp only [Recovery.recover]
    exact (Recovery.advanceCommittedTail_lawful hpoint).map _

theorem Scan.head_bounded {scan : Scan} (hscan : scan.slotsToScan ≤ g.capacity) :
    scan.head.Holds (·.Bounded g) := by
  unfold Scan.head
  split_ifs with hbelow
  · exact ⟨hscan, Nat.lt_of_lt_of_le hbelow ((asU32_le _).trans hscan)⟩
  · trivial

theorem Scan.check_bounded {scan : Scan} (hscan : scan.Bounded g) {term index : ℕ}
    {payload : List UInt8} {storedChecksum : ℕ} :
    (scan.check hasher term index payload storedChecksum).Holds (·.Bounded g) := by
  unfold Scan.check
  split_ifs
  · exact Scan.head_bounded hscan.1
  · exact hscan

theorem Recovery.recover_bounded (htail : TailWithin g memory) {point : RecoverPoint}
    (hpoint : point.Bounded g) :
    ((Recovery.recover g hasher point).exec memory).1.Holds (·.Bounded g) := by
  cases point with
  | loadReserveTail => exact Scan.head_bounded (Nat.min_le_right _ _)
  | loadState scan =>
    simp only [Recovery.recover, BackendCall.exec]
    split_ifs
    · exact hpoint
    · exact hpoint
    · exact Scan.head_bounded hpoint.1
    · exact hpoint
  | flushAbandoned scan => exact Scan.head_bounded hpoint.1
  | loadChecksum scan term index dataLen =>
    simp only [Recovery.recover, BackendCall.exec]
    split_ifs
    · exact ⟨hpoint, Nat.min_le_right _ _⟩
    · exact Scan.check_bounded hpoint
  | readPayload scan term index payloadLen storedChecksum => exact Scan.check_bounded hpoint.1
  | sweep scan point =>
    have hnext := Recovery.advanceCommittedTail_bounded htail hpoint
    simp only [Recovery.recover, BackendCall.exec_map]
    cases htask : ((Recovery.advanceCommittedTail g point).exec memory).1 with
    | running next =>
      rw [htask] at hnext
      exact hnext
    | returned committedTail => trivial
  | _ => exact hpoint

/-! ### Calls of all kinds -/

variable (g) in
/-- The slots and hosts at the program point of a call are those of the pool. -/
def Call.Bounded : Call → Prop
  | .append entry task => entry.hostId.toNat < g.maxHosts ∧
      task.Holds fun point ↦ entry.data.length ≤ g.payloadSize ∧ point.Bounded g
  | .read hostId _ task => hostId.toNat < g.maxHosts ∧ task.Holds (·.Bounded g)
  | .trim upTo task => task.Holds (·.Bounded g upTo.toNat)
  | .recover hostId task => hostId.toNat < g.maxHosts ∧ task.Holds fun point ↦
      match point with
      | .recovery point => point.Bounded g
      | _ => True

variable (g) in
/-- The slots and hosts at the program point of a call are those of the pool. -/
def ServiceCall.Bounded : ServiceCall → Prop
  | .operation call => call.Bounded g
  | .statistics task => task.Holds (·.hostId < g.maxHosts)

/-- The host that makes a request. A trim and statistics name none. -/
def Request.host : Request → Option UInt16
  | .append entry => some entry.hostId
  | .read hostId _ => some hostId
  | .trim _ => none
  | .recover hostId => some hostId

/-- The host that makes a request. -/
def ServiceRequest.host : ServiceRequest → Option UInt16
  | .operation request => request.host
  | .statistics => none

/-- The next backend call of a bounded call is lawful. -/
theorem Call.next_lawful {call : Call}
    (hcall : call.Bounded g) {backend : BackendCall Call}
    (hnext : call.next g hasher = some backend) : backend.Lawful g := by
  rcases call with ⟨entry, point | outcome⟩ | ⟨hostId, index, point | outcome⟩ |
    ⟨upTo, point | outcome⟩ | ⟨hostId, point | report⟩
  · obtain rfl := Option.some.inj hnext
    exact (FenceRuntime.append_lawful hcall.1 hcall.2.1 hcall.2.2).map _
  · cases hnext
  · obtain rfl := Option.some.inj hnext
    exact (FenceRuntime.read_lawful hcall.1 _ hcall.2).map _
  · cases hnext
  · obtain rfl := Option.some.inj hnext
    exact (Compaction.trim_lawful hcall).map _
  · cases hnext
  · obtain rfl := Option.some.inj hnext
    refine BackendCall.Lawful.map ?_ _
    cases point with
    | recovery point =>
      simp only [FenceRuntime.recover]
      exact (Recovery.recover_lawful hcall.2).map _
    | countRuns report => exact Metrics.incrementCounter_lawful hcall.1 (by decide)
    | countAbandoned report => exact Metrics.incrementCounter_lawful hcall.1 (by decide)
  · cases hnext

/-- A bounded call stays bounded. -/
theorem Call.step_bounded (htail : TailWithin g memory) {call : Call} (hcall : call.Bounded g) :
    (call.step g hasher memory).1.Bounded g := by
  rcases call with ⟨entry, point | outcome⟩ | ⟨hostId, index, point | outcome⟩ |
    ⟨upTo, point | outcome⟩ | ⟨hostId, point | report⟩
  · obtain ⟨hhost, hsize, hpoint⟩ := hcall
    have hnext : ((FenceRuntime.append g hasher entry point).exec memory).1.Holds
        (·.Bounded g) := FenceRuntime.append_bounded htail hpoint
    rw [Call.step_append]
    refine ⟨hhost, ?_⟩
    cases htask : ((FenceRuntime.append g hasher entry point).exec memory).1 with
    | running next =>
      rw [htask] at hnext
      exact ⟨hsize, hnext⟩
    | returned outcome => trivial
  · exact hcall
  · rw [Call.step_read]
    exact ⟨hcall.1, FenceRuntime.read_bounded htail hcall.2⟩
  · exact hcall
  · rw [Call.step_trim]
    exact Compaction.trim_bounded htail hcall
  · exact hcall
  · rw [Call.step_recover]
    refine ⟨hcall.1, ?_⟩
    cases point with
    | recovery point =>
      have hnext : ((Recovery.recover g hasher point).exec memory).1.Holds (·.Bounded g) :=
        Recovery.recover_bounded htail hcall.2
      simp only [FenceRuntime.recover, BackendCall.exec_map]
      cases htask : ((Recovery.recover g hasher point).exec memory).1 with
      | running next =>
        rw [htask] at hnext
        exact hnext
      | returned report => trivial
    | countRuns report =>
      simp only [FenceRuntime.recover, exec_incrementCounter_fst, Metrics.incrementRecoveryRuns]
      split_ifs <;> trivial
    | countAbandoned report => trivial
  · exact hcall

/-- A bounded call leaves the committed tail within the pool. -/
theorem Call.step_tail (htail : TailWithin g memory)
    {call : Call} (hcall : call.Bounded g) : TailWithin g (call.step g hasher memory).2 := by
  rw [Call.step]
  cases hnext : call.next g hasher with
  | none => exact htail
  | some backend => exact (Call.next_lawful hcall hnext).tail memory htail

/-- The call of a host of the pool is bounded when it starts. -/
theorem Request.call_bounded {request : Request}
    (hhost : ∀ hostId, request.host = some hostId → hostId.toNat < g.maxHosts) :
    (request.call g).Bounded g := by
  cases request with
  | append entry =>
    refine ⟨hhost _ rfl, ?_⟩
    unfold startAppend
    split_ifs with hlarge
    · trivial
    · exact ⟨Nat.le_of_not_lt hlarge, trivial⟩
  | read hostId index =>
    refine ⟨hhost _ rfl, ?_⟩
    unfold startRead
    split_ifs <;> trivial
  | trim upTo => trivial
  | recover hostId => exact ⟨hhost _ rfl, trivial⟩

/-! ### Statistics -/

variable {checked : Bool}

theorem StatsPoint.head_bounded {hostId : ℕ} {stats : PoolStats} :
    (StatsPoint.head g hostId stats).Holds (·.hostId < g.maxHosts) := by
  unfold StatsPoint.head
  split_ifs with hbelow
  · exact hbelow
  · trivial

theorem StatsPoint.add_bounded {sum value : ℕ} {next : ℕ → Task StatsPoint (Option PoolStats)}
    (hnext : ∀ sum, (next sum).Holds (·.hostId < g.maxHosts)) :
    (StatsPoint.add checked sum value next).Holds (·.hostId < g.maxHosts) := by
  unfold StatsPoint.add
  cases addU64 checked sum value with
  | none => trivial
  | some sum => exact hnext sum

theorem Metrics.readStats_lawful {point : StatsPoint}
    (hpoint : point.hostId < g.maxHosts) : (Metrics.readStats checked g point).Lawful g := by
  cases point with
  | loadAppendsTotal hostId stats => exact .counter_access hpoint rfl rfl (by decide)
  | loadAppendsFailed hostId stats => exact .counter_access hpoint rfl rfl (by decide)
  | loadBytesWritten hostId stats => exact .counter_access hpoint rfl rfl (by decide)
  | loadReadsTotal hostId stats => exact .counter_access hpoint rfl rfl (by decide)
  | loadChecksumFailures hostId stats =>
    exact .counter_access hpoint rfl rfl (by decide)
  | loadRecoveryRuns hostId stats => exact .counter_access hpoint rfl rfl (by decide)
  | loadAbandonedFound hostId stats => exact .counter_access hpoint rfl rfl (by decide)

theorem Metrics.readStats_bounded {point : StatsPoint} (hpoint : point.hostId < g.maxHosts) :
    ((Metrics.readStats checked g point).exec memory).1.Holds (·.hostId < g.maxHosts) := by
  cases point with
  | loadAbandonedFound hostId stats =>
    exact StatsPoint.add_bounded fun _ ↦ StatsPoint.head_bounded
  | _ => exact StatsPoint.add_bounded fun _ ↦ hpoint

theorem ServiceCall.next_lawful {call : ServiceCall}
    (hcall : call.Bounded g) {backend : BackendCall ServiceCall}
    (hnext : call.next checked g hasher = some backend) : backend.Lawful g := by
  rcases call with call | point | stats
  · obtain ⟨inner, hinner, rfl⟩ := Option.map_eq_some_iff.mp hnext
    exact (Call.next_lawful hcall hinner).map _
  · obtain rfl := Option.some.inj hnext
    exact (Metrics.readStats_lawful hcall).map _
  · cases hnext

theorem ServiceCall.step_bounded (htail : TailWithin g memory) {call : ServiceCall}
    (hcall : call.Bounded g) : (call.step checked g hasher memory).1.Bounded g := by
  rcases call with call | point | stats
  · rw [ServiceCall.step_operation]
    exact Call.step_bounded htail hcall
  · rw [ServiceCall.step_statistics]
    exact Metrics.readStats_bounded hcall
  · exact hcall

theorem ServiceCall.step_tail (htail : TailWithin g memory)
    {call : ServiceCall} (hcall : call.Bounded g) :
    TailWithin g (call.step checked g hasher memory).2 := by
  rw [ServiceCall.step]
  cases hnext : call.next checked g hasher with
  | none => exact htail
  | some backend => exact (ServiceCall.next_lawful hcall hnext).tail memory htail

theorem ServiceRequest.start_bounded {request : ServiceRequest}
    (hhost : ∀ hostId, request.host = some hostId → hostId.toNat < g.maxHosts) :
    (request.start g).Bounded g := by
  cases request with
  | operation request => exact Request.call_bounded hhost
  | statistics => exact StatsPoint.head_bounded

/-! ### Runs -/

/-- The committed tail lies within the pool, and every call is bounded. -/
structure Contained (g : PoolGeometry) (config : Config ServiceCall Memory) : Prop where
  tail : TailWithin g config.shared
  bounded : ∀ call ∈ config.threads, call.Bounded g

variable (g) in
/-- Requests come from hosts of the pool. -/
def FromHosts (action : Action ServiceRequest Empty) : Prop :=
  ∀ request, action = .start request →
    ∀ hostId, request.host = some hostId → hostId.toNat < g.maxHosts

/-- Every action keeps the calls to the pool. -/
theorem Contained.apply {config : Config ServiceCall Memory} (hcontained : Contained g config)
    {action : Action ServiceRequest Empty} (haction : FromHosts g action) :
    Contained g ((serviceMachine checked g hasher).apply config action) := by
  cases action with
  | env event => exact event.elim
  | start request =>
    refine ⟨hcontained.tail, fun call hmem ↦ ?_⟩
    rcases List.mem_append.mp hmem with hold | hnew
    · exact hcontained.bounded call hold
    · rw [List.mem_singleton.mp hnew]
      exact ServiceRequest.start_bounded (haction request rfl)
  | step index =>
    cases hcall : config.threads[index]? with
    | none => rwa [apply_step_of_none _ hcall]
    | some call =>
      have hbounded := hcontained.bounded call (List.mem_of_getElem? hcall)
      rw [apply_step_of_getElem? _ hcall]
      refine ⟨ServiceCall.step_tail hcontained.tail hbounded, ?_⟩
      exact forall_mem_set (·.Bounded g) hcall
        (ServiceCall.step_bounded hcontained.tail hbounded)
        fun _ other _ hother ↦ hcontained.bounded other (List.mem_of_getElem? hother)

/-- The backend call of an action lies in the pool, aligned if it is one to a word. -/
def AccessesPool (checked : Bool) (g : PoolGeometry) (hasher : Hasher)
    (config : Config ServiceCall Memory)
    (action : Action ServiceRequest Empty) : Prop :=
  ∀ index call backend, action = .step index → config.threads[index]? = some call →
    call.next checked g hasher = some backend →
      backend.offset + backend.length ≤ g.totalSize ∧
        (backend.isWord = true → backend.offset % 8 = 0)

theorem Contained.accessesPool (haligned : g.payloadSize % 8 = 0)
    {config : Config ServiceCall Memory} (hcontained : Contained g config)
    (action : Action ServiceRequest Empty) : AccessesPool checked g hasher config action := by
  intro index call backend _ hcall hnext
  have hlawful := ServiceCall.next_lawful
    (hcontained.bounded call (List.mem_of_getElem? hcall)) hnext
  exact ⟨hlawful.bounds, hlawful.aligned haligned⟩

end Fence
