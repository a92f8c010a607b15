import Fence.Protocol.Counters
import Fence.Protocol.ReadAlone
import Fence.Runtime.ReadRange

/-!
# A range that is read alone

`ReadsInOrder` says what reading indices one after the other gives, by the reads themselves. It is
what `read_range` returns (`readRange_ends`). A read leaves the pool as it is, up to the counters,
so what the reads of a range find can be read off the pool at the start.
-/

set_option autoImplicit false
set_option relaxedAutoImplicit false

namespace Fence

open ByteMemory Interleaving

variable {g : PoolGeometry} {hasher : Hasher} {hostId : UInt16}

variable (g hasher hostId) in
/-- Indices are read one after the other, up to the first error. The records that are found are the
result. -/
inductive ReadsInOrder : List UInt64 → Memory → Except FenceError (List Record) → Memory → Prop
  | done (memory : Memory) : ReadsInOrder [] memory (.ok []) memory
  | failed {index : UInt64} {rest : List UInt64} {memory later : Memory} {error : FenceError}
    (hread : (runtimeMachine g hasher).Ends (Request.call g (.read hostId index)) memory
      (.read hostId index (.returned (.error error))) later) :
    ReadsInOrder (index :: rest) memory (.error error) later
  | returned {index : UInt64} {rest : List UInt64} {memory between later : Memory}
    {found : Option Record} {result : Except FenceError (List Record)}
    (hread : (runtimeMachine g hasher).Ends (Request.call g (.read hostId index)) memory
      (.read hostId index (.returned (.ok found))) between)
    (hrest : ReadsInOrder rest between result later) :
    ReadsInOrder (index :: rest) memory (result.map (found.toList ++ ·)) later

/-- The indices of a range. -/
def rangeIndices (startIndex endIndex : ℕ) : List UInt64 :=
  (List.range' startIndex (endIndex - startIndex)).map UInt64.ofNat

theorem rangeIndices_of_le {startIndex endIndex : ℕ} (hle : endIndex ≤ startIndex) :
    rangeIndices startIndex endIndex = [] := by
  rw [rangeIndices, Nat.sub_eq_zero_of_le hle]
  rfl

theorem rangeIndices_of_lt {startIndex endIndex : ℕ} (hlt : startIndex < endIndex) :
    rangeIndices startIndex endIndex =
      UInt64.ofNat startIndex :: rangeIndices (startIndex + 1) endIndex := by
  have hlength : endIndex - startIndex = endIndex - (startIndex + 1) + 1 := by omega
  rw [rangeIndices, hlength, List.range'_succ]
  rfl

/-! ### Reads and counters -/

section Congr

variable {first second : Memory}
  (hpool : Pool.ofMemory g first = Pool.ofMemory g second)

include hpool

/-- The outcome of a read of a slot depends on the pool only. -/
theorem slotOutcome_congr {slot : ℕ} (hslot : slot < g.capacity) (index : ℕ) :
    slotOutcome g hasher first index slot = slotOutcome g hasher second index slot := by
  have hstate : stateByte g first slot = stateByte g second slot :=
    (load_state hslot).trans (hpool ▸ (load_state hslot).symm)
  have hword : ∀ offset, offset + 8 ≤ recordMetaSize →
      loadWord first (g.recordOffset slot + offset) 8 =
        loadWord second (g.recordOffset slot + offset) 8 := by
    intro offset hfits
    rw [loadWord_meta hslot hfits, loadWord_meta hslot hfits, hpool]
  have hlength : payloadLength g first slot = payloadLength g second slot := by
    rw [payloadLength, payloadLength, load_dataLen hslot, load_dataLen hslot, hpool]
  have hpayload : load first (g.recordOffset slot + recordMetaSize) (payloadLength g second slot) =
      load second (g.recordOffset slot + recordMetaSize) (payloadLength g second slot) := by
    have hlength : payloadLength g second slot ≤ g.payloadSize := Nat.min_le_right _ _
    rw [load_payload hslot hlength, load_payload hslot hlength, hpool]
  rw [slotOutcome, slotOutcome, checksumOk, checksumOk, decodedRecord, decodedRecord, hstate,
    hlength, hpayload, hword recTerm (by decide), hword recIndex (by decide),
    hword recWriterId (by decide), hword recChecksum (by decide)]

/-- The outcome of a read depends on the pool only, when its tail lies within it. -/
theorem readOutcome_congr (htail : (Pool.ofMemory g first).committedTail ≤ g.capacity)
    (index : ℕ) : readOutcome g hasher first index = readOutcome g hasher second index := by
  have hloaded : loadWord first hdrCommittedTail 8 = loadWord second hdrCommittedTail 8 :=
    congrArg Pool.committedTail hpool
  have hbound : loadWord second hdrCommittedTail 8 ≤ g.capacity := hloaded ▸ htail
  rw [readOutcome, readOutcome, hloaded]
  split_ifs with hbeyond
  · rfl
  · rw [slotOutcome_congr hpool]
    exact Nat.lt_of_le_of_lt (asU32_le _) (by omega)

end Congr

/-- The memory a read leaves holds the same pool. -/
theorem ofMemory_countOutcome (memory : Memory) (outcome : Except FenceError (Option Record)) :
    Pool.ofMemory g (countOutcome g memory hostId outcome) = Pool.ofMemory g memory := by
  rcases outcome with error | _ | record
  · cases error with
    | checksumMismatch index => exact ofMemory_exec_incrementCounter
    | _ => rfl
  · rfl
  · exact ofMemory_exec_incrementCounter

/-! ### The run -/

/-- The read of one index inside `read_range`. -/
theorem readRange_read_ends (g : PoolGeometry) (hasher : Hasher) (hostId : UInt16)
    (memory : Memory) {endIndex index : ℕ} (records : List Record) (hlt : index < endIndex) :
    (routineMachine (FenceRuntime.readRange g hasher hostId endIndex)).Ends
      (RangePoint.head endIndex index records) memory
      (RangePoint.next endIndex index records (readOutcome g hasher memory index))
      (countOutcome g memory hostId (readOutcome g hasher memory index)) := by
  have hhead : RangePoint.head endIndex index records =
      (startRead index).fold (fun point ↦ .running ⟨index, records, point⟩)
        (RangePoint.next endIndex index records) := by
    rw [RangePoint.head, if_pos hlt, startRead]
    split_ifs <;> rfl
  have hstep : ∀ point shared,
      (routineMachine (FenceRuntime.readRange g hasher hostId endIndex)).step
        (.running ⟨index, records, point⟩) shared =
      (Task.fold (fun point ↦ .running ⟨index, records, point⟩)
        (RangePoint.next endIndex index records)
          ((FenceRuntime.read g hasher hostId index point).exec shared).1,
        ((FenceRuntime.read g hasher hostId index point).exec shared).2) :=
    fun point shared ↦ BackendCall.exec_map _ _ shared
  rw [hhead]
  exact routine_ends_inside _ hstep (startRead_ends g hasher memory hostId index)

/-- What `read_range` returns is what its indices give, read one after the other. -/
theorem readRange_ends (g : PoolGeometry) (hasher : Hasher) (hostId : UInt16) {endIndex : ℕ}
    (hend : endIndex < 2 ^ 64) (startIndex : ℕ) (memory : Memory) (records : List Record) :
    ∃ result later, (routineMachine (FenceRuntime.readRange g hasher hostId endIndex)).Ends
        (RangePoint.head endIndex startIndex records) memory
        (.returned (result.map (records ++ ·))) later ∧
      ReadsInOrder g hasher hostId (rangeIndices startIndex endIndex) memory result later := by
  induction hlength : endIndex - startIndex generalizing startIndex memory records with
  | zero =>
    have hle : endIndex ≤ startIndex := Nat.le_of_sub_eq_zero hlength
    refine ⟨.ok [], memory, ?_, ?_⟩
    · rw [RangePoint.head, if_neg (Nat.not_lt.mpr hle), Except.map, List.append_nil]
      exact .refl _ _
    · rw [rangeIndices_of_le hle]
      exact .done memory
  | succ length ih =>
    have hlt : startIndex < endIndex := by omega
    have hindex : (UInt64.ofNat startIndex).toNat = startIndex :=
      UInt64.toNat_ofNat_of_lt' (hlt.trans hend)
    have hhere := readRange_read_ends g hasher hostId memory records hlt
    have hread := read_ends g hasher memory hostId (UInt64.ofNat startIndex)
    rw [hindex] at hread
    rw [rangeIndices_of_lt hlt]
    cases houtcome : readOutcome g hasher memory startIndex with
    | error error =>
      rw [houtcome] at hhere hread
      exact ⟨.error error, _, hhere, .failed hread⟩
    | ok found =>
      rw [houtcome] at hhere hread
      obtain ⟨result, later, hends, hrest⟩ := ih (startIndex + 1)
        (countOutcome g memory hostId (.ok found)) (records ++ found.toList) (by omega)
      refine ⟨result.map (found.toList ++ ·), later, ?_, .returned hread hrest⟩
      have hresult : (result.map (found.toList ++ ·)).map (records ++ ·) =
          result.map ((records ++ found.toList) ++ ·) := by
        cases result <;> simp [Except.map]
      have hnext : RangePoint.next endIndex startIndex records (.ok found) =
          RangePoint.head endIndex (startIndex + 1) (records ++ found.toList) := by
        cases found <;> simp [RangePoint.next]
      rw [hnext] at hhere
      rw [hresult]
      exact hhere.trans hends

/-- A `read_range` that is not aborted starts with its first read. -/
theorem startReadRange_eq_some_iff {checked : Bool} {startIndex endIndex : UInt64}
    {task : Task RangePoint (Except FenceError (List Record))} :
    startReadRange checked startIndex endIndex = some task ↔
      (checked = true → startIndex ≤ endIndex) ∧
        (endIndex - startIndex).toNat * sizeOfRecord ≤ isizeMax ∧
        task = RangePoint.head endIndex.toNat startIndex.toNat [] := by
  rw [startReadRange, subU64]
  by_cases hoverflow : checked = true ∧ endIndex < startIndex
  · rw [if_pos hoverflow]
    simp only [reduceCtorEq, false_iff]
    exact fun hstarts ↦ UInt64.not_lt.mpr (hstarts.1 hoverflow.1) hoverflow.2
  · rw [if_neg hoverflow]
    have hchecked : checked = true → startIndex ≤ endIndex := fun hchecked ↦
      UInt64.not_lt.mp fun hlt ↦ hoverflow ⟨hchecked, hlt⟩
    by_cases hlarge : isizeMax < (endIndex - startIndex).toNat * sizeOfRecord
    · simp only [if_pos hlarge, reduceCtorEq, false_iff]
      exact fun hstarts ↦ Nat.not_lt.mpr hstarts.2.1 hlarge
    · simp only [if_neg hlarge, Option.some.injEq]
      exact ⟨fun htask ↦ ⟨hchecked, Nat.le_of_not_lt hlarge, htask.symm⟩,
        fun hstarts ↦ hstarts.2.2.symm⟩

/-- What a `read_range` has returned is what its indices give, read one after the other. -/
theorem startReadRange_ends {checked : Bool} {startIndex endIndex : UInt64}
    {task : Task RangePoint (Except FenceError (List Record))}
    (hstart : startReadRange checked startIndex endIndex = some task) {memory later : Memory}
    {result : Except FenceError (List Record)}
    (hends : (routineMachine
      (FenceRuntime.readRange g hasher hostId endIndex.toNat)).Ends task memory
      (.returned result) later) :
    ReadsInOrder g hasher hostId (rangeIndices startIndex.toNat endIndex.toNat) memory result
      later := by
  obtain ⟨-, -, rfl⟩ := startReadRange_eq_some_iff.mp hstart
  obtain ⟨other, after, hother, hreads⟩ :=
    readRange_ends g hasher hostId endIndex.toNat_lt startIndex.toNat memory []
  obtain ⟨hresult, rfl⟩ := hends.unique hother (fun _ ↦ rfl) fun _ ↦ rfl
  have hsame : result = other := by
    rw [Task.returned.inj hresult]
    cases other <;> rfl
  exact hsame ▸ hreads

/-! ### What the reads find -/

variable (g hasher) in
/-- What reading indices one after the other gives, read off one memory. -/
def rangeOutcome (memory : Memory) : List UInt64 → Except FenceError (List Record)
  | [] => .ok []
  | index :: rest =>
    match readOutcome g hasher memory index.toNat with
    | .error error => .error error
    | .ok found => (rangeOutcome memory rest).map (found.toList ++ ·)

/-- The reads of a range find what the pool at the start holds. -/
theorem ReadsInOrder.eq_rangeOutcome {start memory later : Memory} {indices : List UInt64}
    {result : Except FenceError (List Record)}
    (hreads : ReadsInOrder g hasher hostId indices memory result later)
    (hpool : Pool.ofMemory g memory = Pool.ofMemory g start)
    (htail : (Pool.ofMemory g start).committedTail ≤ g.capacity) :
    result = rangeOutcome g hasher start indices := by
  have hread : ∀ {index : UInt64} {between after : Memory}
    {outcome : Except FenceError (Option Record)},
      Pool.ofMemory g between = Pool.ofMemory g start →
      (runtimeMachine g hasher).Ends (Request.call g (.read hostId index)) between
        (.read hostId index (.returned outcome)) after →
      readOutcome g hasher start index.toNat = outcome ∧
        Pool.ofMemory g after = Pool.ofMemory g start := by
    intro index between after outcome hbetween hends
    obtain ⟨hcall, rfl⟩ := hends.unique (read_ends g hasher between hostId index)
      (fun _ ↦ rfl) fun _ ↦ rfl
    rw [Call.read.injEq, Task.returned.injEq] at hcall
    refine ⟨?_, (ofMemory_countOutcome _ _).trans hbetween⟩
    rw [hcall.2.2]
    exact readOutcome_congr hbetween.symm htail _
  induction hreads with
  | done memory => rfl
  | failed hends =>
    rw [rangeOutcome, (hread hpool hends).1]
  | returned hends _ ih =>
    obtain ⟨houtcome, hafter⟩ := hread hpool hends
    rw [rangeOutcome, houtcome, ih hafter]

end Fence
