import Fence.Library.FirstGap
import Fence.Protocol.Counters
import Fence.Protocol.RecoveryOutcome

/-!
# An append that runs alone

A sweep that runs alone moves the committed tail on to the first slot that is not committed
(`sweep_ends`). An append that runs alone is refused when its payload is too large or the pool is
full; else it fills its slot, field by field (`Filling`), commits it and sweeps. `append_ends` says
what it leaves when everything below the committed tail was claimed before: a complete record in the
next slot, the reserve tail behind it, and the committed tail at the next gap.
-/

set_option autoImplicit false
set_option relaxedAutoImplicit false

namespace Fence

open ByteMemory FirstGap Interleaving

variable {g : PoolGeometry} {hasher : Hasher}

/-! ### The sweep -/

variable (g) in
/-- Sweeps on one memory. -/
def sweepMachine : Machine Unit (Task SweepPoint ℕ) Memory Empty where
  start := fun _ ↦ .running .loadTail
  step := fun task memory ↦
    match task with
    | .running point => (Recovery.advanceCommittedTail g point).exec memory
    | .returned committedTail => (.returned committedTail, memory)
  env := fun event _ ↦ event.elim

variable (g) in
/-- Where a sweep that runs alone takes the committed tail. -/
def sweptTail (memory : Memory) : ℕ :=
  firstGap (fun slot ↦ stateByte g memory slot = stateCommitted) g.capacity
    (loadWord memory hdrCommittedTail 8)

variable (g) in
/-- The memory a sweep that runs alone leaves. -/
def sweptMemory (memory : Memory) : Memory :=
  if sweptTail g memory = loadWord memory hdrCommittedTail 8 then memory
  else storeWord memory hdrCommittedTail 8 (sweptTail g memory)

section Sweep

variable (memory : Memory)

theorem sweep_ends_step {point : SweepPoint} {result : Task SweepPoint ℕ} {later : Memory}
    (hends : (sweepMachine g).Ends ((Recovery.advanceCommittedTail g point).exec memory).1
      ((Recovery.advanceCommittedTail g point).exec memory).2 result later) :
    (sweepMachine g).Ends (.running point) memory result later := .step hends

/-- A sweep that has come to the first gap returns, after publishing it when it has moved. -/
theorem settle_ends :
    (sweepMachine g).Ends
      (SweepPoint.settle (loadWord memory hdrCommittedTail 8) (sweptTail g memory)) memory
      (.returned (sweptTail g memory)) (sweptMemory g memory) := by
  unfold SweepPoint.settle sweptMemory
  split_ifs with hsame
  · rw [hsame]
    exact .refl _ _
  · refine sweep_ends_step memory ?_
    simp only [Recovery.advanceCommittedTail, BackendCall.exec, if_true]
    exact .refl _ _

/-- The inner loop of a sweep walks on to the first gap. -/
theorem scanFrom_ends (fuel : ℕ) {newTail : ℕ} (hfuel : g.capacity - newTail = fuel)
    (hlow : loadWord memory hdrCommittedTail 8 ≤ newTail) (hhigh : newTail ≤ sweptTail g memory) :
    (sweepMachine g).Ends
      (SweepPoint.scanFrom g (loadWord memory hdrCommittedTail 8) newTail) memory
      (.returned (sweptTail g memory)) (sweptMemory g memory) := by
  have hgap : (newTail < g.capacity → stateByte g memory newTail ≠ stateCommitted) →
      newTail = sweptTail g memory := fun hstate ↦ eq_firstGap_of_le hlow hhigh hstate
  induction fuel generalizing newTail with
  | zero =>
    have hfull : ¬ newTail < g.capacity := by omega
    rw [SweepPoint.scanFrom, if_neg hfull, hgap fun hroom ↦ absurd hroom hfull]
    exact settle_ends memory
  | succ fuel ih =>
    have hroom : newTail < g.capacity := by omega
    rw [SweepPoint.scanFrom, if_pos hroom]
    refine sweep_ends_step memory ?_
    simp only [Recovery.advanceCommittedTail, BackendCall.exec,
      asU32_of_lt hroom (Nat.le_of_lt g.capacity_lt)]
    split_ifs with hstate
    · rw [hgap fun _ ↦ hstate]
      exact settle_ends memory
    · have hpassed : newTail < sweptTail g memory := by
        refine (lt_firstGap_iff hroom).mpr fun between hbetween hle ↦ ?_
        rcases Nat.lt_or_eq_of_le hle with hbelow | rfl
        · exact holds_of_lt_firstGap hbetween (Nat.lt_of_lt_of_le hbelow hhigh)
        · exact not_not.mp hstate
      exact ih (by omega) (by omega) hpassed fun hstate ↦
        eq_firstGap_of_le (by omega) hpassed hstate

/-- Where a sweep that runs alone leads. -/
theorem sweep_ends :
    (sweepMachine g).Ends (.running .loadTail) memory (.returned (sweptTail g memory))
      (sweptMemory g memory) :=
  sweep_ends_step memory (scanFrom_ends memory _ rfl (Nat.le_refl _) le_firstGap)

end Sweep

/-! ### Filling a slot -/

variable (g hasher) in
/-- A slot was reserved and its record filled up to a stage, and nothing else has changed. -/
structure Filling (entry : Entry) (start : Memory) (slot stage : ℕ) (memory : Memory) : Prop where
  committedTail_eq :
    (Pool.ofMemory g memory).committedTail = (Pool.ofMemory g start).committedTail
  reserveTail_eq : (Pool.ofMemory g memory).reserveTail = slot + 1
  others : ∀ other, other ≠ slot →
    (Pool.ofMemory g memory).slot other = (Pool.ofMemory g start).slot other
  written : Written hasher entry slot stage ((Pool.ofMemory g memory).slot slot)
  counted : Counted g [] start memory

section Filling

variable {entry : Entry} {start memory : Memory} {slot stage : ℕ} (hslot : slot < g.capacity)

include hslot

theorem Filling.store (hfilling : Filling g hasher entry start slot stage memory) {later offset : ℕ}
    {bytes : List UInt8} (hfits : offset + bytes.length ≤ g.recordSize)
    (hwritten : Written hasher entry slot later
      (ByteMemory.store ((Pool.ofMemory g memory).slot slot) offset bytes)) :
    Filling g hasher entry start slot later
      (ByteMemory.store memory (g.recordOffset slot + offset) bytes) where
  committedTail_eq := by
    rw [Pool.ofMemory_store_slot hslot hfits]
    exact hfilling.committedTail_eq
  reserveTail_eq := by
    rw [Pool.ofMemory_store_slot hslot hfits]
    exact hfilling.reserveTail_eq
  others := by
    intro other hother
    rw [Pool.ofMemory_store_slot hslot hfits, Pool.storeSlot_slot_ne _ hother]
    exact hfilling.others other hother
  written := by
    rw [Pool.ofMemory_store_slot hslot hfits, Pool.storeSlot_slot_self]
    exact hwritten
  counted := hfilling.counted.trans (Counted.store_slot hslot hfits)

/-- The next field is stored. -/
theorem Filling.fill {field : RecordField}
    (hfilling : Filling g hasher entry start slot field.stage memory)
    (hfield : field ∈ recordFields hasher entry slot) (hsize : entry.data.length ≤ g.payloadSize) :
    Filling g hasher entry start slot (field.stage + 1)
      (ByteMemory.store memory (g.recordOffset slot + field.offset) field.bytes) :=
  hfilling.store hslot (recordFields_bounds hsize hfield) (hfilling.written.store hfield)

/-- The state byte is stored. -/
theorem Filling.store_state (hfilling : Filling g hasher entry start slot stage memory)
    (state : UInt8) :
    Filling g hasher entry start slot stage
      (ByteMemory.store memory (g.recordOffset slot + recState) [state]) := by
  have hmeta := PoolGeometry.recordMetaSize_le (g := g)
  have hfits : recState + [state].length ≤ g.recordSize :=
    Nat.le_trans (by decide : recState + 1 ≤ recordMetaSize) hmeta
  exact hfilling.store hslot hfits (hfilling.written.store_state state)

end Filling

/-! ### The steps of an append -/

theorem append_ends_step {entry : Entry} {point : AppendPoint} {memory later : Memory}
    {result : Call} (hends : (runtimeMachine g hasher).Ends
      (.append entry ((FenceRuntime.append g hasher entry point).exec memory).1)
      ((FenceRuntime.append g hasher entry point).exec memory).2 result later) :
    (runtimeMachine g hasher).Ends (.append entry (.running point)) memory result later :=
  .of_step (Call.step_append entry point) hends

/-- The sweep inside an append. -/
theorem append_sweep_ends (entry : Entry) (slot : ℕ) (memory : Memory) :
    (runtimeMachine g hasher).Ends (.append entry (.running (.sweep slot .loadTail))) memory
      (.append entry (.running (.countAppends slot))) (sweptMemory g memory) := by
  refine Machine.Ends.embed (runtimeMachine g hasher) (fun task : Task SweepPoint ℕ ↦
    match task with
    | .running point => Call.append entry (.running (.sweep slot point))
    | .returned _ => Call.append entry (.running (.countAppends slot)))
    (fun task ↦ ∃ committedTail, task = .returned committedTail) ?_ ?_ (sweep_ends memory)
  · rintro task ⟨committedTail, rfl⟩ shared
    rfl
  · rintro (point | committedTail) shared hrunning
    · have hstep : (Call.append entry (.running (.sweep slot point))).step g hasher shared = _ :=
        Call.step_append entry _
      simp only [FenceRuntime.append, BackendCall.exec_map] at hstep
      refine hstep.trans ?_
      show _ = (_, ((Recovery.advanceCommittedTail g point).exec shared).2)
      cases hnext : ((Recovery.advanceCommittedTail g point).exec shared).1 <;>
        simp [sweepMachine, hnext]
    · exact absurd ⟨committedTail, rfl⟩ hrunning

section Append

variable {entry : Entry} {start memory : Memory} {slot : ℕ} (hslot : slot < g.capacity)
  (hsize : entry.data.length ≤ g.payloadSize)

include hslot hsize

/-- From the checksum on an append completes its record and commits it. -/
theorem append_commit_ends (hfilling : Filling g hasher entry start slot 6 memory) :
    ∃ later, (runtimeMachine g hasher).Ends (.append entry (.running (.storeChecksum slot))) memory
        (.append entry (.running (.sweep slot .loadTail))) later ∧
      Filling g hasher entry start slot 7 later ∧
      (Pool.ofMemory g later).state slot = stateCommitted := by
  have hfield : ⟨6, recChecksum, leBytes 8
      (Checksum.compute hasher entry.term.toNat (slot + 1) entry.data)⟩ ∈
      recordFields hasher entry slot := by
    simp [recordFields]
  have hfilled := hfilling.fill hslot hfield hsize
  refine ⟨_, ?_, hfilled.store_state hslot stateCommitted, ?_⟩
  · refine append_ends_step ?_
    simp only [FenceRuntime.append, BackendCall.exec, appendOffset_of_lt hslot]
    refine append_ends_step ?_
    simp only [FenceRuntime.append, BackendCall.exec]
    refine append_ends_step ?_
    simp only [FenceRuntime.append, BackendCall.exec, appendOffset_of_lt hslot]
    refine append_ends_step ?_
    exact .refl _ _
  · rw [ofMemory_store_state hslot, Pool.state_storeSlot_self]

/-- An append that has marked its slot stores the metadata. -/
theorem append_meta_ends (hfilling : Filling g hasher entry start slot 1 memory) :
    ∃ later, (runtimeMachine g hasher).Ends (.append entry (.running (.storeTerm slot))) memory
        (.append entry (if entry.data = [] then .running (.storeChecksum slot)
          else .running (.writePayload slot))) later ∧
      Filling g hasher entry start slot 5 later := by
  have hterm : ⟨1, recTerm, leBytes 8 entry.term.toNat⟩ ∈ recordFields hasher entry slot := by
    simp [recordFields]
  have hindex : ⟨2, recIndex, leBytes 8 (slot + 1)⟩ ∈ recordFields hasher entry slot := by
    simp [recordFields]
  have hwriter : ⟨3, recWriterId, leBytes 8 entry.hostId.toNat⟩ ∈
      recordFields hasher entry slot := by
    simp [recordFields]
  have hlength : ⟨4, recDataLen, leBytes 4 entry.data.length⟩ ∈
      recordFields hasher entry slot := by
    simp [recordFields]
  have hcast : asU32 entry.data.length = entry.data.length := asU32_of_le_payloadSize hsize
  refine ⟨_, ?_, (((hfilling.fill hslot hterm hsize).fill hslot hindex hsize).fill hslot hwriter
    hsize).fill hslot hlength hsize⟩
  refine append_ends_step ?_
  simp only [FenceRuntime.append, BackendCall.exec, appendOffset_of_lt hslot]
  refine append_ends_step ?_
  simp only [FenceRuntime.append, BackendCall.exec, appendOffset_of_lt hslot]
  refine append_ends_step ?_
  simp only [FenceRuntime.append, BackendCall.exec, appendOffset_of_lt hslot]
  refine append_ends_step ?_
  simp only [FenceRuntime.append, BackendCall.exec, appendOffset_of_lt hslot, hcast]
  exact .refl _ _

/-- An append that has marked its slot fills and commits it. -/
theorem append_fill_ends (hfilling : Filling g hasher entry start slot 1 memory) :
    ∃ later, (runtimeMachine g hasher).Ends (.append entry (.running (.storeTerm slot))) memory
        (.append entry (.running (.sweep slot .loadTail))) later ∧
      Filling g hasher entry start slot 7 later ∧
      (Pool.ofMemory g later).state slot = stateCommitted := by
  obtain ⟨between, hmeta, hfive⟩ := append_meta_ends hslot hsize hfilling
  by_cases hempty : entry.data = []
  · have hsix : Filling g hasher entry start slot 6 between :=
      { hfive with written := hfive.written.skip_payload rfl hempty }
    obtain ⟨later, hends, hfilled⟩ := append_commit_ends hslot hsize hsix
    rw [if_pos hempty] at hmeta
    exact ⟨later, hmeta.trans hends, hfilled⟩
  · have hdata : ⟨5, recordMetaSize, entry.data⟩ ∈ recordFields hasher entry slot := by
      simp [recordFields]
    obtain ⟨later, hends, hfilled⟩ := append_commit_ends hslot hsize
      (hfive.fill hslot hdata hsize)
    rw [if_neg hempty] at hmeta
    refine ⟨later, hmeta.trans (append_ends_step ?_), hfilled⟩
    simp only [FenceRuntime.append, BackendCall.exec, appendOffset_of_lt hslot]
    exact hends

end Append

/-! ### The outcome -/

/-- An entry of a host without any bytes. -/
def emptyEntry (hostId : UInt16) : Entry := ⟨hostId, 0, []⟩

/-- Where an append leaves the committed tail that has committed a slot. -/
def appendedTail (g : PoolGeometry) (start : Memory) (slot : ℕ) : ℕ :=
  firstGap (fun other ↦ (Pool.ofMemory g start).state other = stateCommitted) g.capacity (slot + 1)

/-- What an append that runs alone has made of a memory. -/
structure Appended (g : PoolGeometry) (hasher : Hasher) (entry : Entry) (start : Memory)
    (slot : ℕ) (memory : Memory) : Prop where
  committedTail_eq : (Pool.ofMemory g memory).committedTail = appendedTail g start slot
  reserveTail_eq : (Pool.ofMemory g memory).reserveTail = slot + 1
  others : ∀ other, other ≠ slot →
    (Pool.ofMemory g memory).slot other = (Pool.ofMemory g start).slot other
  written : Written hasher entry slot 7 ((Pool.ofMemory g memory).slot slot)
  state : (Pool.ofMemory g memory).state slot = stateCommitted
  counted : Counted g [⟨entry.hostId, metricsAppendsTotal, 1⟩,
    ⟨entry.hostId, metricsBytesWritten, entry.data.length⟩] start memory

variable (g hasher) in
/-- The counters at the end of an append. -/
theorem append_count_ends (entry : Entry) (slot : ℕ) (memory : Memory) :
    ∃ later, (runtimeMachine g hasher).Ends (.append entry (.running (.countAppends slot))) memory
        (.append entry (.returned (.ok (slot + 1)))) later ∧
      Pool.ofMemory g later = Pool.ofMemory g memory ∧
      Counted g [⟨entry.hostId, metricsAppendsTotal, 1⟩,
        ⟨entry.hostId, metricsBytesWritten, entry.data.length⟩] memory later := by
  have htotal : metricsAppendsTotal ∈ metricsFields := by decide
  have hbytes : metricsBytesWritten ∈ metricsFields := by decide
  refine ⟨_, append_ends_step (append_ends_step (.refl _ _)), ?_, ?_⟩
  · exact Eq.trans ofMemory_exec_incrementCounter ofMemory_exec_incrementCounter
  · exact (Counted.increment 1 htotal).trans (Counted.increment entry.data.length hbytes)

/-- A sweep leaves the slots alone, and the tail at the first gap. -/
theorem ofMemory_sweptMemory (memory : Memory) :
    Pool.ofMemory g (sweptMemory g memory) =
        { Pool.ofMemory g memory with committedTail := sweptTail g memory } ∧
      Counted g [] memory (sweptMemory g memory) := by
  have hlt : sweptTail g memory < 2 ^ 64 := by
    have htail : loadWord memory hdrCommittedTail 8 < 2 ^ 64 := loadWord_lt _ _ _
    have hcapacity := g.capacity_lt
    have hle : sweptTail g memory ≤ max (loadWord memory hdrCommittedTail 8) g.capacity :=
      firstGap_le
    omega
  unfold sweptMemory
  split_ifs with hsame
  · rw [hsame]
    exact ⟨rfl, .refl _⟩
  · rw [Pool.ofMemory_storeWord_committedTail, Nat.mod_eq_of_lt hlt]
    exact ⟨rfl, Counted.store_header (by simp [hdrCommittedTail, headerSize])⟩

/-- The slot after the one committed is not committed: the tail goes no further. -/
theorem appendedTail_eq {start : Memory} {slot : ℕ}
    (hfree : slot + 1 < g.capacity → (Pool.ofMemory g start).state (slot + 1) ≠ stateCommitted) :
    appendedTail g start slot = slot + 1 :=
  (eq_firstGap (Nat.le_refl _) (Nat.le_max_left _ _)
    (fun _ hlow hhigh ↦ absurd hhigh (Nat.not_lt.mpr hlow)) hfree).symm

/-- The sweep of an append that has committed its slot goes on through the slots committed
before. -/
theorem Filling.sweptTail_eq {entry : Entry} {start filled : Memory} {slot : ℕ}
    (hfilled : Filling g hasher entry start slot 7 filled) (hslot : slot < g.capacity)
    (hstate : (Pool.ofMemory g filled).state slot = stateCommitted)
    (hcommitted : (Pool.ofMemory g start).committedTail = slot) :
    sweptTail g filled = appendedTail g start slot := by
  have hload : loadWord filled hdrCommittedTail 8 = slot :=
    hfilled.committedTail_eq.trans hcommitted
  have hother : ∀ other, other ≠ slot → other < g.capacity →
      (stateByte g filled other = stateCommitted ↔
        (Pool.ofMemory g start).state other = stateCommitted) := by
    intro other hne hroom
    have hbyte : stateByte g filled other = (Pool.ofMemory g filled).state other :=
      (Pool.ofMemory_state hroom).symm
    rw [hbyte, Pool.state, hfilled.others other hne, Pool.state]
  have hlow : slot + 1 ≤ appendedTail g start slot := le_firstGap
  have hhigh : appendedTail g start slot ≤ max (slot + 1) g.capacity := firstGap_le
  rw [sweptTail, hload]
  refine (eq_firstGap (Nat.le_of_succ_le hlow) (by omega) ?_ ?_).symm
  · intro between hbetween hpassed
    by_cases hsame : between = slot
    · subst hsame
      rwa [Pool.ofMemory_state hslot] at hstate
    · refine (hother between hsame (by omega)).mpr ?_
      unfold appendedTail at hpassed
      exact holds_of_lt_firstGap (by omega) hpassed
  · intro hroom hgap
    have hheld := (hother _ (by omega) hroom).mp hgap
    unfold appendedTail at hroom hheld
    exact not_holds_firstGap hroom hheld

/-- An append that runs alone on a pool with room returns the next index. -/
theorem append_ends {entry : Entry} {memory : Memory} {slot : ℕ} (hslot : slot < g.capacity)
    (hsize : entry.data.length ≤ g.payloadSize)
    (hreserve : (Pool.ofMemory g memory).reserveTail = slot)
    (hcommitted : (Pool.ofMemory g memory).committedTail = slot) :
    ∃ later, (runtimeMachine g hasher).Ends (Request.call g (.append entry)) memory
        (.append entry (.returned (.ok (slot + 1)))) later ∧
      Appended g hasher entry memory slot later := by
  have hcapacity := g.capacity_lt
  have hloaded : loadWord memory hdrReserveTail 8 = slot := hreserve
  have hnext : (slot + 1) % 2 ^ 64 = slot + 1 := Nat.mod_eq_of_lt (by omega)
  have hpool : Pool.ofMemory g (storeWord memory hdrReserveTail 8 (slot + 1)) = _ :=
    Pool.ofMemory_storeWord_reserveTail (slot + 1)
  have hreserved : Filling g hasher entry memory slot 1
      (storeWord memory hdrReserveTail 8 (slot + 1)) :=
    { committedTail_eq := by rw [hpool]
      reserveTail_eq := by rw [hpool]; exact hnext
      others := fun other _ ↦ by rw [hpool]
      written := .of_le_one _ (Nat.le_refl _)
      counted := Counted.store_header (by simp [hdrReserveTail, headerSize]) }
  obtain ⟨filled, hfill, hfilled, hstate⟩ :=
    append_fill_ends hslot hsize (hreserved.store_state hslot stateWriting)
  obtain ⟨hswept, hkept⟩ := ofMemory_sweptMemory (g := g) filled
  obtain ⟨later, hcount, hsame, hcounted⟩ :=
    append_count_ends g hasher entry slot (sweptMemory g filled)
  rw [hswept, hfilled.sweptTail_eq hslot hstate hcommitted] at hsame
  refine ⟨later, ?_, ?_⟩
  · have hstart : Request.call g (.append entry) = .append entry (.running .reserve) := by
      rw [Request.call, startAppend, if_neg (Nat.not_lt.mpr hsize)]
    rw [hstart]
    refine append_ends_step ?_
    simp only [FenceRuntime.append, BackendCall.exec, hloaded, if_neg (Nat.not_le.mpr hslot),
      hnext]
    refine append_ends_step ?_
    simp only [FenceRuntime.append, BackendCall.exec, appendOffset_of_lt hslot]
    exact hfill.trans ((append_sweep_ends entry slot filled).trans hcount)
  · exact
      { committedTail_eq := by rw [hsame]
        reserveTail_eq := by rw [hsame]; exact hfilled.reserveTail_eq
        others := by rw [hsame]; exact hfilled.others
        written := by rw [hsame]; exact hfilled.written
        state := by rw [hsame]; exact hstate
        counted := (hfilled.counted.trans hkept).trans hcounted }

/-- An append that runs alone on a full pool gives its reservation back. -/
theorem append_full_ends {entry : Entry} {memory : Memory}
    (hsize : entry.data.length ≤ g.payloadSize)
    (hfull : g.capacity ≤ (Pool.ofMemory g memory).reserveTail) :
    ∃ later, (runtimeMachine g hasher).Ends (Request.call g (.append entry)) memory
        (.append entry (.returned (.error
          (.poolFull g.capacity (Pool.ofMemory g memory).reserveTail)))) later ∧
      Pool.ofMemory g later = Pool.ofMemory g memory ∧
      Counted g [⟨entry.hostId, metricsAppendsFailed, 1⟩] memory later := by
  have hfailed : metricsAppendsFailed ∈ metricsFields := by decide
  have hloaded : g.capacity ≤ loadWord memory hdrReserveTail 8 := hfull
  have hlt : loadWord memory hdrReserveTail 8 < 2 ^ 64 := loadWord_lt _ _ _
  have hundone : ((loadWord memory hdrReserveTail 8 + 1) % 2 ^ 64 % 256 ^ 8 + (2 ^ 64 - 1)) %
      2 ^ 64 = loadWord memory hdrReserveTail 8 := by omega
  have hstart : Request.call g (.append entry) = .append entry (.running .reserve) := by
    rw [Request.call, startAppend, if_neg (Nat.not_lt.mpr hsize)]
  refine ⟨((Metrics.incrementAppendsFailed g entry.hostId ()).exec memory).2, ?_,
    ofMemory_exec_incrementCounter, Counted.increment 1 hfailed⟩
  rw [hstart]
  refine append_ends_step ?_
  simp only [FenceRuntime.append, BackendCall.exec, if_pos hloaded]
  refine append_ends_step ?_
  simp only [FenceRuntime.append, BackendCall.exec]
  rw [loadWord_storeWord_self, storeWord_storeWord_self, hundone, storeWord_loadWord_self]
  refine append_ends_step ?_
  exact .refl _ _

end Fence
