import Fence.Runtime.Engine

/-!
# How far each append has come

An append that was given a slot below capacity holds a reservation: the slot, the entry it
writes, and a stage that counts the stores it has made. The stage is the number of the next
store of the record, in the order of the source:

* at stage 0 the slot is still free, and the next store marks it as being written;
* at stages 1 to 6 the next store is that of term, index, writer, length, payload and checksum;
* from stage 7 on the record is complete, from stage 8 on it was flushed;
* from stage 9 on the committed state was stored, from stage 10 on it was flushed;
* a returned append has stage 13.

`recordFields` lists the six fields with their places and their bytes, and `Written` says that
the fields below a stage are in a slot. `Reached` says that some append has brought a slot to a
stage; it never becomes false again, which is what lets callers remember it.
-/

set_option autoImplicit false
set_option relaxedAutoImplicit false

namespace Fence

open ByteMemory Interleaving

/-! ### Reservations -/

/-- A slot below capacity with the entry being written there and the stage of the writing. -/
@[ext] structure Reservation where
  slot : ℕ
  entry : Entry
  stage : ℕ

/-- The slot and the stage of a program point of `append`, once a slot is reserved. -/
def AppendPoint.progress : AppendPoint → Option (ℕ × ℕ)
  | .reserve | .undo _ | .countFailed _ => none
  | .storeWriting slot => some (slot, 0)
  | .storeTerm slot => some (slot, 1)
  | .storeIndex slot => some (slot, 2)
  | .storeWriterId slot => some (slot, 3)
  | .writeDataLen slot => some (slot, 4)
  | .writePayload slot => some (slot, 5)
  | .storeChecksum slot => some (slot, 6)
  | .flushRecord slot => some (slot, 7)
  | .storeCommitted slot => some (slot, 8)
  | .flushState slot => some (slot, 9)
  | .sweep slot _ => some (slot, 10)
  | .countAppends slot => some (slot, 11)
  | .countBytes slot => some (slot, 12)

/-- The reservation a call holds. A returned append keeps the slot its index names. -/
def Call.reservation : Call → Option Reservation
  | .append entry (.running point) => point.progress.map fun p ↦ ⟨p.1, entry, p.2⟩
  | .append entry (.returned (.ok index)) => some ⟨index - 1, entry, 13⟩
  | _ => none

/-- Whether a call took a slot past capacity and has not given it back yet. -/
def Call.pendingUndo : Call → Bool
  | .append _ (.running (.undo _)) => true
  | _ => false

/-- The slot a call is about to mark abandoned. -/
def Call.abandoning : Call → Option ℕ
  | .recover _ (.running (.recovery (.storeAbandoned scan))) => some scan.slot
  | .trim _ (.running (.storeAbandoned slot _)) => some slot
  | _ => none

/-- The point of the sweep a call is in. -/
def Call.sweepPoint : Call → Option SweepPoint
  | .append _ (.running (.sweep _ point)) => some point
  | .recover _ (.running (.recovery (.sweep _ point))) => some point
  | _ => none

/-- Whether a call has left its sweep behind. -/
def Call.swept : Call → Bool
  | .append _ (.running (.countAppends _)) => true
  | .append _ (.running (.countBytes _)) => true
  | .append _ (.returned _) => true
  | .recover _ (.running (.countRuns _)) => true
  | .recover _ (.running (.countAbandoned _)) => true
  | .recover _ (.returned _) => true
  | _ => false

/-- Some append has brought the slot to the stage, writing the entry. -/
def Reached (threads : List Call) (slot : ℕ) (entry : Entry) (stage : ℕ) : Prop :=
  ∃ call ∈ threads, ∃ reached ≥ stage, call.reservation = some ⟨slot, entry, reached⟩

/-- The slot holds a record whose committed state was stored. -/
def Stored (threads : List Call) (slot : ℕ) (entry : Entry) : Prop :=
  Reached threads slot entry 9

/-- The slot was marked as being written. -/
def Begun (threads : List Call) (slot : ℕ) (entry : Entry) : Prop :=
  Reached threads slot entry 1

theorem Reached.mono_stage {threads : List Call} {slot : ℕ} {entry : Entry} {stage lower : ℕ}
    (hreached : Reached threads slot entry stage) (hle : lower ≤ stage) :
    Reached threads slot entry lower := by
  obtain ⟨call, hmem, reached, hstage, hreservation⟩ := hreached
  exact ⟨call, hmem, reached, Nat.le_trans hle hstage, hreservation⟩

theorem Stored.begun {threads : List Call} {slot : ℕ} {entry : Entry}
    (hstored : Stored threads slot entry) : Begun threads slot entry :=
  hstored.mono_stage (by decide)

/-- A call keeps its reservation and does not fall back to an earlier stage. -/
def Advances (before after : Call) : Prop :=
  ∀ slot entry stage, before.reservation = some ⟨slot, entry, stage⟩ →
    ∃ later ≥ stage, after.reservation = some ⟨slot, entry, later⟩

/-- What was reached stays reached when a call advances. -/
theorem Reached.set {threads : List Call} {index : ℕ} {before after : Call} {slot : ℕ}
    {entry : Entry} {stage : ℕ} (hbefore : threads[index]? = some before)
    (hadvances : Advances before after) (hreached : Reached threads slot entry stage) :
    Reached (threads.set index after) slot entry stage := by
  refine exists_mem_set hbefore ?_ (fun _ _ hheld ↦ hheld) hreached
  rintro ⟨reached, hstage, hreservation⟩
  obtain ⟨later, hlater, hafter⟩ := hadvances _ _ _ hreservation
  exact ⟨later, Nat.le_trans hstage hlater, hafter⟩

/-- What was reached stays reached when a call starts. -/
theorem Reached.append {threads : List Call} {slot : ℕ} {entry : Entry} {stage : ℕ}
    (call : Call) (hreached : Reached threads slot entry stage) :
    Reached (threads ++ [call]) slot entry stage := by
  obtain ⟨other, hmem, rest⟩ := hreached
  exact ⟨other, List.mem_append_left _ hmem, rest⟩

/-! ### Record fields -/

/-- A field of a record: the stage at which it is stored, its place and its bytes. -/
structure RecordField where
  stage : ℕ
  offset : ℕ
  bytes : List UInt8

variable (hasher : Hasher)

/-- The fields of the record of an entry in a slot, in the order `append` stores them. -/
def recordFields (entry : Entry) (slot : ℕ) : List RecordField :=
  [⟨1, recTerm, leBytes 8 entry.term.toNat⟩,
    ⟨2, recIndex, leBytes 8 (slot + 1)⟩,
    ⟨3, recWriterId, leBytes 8 entry.hostId.toNat⟩,
    ⟨4, recDataLen, leBytes 4 entry.data.length⟩,
    ⟨5, recordMetaSize, entry.data⟩,
    ⟨6, recChecksum,
      leBytes 8 (Checksum.compute hasher entry.term.toNat (slot + 1) entry.data)⟩]

/-- The fields of the record below a stage are in the slot. -/
def Written (entry : Entry) (slot stage : ℕ) (memory : Memory) : Prop :=
  ∀ field ∈ recordFields hasher entry slot, field.stage < stage →
    load memory field.offset field.bytes.length = field.bytes

variable {hasher}

/-- The stages of the fields are 1 to 6, and every field lies behind the state byte. -/
theorem recordFields_stage {entry : Entry} {slot : ℕ} {field : RecordField}
    (hfield : field ∈ recordFields hasher entry slot) :
    1 ≤ field.stage ∧ field.stage ≤ 6 ∧ recState < field.offset := by
  simp only [recordFields, List.mem_cons, List.not_mem_nil, or_false] at hfield
  rcases hfield with rfl | rfl | rfl | rfl | rfl | rfl <;>
    simp [recState, recTerm, recIndex, recWriterId, recDataLen, recChecksum, recordMetaSize]

/-- Every field lies inside the record. -/
theorem recordFields_bounds {g : PoolGeometry} {entry : Entry} {slot : ℕ}
    (hsize : entry.data.length ≤ g.payloadSize) {field : RecordField}
    (hfield : field ∈ recordFields hasher entry slot) :
    field.offset + field.bytes.length ≤ g.recordSize := by
  have hrecord := g.recordSize_eq
  simp only [recordFields, List.mem_cons, List.not_mem_nil, or_false] at hfield
  rcases hfield with rfl | rfl | rfl | rfl | rfl | rfl <;>
    simp only [length_leBytes, recTerm, recIndex, recWriterId, recDataLen, recChecksum,
      recordMetaSize] at hrecord ⊢ <;> omega

/-- Fields of different stages do not overlap. -/
theorem recordFields_disjoint {entry : Entry} {slot : ℕ} {field other : RecordField}
    (hfield : field ∈ recordFields hasher entry slot)
    (hother : other ∈ recordFields hasher entry slot) (hne : field.stage ≠ other.stage) :
    field.offset + field.bytes.length ≤ other.offset ∨
      other.offset + other.bytes.length ≤ field.offset := by
  simp only [recordFields, List.mem_cons, List.not_mem_nil, or_false] at hfield hother
  rcases hfield with rfl | rfl | rfl | rfl | rfl | rfl <;>
    rcases hother with rfl | rfl | rfl | rfl | rfl | rfl <;>
      simp [recTerm, recIndex, recWriterId, recDataLen, recChecksum, recordMetaSize] at hne ⊢

/-- Storing the next field brings the record to the next stage. -/
theorem Written.store {entry : Entry} {slot : ℕ} {memory : Memory} {field : RecordField}
    (hfield : field ∈ recordFields hasher entry slot)
    (hwritten : Written hasher entry slot field.stage memory) :
    Written hasher entry slot (field.stage + 1)
      (ByteMemory.store memory field.offset field.bytes) := by
  intro other hother hstage
  by_cases hsame : other.stage = field.stage
  · obtain rfl : other = field := by
      simp only [recordFields, List.mem_cons, List.not_mem_nil, or_false] at hfield hother
      rcases hfield with rfl | rfl | rfl | rfl | rfl | rfl <;>
        rcases hother with rfl | rfl | rfl | rfl | rfl | rfl <;> simp at hsame ⊢
    exact load_store_self _ _ _
  · rw [load_store_outside (recordFields_disjoint hother hfield hsame)]
    exact hwritten other hother (by omega)

/-- Storing the state byte leaves the fields alone. -/
theorem Written.store_state {entry : Entry} {slot stage : ℕ} {memory : Memory}
    (hwritten : Written hasher entry slot stage memory) (state : UInt8) :
    Written hasher entry slot stage (ByteMemory.store memory recState [state]) := by
  intro field hfield hstage
  rw [load_store_outside (Or.inr (recordFields_stage hfield).2.2)]
  exact hwritten field hfield hstage

/-- From stage 7 on nothing is missing. -/
theorem Written.mono {entry : Entry} {slot stage later : ℕ} {memory : Memory}
    (hwritten : Written hasher entry slot stage memory) (hlater : later ≤ stage ∨ 7 ≤ stage) :
    Written hasher entry slot later memory := by
  intro field hfield hstage
  have hbound := recordFields_stage hfield
  exact hwritten field hfield (by omega)

/-- An empty payload needs no store. -/
theorem Written.skip_payload {entry : Entry} {slot stage : ℕ} {memory : Memory}
    (hwritten : Written hasher entry slot stage memory) (hstage : stage = 5)
    (hempty : entry.data = []) : Written hasher entry slot 6 memory := by
  intro field hfield hless
  by_cases hpayload : field.stage = 5
  · have hbytes : field.bytes = [] := by
      simp only [recordFields, List.mem_cons, List.not_mem_nil, or_false] at hfield
      rcases hfield with rfl | rfl | rfl | rfl | rfl | rfl <;> simp_all
    rw [hbytes]
    rfl
  · exact hwritten field hfield (by omega)

/-- Nothing has to be in a slot at stage 1 or before. -/
theorem Written.of_le_one {entry : Entry} {slot stage : ℕ} (memory : Memory)
    (hstage : stage ≤ 1) : Written hasher entry slot stage memory := by
  intro field hfield hless
  have hbound := recordFields_stage hfield
  omega

/-- What a complete record holds, field by field. -/
structure Complete (hasher : Hasher) (entry : Entry) (slot : ℕ) (memory : Memory) : Prop where
  term : loadWord memory recTerm 8 = entry.term.toNat
  index : loadWord memory recIndex 8 = slot + 1
  writerId : loadWord memory recWriterId 8 = entry.hostId.toNat
  dataLen : leValue (load memory recDataLen 4) = entry.data.length
  payload : load memory recordMetaSize entry.data.length = entry.data
  checksum : loadWord memory recChecksum 8 =
    Checksum.compute hasher entry.term.toNat (slot + 1) entry.data

/-- A record at stage 7 is complete. -/
theorem Written.complete {g : PoolGeometry} {entry : Entry} {slot stage : ℕ} {memory : Memory}
    (hwritten : Written hasher entry slot stage memory) (hstage : 7 ≤ stage)
    (hslot : slot < g.capacity) (hsize : entry.data.length ≤ g.payloadSize) :
    Complete hasher entry slot memory := by
  have hfield : ∀ field ∈ recordFields hasher entry slot,
      load memory field.offset field.bytes.length = field.bytes := fun field hfield ↦
    hwritten field hfield (Nat.lt_of_lt_of_le (Nat.lt_succ_of_le (recordFields_stage hfield).2.1)
      hstage)
  have hnumber : ∀ {offset width value : ℕ}, value < 256 ^ width →
      load memory offset (leBytes width value).length = leBytes width value →
        leValue (load memory offset width) = value := by
    intro offset width value hvalue hload
    rw [length_leBytes] at hload
    rw [hload, leValue_leBytes, Nat.mod_eq_of_lt hvalue]
  have hword : ∀ {offset value : ℕ}, value < 2 ^ 64 →
      load memory offset (leBytes 8 value).length = leBytes 8 value →
        loadWord memory offset 8 = value := by
    intro offset value hvalue hload
    rw [loadWord]
    exact hnumber hvalue hload
  simp only [recordFields, List.forall_mem_cons] at hfield
  obtain ⟨hterm, hindex, hwriter, hlength, hpayload, hchecksum, -⟩ := hfield
  have hcapacity := g.capacity_lt
  have hrecord := g.recordSize_lt
  have hrecordEq := g.recordSize_eq
  have htermLt := entry.term.toNat_lt
  have hhostLt := entry.hostId.toNat_lt
  have hchecksumLt := Checksum.compute_lt hasher entry.term.toNat (slot + 1) entry.data
  exact
    { term := hword (by omega) hterm
      index := hword (by omega) hindex
      writerId := hword (by omega) hwriter
      dataLen := hnumber (by omega) hlength
      payload := hpayload
      checksum := hword (by omega) hchecksum }

/-! ### State bytes -/

/-- The state byte just stored. -/
theorem store_state_self (memory : Memory) (state : UInt8) :
    ByteMemory.store memory recState [state] recState = state := by
  simp [ByteMemory.store]

/-- The state byte of a slot whose append is at a stage. A recovery may have marked it
abandoned from stage 1 on, a trim from stage 9 on. -/
def StateAt (stage : ℕ) (state : UInt8) : Prop :=
  if stage = 0 then state = stateFree
  else if stage < 9 then state = stateWriting ∨ state = stateAbandoned
  else state = stateCommitted ∨ state = stateAbandoned

theorem StateAt.zero_iff {state : UInt8} : StateAt 0 state ↔ state = stateFree := by
  simp [StateAt]

theorem StateAt.of_abandoned {stage : ℕ} (hstage : 1 ≤ stage) :
    StateAt stage stateAbandoned := by
  unfold StateAt
  split_ifs <;> simp_all

/-- A stage change that crosses neither stage 1 nor stage 9 keeps the state byte. -/
theorem StateAt.congr {stage later : ℕ} {state : UInt8} (hstate : StateAt stage state)
    (hlow : stage = 0 ↔ later = 0) (hhigh : stage < 9 ↔ later < 9) : StateAt later state := by
  unfold StateAt at hstate ⊢
  simpa only [hlow, hhigh] using hstate

theorem StateAt.nine_le {stage : ℕ} {state : UInt8} (hstate : StateAt stage state)
    (hcommitted : state = stateCommitted) : 9 ≤ stage := by
  subst hcommitted
  unfold StateAt at hstate
  by_contra hlow
  split_ifs at hstate <;> simp_all [stateCommitted, stateFree, stateWriting, stateAbandoned]

theorem StateAt.one_le {stage : ℕ} {state : UInt8} (hstate : StateAt stage state)
    (hfree : state ≠ stateFree) : 1 ≤ stage := by
  rcases Nat.eq_zero_or_pos stage with rfl | hpos
  · exact absurd (StateAt.zero_iff.mp hstate) hfree
  · exact hpos

theorem StateAt.of_nine_le {stage : ℕ} {state : UInt8} (hstate : StateAt stage state)
    (hstage : 9 ≤ stage) : state = stateCommitted ∨ state = stateAbandoned := by
  unfold StateAt at hstate
  rw [if_neg (by omega), if_neg (by omega)] at hstate
  exact hstate

end Fence
