import Fence.Protocol.Progress

/-!
# What one step of a call can do

`Rely` is what every call may rely on while it runs: a slot whose state byte is committed was
stored by some append, a slot that is not free was begun, a stored slot holds a complete record,
and everything below the committed tail is stored. `Call.Sound` is what a call in flight knows
at its program point, the fields a reader has loaded, the range a sweep has scanned. `Effect`
lists everything one step can do to the pool, in seven kinds.

That a step of a sound call has one of the effects and leaves the call sound is proved in
`Fence.Protocol.Steps`. What a call knows never goes stale: reservations only advance
(`Effect.advances`), and knowledge survives more reservations and a higher tail
(`Call.Sound.mono`).
-/

set_option autoImplicit false
set_option relaxedAutoImplicit false

namespace Fence

open ByteMemory Interleaving

/-- The record a reader sees of an entry. -/
def Entry.record (entry : Entry) (slot : ℕ) : Record where
  index := slot + 1
  term := entry.term.toNat
  writerId := entry.hostId.toNat
  data := entry.data

variable (g : PoolGeometry) (hasher : Hasher) (tail : ℕ) (threads : List Call)

/-! ### What calls rely on -/

/-- What a call may rely on while others run. -/
structure Rely (pool : Pool) : Prop where
  stored_of_committed : ∀ slot < g.capacity, pool.state slot = stateCommitted →
    ∃ entry, Stored threads slot entry
  begun_of_not_free : ∀ slot < g.capacity, pool.state slot ≠ stateFree →
    ∃ entry, Begun threads slot entry
  complete_of_stored : ∀ slot entry, Stored threads slot entry →
    slot < g.capacity ∧ entry.data.length ≤ g.payloadSize ∧
      Complete hasher entry slot (pool.slot slot)
  stored_of_lt_tail : ∀ slot < pool.committedTail, ∃ entry, Stored threads slot entry

/-- The committed tail is at most the capacity. -/
theorem Rely.committedTail_le {g : PoolGeometry} {hasher : Hasher} {threads : List Call}
    {pool : Pool} (hrely : Rely g hasher threads pool) : pool.committedTail ≤ g.capacity := by
  by_contra hgt
  obtain ⟨entry, hstored⟩ := hrely.stored_of_lt_tail g.capacity (by omega)
  exact Nat.lt_irrefl _ (hrely.complete_of_stored _ _ hstored).1

/-! ### What calls know -/

/-- A stored slot whose entry has a property. -/
def Seen (slot : ℕ) (property : Entry → Prop) : Prop :=
  ∃ entry, Stored threads slot entry ∧ property entry

/-- A sweep started at a tail that was reached, and every slot it passed is stored. -/
def SweepPoint.Sound : SweepPoint → Prop
  | .loadTail => True
  | .loadState currentTail newTail =>
    currentTail ≤ tail ∧ currentTail ≤ newTail ∧ newTail < g.capacity ∧
      ∀ slot < newTail, ∃ entry, Stored threads slot entry
  | .compareExchange currentTail newTail =>
    currentTail ≤ tail ∧ currentTail < newTail ∧ newTail ≤ g.capacity ∧
      ∀ slot < newTail, ∃ entry, Stored threads slot entry

/-- A sweep returns a tail that was reached. -/
def SweepPoint.SoundTask : Task SweepPoint ℕ → Prop
  | .running point => point.Sound g tail threads
  | .returned committedTail => committedTail ≤ tail

/-- An append works on a slot below capacity. -/
def AppendPoint.Sound : AppendPoint → Prop
  | .reserve | .undo _ | .countFailed _ => True
  | .sweep slot point => slot < g.capacity ∧ point.Sound g tail threads
  | .storeWriting slot | .storeTerm slot | .storeIndex slot | .storeWriterId slot
  | .writeDataLen slot | .writePayload slot | .storeChecksum slot | .flushRecord slot
  | .storeCommitted slot | .flushState slot | .countAppends slot | .countBytes slot =>
    slot < g.capacity

/-- A reader inside a record has loaded fields of the one entry stored there. -/
def ReadPoint.Sound (index : ℕ) : ReadPoint → Prop
  | .loadTailOfZero => index = 0
  | .loadTail => 0 < index
  | .loadState slot => slot + 1 = index ∧ slot < tail
  | .loadTerm slot => slot + 1 = index ∧ Seen threads slot fun _ ↦ True
  | .loadIndex slot term => slot + 1 = index ∧ Seen threads slot fun entry ↦
      term = entry.term.toNat
  | .loadWriterId slot term storedIndex => slot + 1 = index ∧ Seen threads slot fun entry ↦
      term = entry.term.toNat ∧ storedIndex = slot + 1
  | .readDataLen slot term storedIndex writerId =>
    slot + 1 = index ∧ Seen threads slot fun entry ↦
      term = entry.term.toNat ∧ storedIndex = slot + 1 ∧ writerId = entry.hostId.toNat
  | .loadChecksum slot term storedIndex writerId dataLen =>
    slot + 1 = index ∧ Seen threads slot fun entry ↦
      term = entry.term.toNat ∧ storedIndex = slot + 1 ∧ writerId = entry.hostId.toNat ∧
        dataLen = entry.data.length
  | .readPayload slot term storedIndex writerId payloadLen storedChecksum =>
    slot + 1 = index ∧ Seen threads slot fun entry ↦
      term = entry.term.toNat ∧ storedIndex = slot + 1 ∧ writerId = entry.hostId.toNat ∧
        payloadLen = entry.data.length ∧
        storedChecksum = Checksum.compute hasher entry.term.toNat (slot + 1) entry.data
  | .countMismatch => False
  | .countRead record => ∃ slot, slot + 1 = index ∧ Seen threads slot fun entry ↦
      record = entry.record slot

/-- A read returns the record stored under its index, and never a checksum mismatch. -/
def ReadPoint.SoundTask (index : ℕ) : Task ReadPoint (Except FenceError (Option Record)) → Prop
  | .running point => point.Sound hasher tail threads index
  | .returned (.ok (some record)) => ∃ slot, slot + 1 = index ∧ Seen threads slot fun entry ↦
      record = entry.record slot
  | .returned (.error (.checksumMismatch _)) => False
  | .returned _ => True

/-- A trim works below its bound, which the committed tail has reached. -/
def TrimPoint.Sound (upTo : ℕ) : TrimPoint → Prop
  | .loadTail => True
  | .loadState slot _ | .flushAbandoned slot _ => slot < upTo ∧ upTo ≤ tail
  | .storeAbandoned slot _ => slot < upTo ∧ upTo ≤ tail ∧ Seen threads slot fun _ ↦ True

/-- A trim that succeeded had a bound the committed tail has reached. -/
def TrimPoint.SoundTask (upTo : ℕ) : Task TrimPoint (Except FenceError TrimResult) → Prop
  | .running point => point.Sound tail threads upTo
  | .returned (.ok _) => upTo ≤ tail
  | .returned (.error _) => True

/-- The scan is at a slot below capacity. -/
def Scan.Within (scan : Scan) : Prop :=
  scan.slot < scan.slotsToScan ∧ scan.slotsToScan ≤ g.capacity

/-- A recovery checks a record of the one entry stored there, and marks abandoned only slots
that were begun. -/
def RecoverPoint.Sound : RecoverPoint → Prop
  | .loadReserveTail => True
  | .loadState scan | .flushAbandoned scan => scan.Within g
  | .storeAbandoned scan => scan.Within g ∧ ∃ entry, Begun threads scan.slot entry
  | .loadTerm scan => scan.Within g ∧ Seen threads scan.slot fun _ ↦ True
  | .loadIndex scan term => scan.Within g ∧ Seen threads scan.slot fun entry ↦
      term = entry.term.toNat
  | .readDataLen scan term index => scan.Within g ∧ Seen threads scan.slot fun entry ↦
      term = entry.term.toNat ∧ index = scan.slot + 1
  | .loadChecksum scan term index dataLen => scan.Within g ∧ Seen threads scan.slot fun entry ↦
      term = entry.term.toNat ∧ index = scan.slot + 1 ∧ dataLen = entry.data.length
  | .readPayload scan term index payloadLen storedChecksum =>
    scan.Within g ∧ Seen threads scan.slot fun entry ↦
      term = entry.term.toNat ∧ index = scan.slot + 1 ∧ payloadLen = entry.data.length ∧
        storedChecksum = Checksum.compute hasher entry.term.toNat (scan.slot + 1) entry.data
  | .sweep _ point => point.Sound g tail threads

/-- What a recovery knows; a returned one knows nothing more. -/
def RecoverPoint.SoundTask : Task RecoverPoint RecoveryReport → Prop
  | .running point => point.Sound g hasher tail threads
  | .returned _ => True

/-- What a call knows. -/
def Call.Sound : Call → Prop
  | .append entry (.running point) =>
    entry.data.length ≤ g.payloadSize ∧ point.Sound g tail threads
  | .append entry (.returned (.ok index)) =>
    entry.data.length ≤ g.payloadSize ∧ 0 < index ∧ index ≤ g.capacity
  | .append _ (.returned (.error _)) => True
  | .read _ index task => ReadPoint.SoundTask hasher tail threads index.toNat task
  | .trim upTo task => TrimPoint.SoundTask tail threads upTo.toNat task
  | .recover _ (.running (.recovery point)) => point.Sound g hasher tail threads
  | .recover _ _ => True

/-! ### What a step does -/

/-- A call goes on without changing its slot or crossing a stage that the pool depends on. -/
structure Quiet (before after : Call) : Prop where
  reservation : after.reservation = before.reservation ∨
    ∃ slot entry stage later, before.reservation = some ⟨slot, entry, stage⟩ ∧
      after.reservation = some ⟨slot, entry, later⟩ ∧ 7 ≤ stage ∧ stage ≤ later ∧
      (later ≤ 8 ∨ 9 ≤ stage)
  pendingUndo : after.pendingUndo = before.pendingUndo

/-- What one step of a call can do to the pool. -/
inductive Effect (pool : Pool) : Call → Call → Pool → Prop
  /-- The pool stays as it is. -/
  | quiet {before after : Call} (hquiet : Quiet before after) : Effect pool before after pool
  /-- An append takes the next slot, which may lie past capacity. -/
  | reserve (entry : Entry) (hsize : entry.data.length ≤ g.payloadSize) :
    Effect pool (.append entry (.running .reserve))
      (.append entry (if g.capacity ≤ pool.reserveTail then .running (.undo pool.reserveTail)
        else .running (.storeWriting pool.reserveTail)))
      { pool with reserveTail := (pool.reserveTail + 1) % 2 ^ 64 }
  /-- An append gives back a slot past capacity. -/
  | undo (entry : Entry) (slot : ℕ) :
    Effect pool (.append entry (.running (.undo slot)))
      (.append entry (.running (.countFailed slot)))
      { pool with reserveTail := (pool.reserveTail + (2 ^ 64 - 1)) % 2 ^ 64 }
  /-- An append marks its slot as being written. -/
  | begin (entry : Entry) (slot : ℕ) (hslot : slot < g.capacity) :
    Effect pool (.append entry (.running (.storeWriting slot)))
      (.append entry (.running (.storeTerm slot)))
      (pool.storeSlot slot recState [stateWriting])
  /-- An append stores the next field of its record. -/
  | fill {before after : Call} {entry : Entry} {slot : ℕ} {field : RecordField} {later : ℕ}
    (hfield : field ∈ recordFields hasher entry slot)
    (hbefore : before.reservation = some ⟨slot, entry, field.stage⟩)
    (hafter : after.reservation = some ⟨slot, entry, later⟩)
    (hlater : later = field.stage + 1 ∨ field.stage = 4 ∧ later = 6 ∧ entry.data = [])
    (hbeforeUndo : before.pendingUndo = false) (hafterUndo : after.pendingUndo = false)
    (hslot : slot < g.capacity) :
    Effect pool before after (pool.storeSlot slot field.offset field.bytes)
  /-- An append marks its record committed. -/
  | commit (entry : Entry) (slot : ℕ) (hslot : slot < g.capacity) :
    Effect pool (.append entry (.running (.storeCommitted slot)))
      (.append entry (.running (.flushState slot)))
      (pool.storeSlot slot recState [stateCommitted])
  /-- A trim or a recovery marks a slot abandoned. -/
  | abandon {before after : Call} (hquiet : Quiet before after) {slot : ℕ}
    (habandoning : before.abandoning = some slot) (hslot : slot < g.capacity)
    (hbegun : ∃ entry, Begun threads slot entry) :
    Effect pool before after (pool.storeSlot slot recState [stateAbandoned])
  /-- A sweep moves the committed tail forward, or leaves it. -/
  | publish {before after : Call} (hquiet : Quiet before after) {newTail : ℕ}
    (hpoint : newTail = pool.committedTail ∨
      before.sweepPoint = some (.compareExchange pool.committedTail newTail))
    (hle : pool.committedTail ≤ newTail) (hcapacity : newTail ≤ g.capacity)
    (hstored : ∀ slot < newTail, ∃ entry, Stored threads slot entry) :
    Effect pool before after { pool with committedTail := newTail }

theorem Quiet.refl (call : Call) : Quiet call call := ⟨Or.inl rfl, rfl⟩

theorem Quiet.advances {before after : Call} (hquiet : Quiet before after) :
    Advances before after := by
  intro slot entry stage hbefore
  rcases hquiet.reservation with hsame | ⟨other, written, first, later, hother, hafter, -, hle, -⟩
  · exact ⟨stage, Nat.le_refl _, hsame.trans hbefore⟩
  · rw [hother, Option.some.injEq, Reservation.mk.injEq] at hbefore
    obtain ⟨rfl, rfl, rfl⟩ := hbefore
    exact ⟨later, hle, hafter⟩

variable {g hasher tail threads}

/-- No step gives up a reservation or falls back to an earlier stage. -/
theorem Effect.advances {pool after : Pool} {call next : Call}
    (heffect : Effect g hasher threads pool call next after) : Advances call next := by
  cases heffect with
  | quiet hquiet => exact hquiet.advances
  | reserve entry hsize =>
    intro slot written stage hreservation
    simp [Call.reservation, AppendPoint.progress] at hreservation
  | undo entry slot =>
    intro slot written stage hreservation
    simp [Call.reservation, AppendPoint.progress] at hreservation
  | begin entry slot hslot =>
    intro other written stage hreservation
    simp only [Call.reservation, AppendPoint.progress, Option.map_some, Option.some.injEq,
      Reservation.mk.injEq] at hreservation ⊢
    obtain ⟨rfl, rfl, rfl⟩ := hreservation
    exact ⟨1, by omega, rfl, rfl, rfl⟩
  | fill hfield hbefore hafter hlater hbeforeUndo hafterUndo hslot =>
    intro other written stage hreservation
    rw [hbefore, Option.some.injEq, Reservation.mk.injEq] at hreservation
    obtain ⟨rfl, rfl, rfl⟩ := hreservation
    exact ⟨_, by omega, hafter⟩
  | commit entry slot hslot =>
    intro other written stage hreservation
    simp only [Call.reservation, AppendPoint.progress, Option.map_some, Option.some.injEq,
      Reservation.mk.injEq] at hreservation ⊢
    obtain ⟨rfl, rfl, rfl⟩ := hreservation
    exact ⟨9, by omega, rfl, rfl, rfl⟩
  | abandon hquiet habandoning hslot hbegun => exact hquiet.advances
  | publish hquiet hpoint hle hcapacity hstored => exact hquiet.advances

/-- How the state byte of a slot can change in one step. -/
theorem Effect.state_cases {pool later : Pool} {before after : Call}
    (heffect : Effect g hasher threads pool before after later) (slot : ℕ) :
    later.state slot = pool.state slot ∨
      (later.state slot = stateWriting ∧
        ∃ entry, before = .append entry (.running (.storeWriting slot))) ∨
      (later.state slot = stateCommitted ∧
        ∃ entry, before = .append entry (.running (.storeCommitted slot)) ∧
          after = .append entry (.running (.flushState slot))) ∨
      (later.state slot = stateAbandoned ∧ before.abandoning = some slot ∧
        ∃ entry, Begun threads slot entry) := by
  have hsame : ∀ other : Pool, other.slot = pool.slot → other.state slot = pool.state slot :=
    fun other hslots ↦ Pool.state_congr hslots slot
  cases heffect with
  | quiet hquiet => exact Or.inl rfl
  | reserve entry hsize => exact Or.inl (hsame _ rfl)
  | undo entry held => exact Or.inl (hsame _ rfl)
  | publish hquiet hpoint hle hcapacity hstored => exact Or.inl (hsame _ rfl)
  | fill hfield hbefore hafter hlater hbeforeUndo hafterUndo hslot =>
    exact Or.inl (pool.state_storeSlot_of_lt (recordFields_stage hfield).2.2 _)
  | begin entry held hslot =>
    by_cases hheld : slot = held
    · subst hheld
      exact Or.inr (Or.inl ⟨pool.state_storeSlot_self slot _, entry, rfl⟩)
    · exact Or.inl (pool.state_storeSlot_ne hheld _ _)
  | commit entry held hslot =>
    by_cases hheld : slot = held
    · subst hheld
      exact Or.inr (Or.inr (Or.inl ⟨pool.state_storeSlot_self slot _, entry, rfl, rfl⟩))
    · exact Or.inl (pool.state_storeSlot_ne hheld _ _)
  | @abandon _ _ hquiet held habandoning hslot hbegun =>
    by_cases hheld : slot = held
    · subst hheld
      exact Or.inr (Or.inr (Or.inr ⟨pool.state_storeSlot_self slot _, habandoning, hbegun⟩))
    · exact Or.inl (pool.state_storeSlot_ne hheld _ _)

/-- The tail moves only by the compare-exchange of a sweep. -/
theorem Effect.tail_eq_or {pool later : Pool} {before after : Call}
    (heffect : Effect g hasher threads pool before after later) :
    later.committedTail = pool.committedTail ∨
      before.sweepPoint = some (.compareExchange pool.committedTail later.committedTail) := by
  cases heffect with
  | publish hquiet hpoint hle hcapacity hstored => exact hpoint
  | _ => exact Or.inl rfl

/-! ### Knowledge does not go stale -/

section Mono

variable {later : ℕ} {threads' : List Call}

/-- More is reached in the second list of calls than in the first. -/
def Extends (threads threads' : List Call) : Prop :=
  ∀ slot entry stage, Reached threads slot entry stage → Reached threads' slot entry stage

theorem Extends.seen (hextends : Extends threads threads') {slot : ℕ} {property : Entry → Prop}
    (hseen : Seen threads slot property) : Seen threads' slot property := by
  obtain ⟨entry, hstored, hproperty⟩ := hseen
  exact ⟨entry, hextends _ _ _ hstored, hproperty⟩

theorem Extends.exists_reached (hextends : Extends threads threads') {slot stage : ℕ}
    (hreached : ∃ entry, Reached threads slot entry stage) :
    ∃ entry, Reached threads' slot entry stage :=
  hreached.imp fun entry ↦ hextends slot entry stage

theorem SweepPoint.Sound.mono (hextends : Extends threads threads') (hle : tail ≤ later)
    {point : SweepPoint} (hsound : point.Sound g tail threads) :
    point.Sound g later threads' := by
  cases point with
  | loadTail => trivial
  | loadState currentTail newTail =>
    obtain ⟨hcurrent, hnew, hcapacity, hstored⟩ := hsound
    exact ⟨Nat.le_trans hcurrent hle, hnew, hcapacity, fun slot hslot ↦
      hextends.exists_reached (hstored slot hslot)⟩
  | compareExchange currentTail newTail =>
    obtain ⟨hcurrent, hnew, hcapacity, hstored⟩ := hsound
    exact ⟨Nat.le_trans hcurrent hle, hnew, hcapacity, fun slot hslot ↦
      hextends.exists_reached (hstored slot hslot)⟩

theorem AppendPoint.Sound.mono (hextends : Extends threads threads') (hle : tail ≤ later)
    {point : AppendPoint} (hsound : point.Sound g tail threads) :
    point.Sound g later threads' := by
  cases point with
  | sweep slot point => exact ⟨hsound.1, hsound.2.mono hextends hle⟩
  | _ => exact hsound

theorem ReadPoint.Sound.mono (hextends : Extends threads threads') (hle : tail ≤ later)
    {index : ℕ} {point : ReadPoint} (hsound : point.Sound hasher tail threads index) :
    point.Sound hasher later threads' index := by
  cases point with
  | loadTailOfZero => exact hsound
  | loadTail => exact hsound
  | loadState slot => exact ⟨hsound.1, Nat.lt_of_lt_of_le hsound.2 hle⟩
  | countMismatch => exact hsound
  | countRead record =>
    obtain ⟨slot, hslot, hseen⟩ := hsound
    exact ⟨slot, hslot, hextends.seen hseen⟩
  | _ => exact ⟨hsound.1, hextends.seen hsound.2⟩

theorem ReadPoint.SoundTask.mono (hextends : Extends threads threads') (hle : tail ≤ later)
    {index : ℕ} {task : Task ReadPoint (Except FenceError (Option Record))}
    (hsound : ReadPoint.SoundTask hasher tail threads index task) :
    ReadPoint.SoundTask hasher later threads' index task := by
  match task with
  | .running point => exact ReadPoint.Sound.mono hextends hle hsound
  | .returned (.ok (some record)) =>
    obtain ⟨slot, hslot, hseen⟩ := hsound
    exact ⟨slot, hslot, hextends.seen hseen⟩
  | .returned (.error (.checksumMismatch _)) => exact hsound
  | .returned (.ok none) => trivial
  | .returned (.error (.poolFull _ _)) => trivial
  | .returned (.error (.payloadTooLarge _ _)) => trivial
  | .returned (.error (.indexOutOfBounds _ _)) => trivial
  | .returned (.error (.trimBeyondCommitted _ _)) => trivial
  | .returned (.error (.mmapFailed _)) => trivial
  | .returned (.error (.invalidMagic _ _)) => trivial

theorem TrimPoint.SoundTask.mono (hextends : Extends threads threads') (hle : tail ≤ later)
    {upTo : ℕ} {task : Task TrimPoint (Except FenceError TrimResult)}
    (hsound : TrimPoint.SoundTask tail threads upTo task) :
    TrimPoint.SoundTask later threads' upTo task := by
  match task with
  | .running .loadTail => trivial
  | .running (.loadState _ _) => exact ⟨hsound.1, Nat.le_trans hsound.2 hle⟩
  | .running (.flushAbandoned _ _) => exact ⟨hsound.1, Nat.le_trans hsound.2 hle⟩
  | .running (.storeAbandoned _ _) =>
    exact ⟨hsound.1, Nat.le_trans hsound.2.1 hle, hextends.seen hsound.2.2⟩
  | .returned (.ok _) => exact Nat.le_trans hsound hle
  | .returned (.error _) => trivial

theorem RecoverPoint.Sound.mono (hextends : Extends threads threads') (hle : tail ≤ later)
    {point : RecoverPoint} (hsound : point.Sound g hasher tail threads) :
    point.Sound g hasher later threads' := by
  cases point with
  | loadReserveTail => trivial
  | loadState scan => exact hsound
  | flushAbandoned scan => exact hsound
  | storeAbandoned scan => exact ⟨hsound.1, hextends.exists_reached hsound.2⟩
  | sweep scan point => exact SweepPoint.Sound.mono hextends hle hsound
  | _ => exact ⟨hsound.1, hextends.seen hsound.2⟩

/-- What a call knows stays true while others run. -/
theorem Call.Sound.mono (hextends : Extends threads threads') (hle : tail ≤ later) {call : Call}
    (hsound : call.Sound g hasher tail threads) : call.Sound g hasher later threads' := by
  match call with
  | .append entry (.running point) => exact ⟨hsound.1, hsound.2.mono hextends hle⟩
  | .append entry (.returned (.ok index)) => exact hsound
  | .append _ (.returned (.error _)) => trivial
  | .read _ index task => exact ReadPoint.SoundTask.mono hextends hle hsound
  | .trim upTo task => exact TrimPoint.SoundTask.mono hextends hle hsound
  | .recover _ (.running (.recovery point)) => exact RecoverPoint.Sound.mono hextends hle hsound
  | .recover _ (.running (.countRuns _)) => trivial
  | .recover _ (.running (.countAbandoned _)) => trivial
  | .recover _ (.returned _) => trivial

end Mono

end Fence
