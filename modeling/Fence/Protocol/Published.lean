import Fence.Abstract.PublishedLog
import Fence.Protocol.Invariant

/-!
# The log a pool shows its readers

`Pool.publishedLog` decodes the slots below the committed tail: the entry of each from its record,
and whether it is marked from its state byte. It is a function of the memory alone. Under the
invariant it lists the entries of the appends that hold these slots (`Contents.item_eq`), and every
action changes it as `Log.Change` says (`Invariant.publishedLog_change`), recoveries that race with
appends included: a commit never hits a slot below the tail, since the append that holds such a slot
has committed it already.
-/

set_option autoImplicit false
set_option relaxedAutoImplicit false

namespace Fence

open ByteMemory Interleaving

/-- The entry a record holds. -/
def storedEntry (record : Memory) : Entry where
  hostId := UInt16.ofNat (loadWord record recWriterId 8)
  term := UInt64.ofNat (loadWord record recTerm 8)
  data := load record recordMetaSize (leValue (load record recDataLen 4))

/-- What readers see of a slot. -/
def Pool.item (pool : Pool) (slot : ℕ) : LogEntry where
  entry := storedEntry (pool.slot slot)
  trimmed := pool.state slot ≠ stateCommitted

/-- What readers see of a pool. -/
def Pool.publishedLog (pool : Pool) : Log := (List.range pool.committedTail).map pool.item

/-- The log the memory of a pool shows its readers. -/
def publishedLog (g : PoolGeometry) (memory : Memory) : Log :=
  (Pool.ofMemory g memory).publishedLog

variable {g : PoolGeometry} {hasher : Hasher}

/-! ### The log of a pool -/

section Pool

variable (pool : Pool)

@[simp] theorem Pool.length_publishedLog : pool.publishedLog.length = pool.committedTail := by
  rw [publishedLog, List.length_map, List.length_range]

theorem Pool.getElem?_publishedLog {slot : ℕ} (hslot : slot < pool.committedTail) :
    pool.publishedLog[slot]? = some (pool.item slot) := by
  rw [publishedLog, List.getElem?_map, List.getElem?_range hslot, Option.map_some]

/-- The log depends on the slots below the tail only. -/
theorem Pool.publishedLog_congr {pool later : Pool}
    (htail : later.committedTail = pool.committedTail)
    (hslots : ∀ slot < pool.committedTail, later.slot slot = pool.slot slot) :
    later.publishedLog = pool.publishedLog := by
  rw [publishedLog, publishedLog, htail]
  refine List.map_congr_left fun slot hslot ↦ ?_
  rw [item, item, state, state, hslots slot (List.mem_range.mp hslot)]

/-- A higher tail publishes more entries. -/
theorem Pool.publishedLog_publish {newTail : ℕ} (hle : pool.committedTail ≤ newTail) :
    ({ pool with committedTail := newTail } : Pool).publishedLog =
      pool.publishedLog ++
        (List.range' pool.committedTail (newTail - pool.committedTail)).map pool.item := by
  have hsplit : newTail = pool.committedTail + (newTail - pool.committedTail) := by omega
  conv_lhs => rw [publishedLog, hsplit, List.range_eq_range', ← List.range'_append_1,
    List.map_append, ← List.range_eq_range', Nat.zero_add]
  rfl

/-- Marking a slot abandoned marks its entry, if it is published. -/
theorem Pool.publishedLog_abandon (slot : ℕ) :
    (pool.storeSlot slot recState [stateAbandoned]).publishedLog =
      pool.publishedLog.markAt slot := by
  refine List.ext_getElem? fun other ↦ ?_
  rw [Log.markAt, List.getElem?_modify]
  by_cases hother : other < pool.committedTail
  · rw [getElem?_publishedLog _ hother,
      getElem?_publishedLog (pool.storeSlot slot recState [stateAbandoned]) hother,
      Option.map_eq_map, Option.map_some]
    split_ifs with hsame
    · subst hsame
      rw [item, item, state_storeSlot_self, storeSlot_slot_self, storedEntry, storedEntry]
      simp only [loadWord]
      rw [load_store_outside (Or.inr (by decide)), load_store_outside (Or.inr (by decide)),
        load_store_outside (Or.inr (by decide)), load_store_outside (Or.inr (by decide))]
      rfl
    · rw [item, item, state_storeSlot_ne pool (Ne.symm hsame),
        storeSlot_slot_ne pool (Ne.symm hsame)]
  · have hpast : pool.committedTail ≤ other := Nat.le_of_not_lt hother
    rw [List.getElem?_eq_none (by rw [length_publishedLog]; exact hpast),
      List.getElem?_eq_none (by rw [length_publishedLog]; exact hpast)]
    rfl

end Pool

/-! ### The entries of appends -/

/-- Only an append holds a slot, for its entry. -/
theorem Call.request_of_reservation {call : Call} {slot : ℕ} {entry : Entry} {stage : ℕ}
    (hreservation : call.reservation = some ⟨slot, entry, stage⟩) :
    call.request = .append entry := by
  match call with
  | .append written (.running point) =>
    obtain ⟨progress, -, hsame⟩ := Option.map_eq_some_iff.mp hreservation
    rw [Call.request, (Reservation.mk.inj hsame).2.1]
  | .append written (.returned (.ok index)) =>
    rw [Call.request, (Reservation.mk.inj (Option.some.inj hreservation)).2.1]

/-- A complete record decodes to its entry. -/
theorem Complete.storedEntry_eq {entry : Entry} {slot : ℕ} {record : Memory}
    (hcomplete : Complete hasher entry slot record) : storedEntry record = entry := by
  rw [storedEntry, hcomplete.writerId, hcomplete.term, hcomplete.dataLen, hcomplete.payload,
    UInt16.ofNat_toNat, UInt64.ofNat_toNat]

/-- A stored slot shows the entry of the append that holds it. -/
theorem Rely.item_eq {threads : List Call} {pool : Pool} (hrely : Rely g hasher threads pool)
    {slot : ℕ} {entry : Entry} (hstored : Stored threads slot entry) :
    pool.item slot = ⟨entry, pool.state slot ≠ stateCommitted⟩ := by
  obtain ⟨-, -, hcomplete⟩ := hrely.complete_of_stored slot entry hstored
  rw [Pool.item, hcomplete.storedEntry_eq]

/-- Every published entry is that of an append that stored it. -/
theorem Rely.entry_of_published {threads : List Call} {memory : Memory}
    (hrely : Rely g hasher threads (Pool.ofMemory g memory)) {slot : ℕ} {item : LogEntry}
    (hitem : (publishedLog g memory)[slot]? = some item) : Stored threads slot item.entry := by
  obtain ⟨hslot, -⟩ := List.getElem?_eq_some_iff.mp hitem
  have htail : slot < (Pool.ofMemory g memory).committedTail := by
    rwa [publishedLog, Pool.length_publishedLog] at hslot
  obtain ⟨entry, hstored⟩ := hrely.stored_of_lt_tail slot htail
  rw [publishedLog, Pool.getElem?_publishedLog _ htail, Option.some.injEq,
    hrely.item_eq hstored] at hitem
  rwa [← hitem]

section Contents

variable {threads : List Call} {pool : Pool} (hcontents : Contents g hasher threads pool)
  (hreserved : Reserved g.capacity 0 threads pool.reserveTail)

include hcontents hreserved

/-- A slot whose append has not committed it lies past the tail. -/
theorem Contents.tail_le_of_reservation {call : Call} (hmem : call ∈ threads) {slot : ℕ}
    {entry : Entry} {stage : ℕ} (hreservation : call.reservation = some ⟨slot, entry, stage⟩)
    (hstage : stage < 9) : pool.committedTail ≤ slot := by
  by_contra hbelow
  obtain ⟨other, hstored⟩ := hcontents.published slot (Nat.lt_of_not_le hbelow)
  obtain ⟨index, hindex⟩ := List.mem_iff_getElem?.mp hmem
  have hreached := (hreserved.reached_eq hindex hreservation hstored).2
  omega

/-- A step changes the published log as a change of the log. -/
theorem Contents.publishedLog_change {index : ℕ} {before after : Call} {later : Pool}
    (hbefore : threads[index]? = some before)
    (heffect : Effect g hasher threads pool before after later) :
    pool.publishedLog.Change later.publishedLog := by
  have hmem := List.mem_of_getElem? hbefore
  -- a store into the slot of an append that has not committed it is not seen
  have hhidden : ∀ slot entry stage offset bytes,
      before.reservation = some ⟨slot, entry, stage⟩ → stage < 9 →
        pool.publishedLog.Change (pool.storeSlot slot offset bytes).publishedLog := by
    intro slot entry stage offset bytes hreservation hstage
    have htail := hcontents.tail_le_of_reservation hreserved hmem hreservation hstage
    rw [Pool.publishedLog_congr (pool.storeSlot_committedTail slot offset bytes) fun other hother ↦
      pool.storeSlot_slot_ne (by omega) offset bytes]
    exact .stay
  have hmetadata : ∀ reserveTail, pool.publishedLog.Change
      ({ pool with reserveTail := reserveTail } : Pool).publishedLog := fun _ ↦ .stay
  cases heffect with
  | quiet hquiet => exact .stay
  | reserve entry hsize => exact hmetadata _
  | undo entry slot => exact hmetadata _
  | begin entry slot hslot => exact hhidden slot entry 0 _ _ rfl (by decide)
  | fill hfield hreservation hafter hlater hbeforeUndo hafterUndo hslot =>
    have hstage := (recordFields_stage hfield).2.1
    exact hhidden _ _ _ _ _ hreservation (by omega)
  | commit entry slot hslot => exact hhidden slot entry 8 _ _ rfl (by decide)
  | abandon hquiet habandoning hslot hbegun =>
    rw [Pool.publishedLog_abandon]
    exact .mark _
  | publish hquiet hpoint hle hcapacity hstored =>
    rw [Pool.publishedLog_publish _ hle]
    exact .publish _

end Contents

/-! ### Runs -/

section Run

variable {config : Config Call Memory} {action : Action Request Empty}

/-- Every action changes the published log as a change of the log. -/
theorem Invariant.publishedLog_change (hinvariant : Invariant g hasher config)
    (action : Action Request Empty) :
    (publishedLog g config.shared).Change
      (publishedLog g ((runtimeMachine g hasher).apply config action).shared) := by
  cases action with
  | start request => exact .stay
  | env event => exact event.elim
  | step index =>
    cases hcall : config.threads[index]? with
    | none =>
      rw [apply_step_of_none _ hcall]
      exact .stay
    | some call =>
      rw [apply_step_of_getElem? _ hcall]
      exact hinvariant.contents.publishedLog_change hinvariant.reserved hcall
        (hinvariant.stepSpec hcall).1

/-- The published log only grows in a run. -/
theorem Invariant.publishedLog_grows (hinvariant : Invariant g hasher config)
    {schedule : List (Action Request Empty)}
    (hbounded : (runtimeMachine g hasher).Along (UndosBounded g hasher) schedule config) :
    (publishedLog g config.shared).Grows
      (publishedLog g ((runtimeMachine g hasher).run schedule config).shared) := by
  refine (invariant_run (fun reached ↦ Invariant g hasher reached ∧
    (publishedLog g config.shared).Grows (publishedLog g reached.shared)) ?_ hbounded
      ⟨hinvariant, .refl _⟩).2
  rintro reached action ⟨hreached, hgrows⟩ haction
  exact ⟨hreached.apply haction, hgrows.trans (hreached.publishedLog_change action).grows⟩

/-- A pool just created shows nothing. -/
theorem publishedLog_freshMemory : publishedLog g (freshMemory g) = [] := by
  rw [publishedLog, ofMemory_freshMemory]
  rfl

end Run

end Fence
