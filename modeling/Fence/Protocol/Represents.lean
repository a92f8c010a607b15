import Fence.Abstract.Log
import Fence.Protocol.AppendAlone
import Fence.Protocol.ReadAlone
import Fence.Protocol.RecoverAlone
import Fence.Protocol.TrimAlone

/-!
# Pools that represent a log

`Represents` relates the abstract log to the pool a memory holds: both tails are its length, every
entry has its complete record in its slot, and no slot past it is committed. Every request alone
takes a pool that represents a log to one that represents what the log has become, with the answer
of the log (`Represents.serve`). It moves the counters on by what the answer says.
-/

set_option autoImplicit false
set_option relaxedAutoImplicit false

namespace Fence

open ByteMemory FirstGap Interleaving

variable {g : PoolGeometry} {hasher : Hasher}

/-! ### The relation -/

/-- The slot holds the record of an entry, which fits the pool. -/
structure Held (g : PoolGeometry) (hasher : Hasher) (slot : ℕ) (item : LogEntry) (pool : Pool) :
    Prop where
  size : item.entry.data.length ≤ g.payloadSize
  written : Written hasher item.entry slot 7 (pool.slot slot)
  state : pool.state slot = if item.trimmed then stateAbandoned else stateCommitted

/-- The pool holds the log. -/
structure Represents (g : PoolGeometry) (hasher : Hasher) (log : Log) (pool : Pool) : Prop where
  committedTail_eq : pool.committedTail = log.length
  reserveTail_eq : pool.reserveTail = log.length
  length_le : log.length ≤ g.capacity
  held : ∀ slot item, log[slot]? = some item → Held g hasher slot item pool
  free : ∀ slot, log.length ≤ slot → slot < g.capacity → pool.state slot ≠ stateCommitted

/-- The increments an answer comes with. -/
def Request.increments : Request → Answer → List Increment
  | .append entry, .append (.ok _) =>
    [⟨entry.hostId, metricsAppendsTotal, 1⟩,
      ⟨entry.hostId, metricsBytesWritten, entry.data.length⟩]
  | .append entry, .append (.error (.poolFull _ _)) => [⟨entry.hostId, metricsAppendsFailed, 1⟩]
  | .read hostId _, .read (.ok (some _)) => [⟨hostId, metricsReadsTotal, 1⟩]
  | .read hostId _, .read (.error (.checksumMismatch _)) =>
    [⟨hostId, metricsChecksumFailures, 1⟩]
  | .recover hostId, .recover report => report.increments hostId
  | _, _ => []

/-- A read leaves the pool alone, and counts what it returned. -/
theorem countOutcome_spec (g : PoolGeometry) (memory : Memory) (hostId : UInt16) (index : UInt64)
    (outcome : Except FenceError (Option Record)) :
    Pool.ofMemory g (countOutcome g memory hostId outcome) = Pool.ofMemory g memory ∧
      Counted g (Request.increments (.read hostId index) (.read outcome)) memory
        (countOutcome g memory hostId outcome) := by
  have hreads : metricsReadsTotal ∈ metricsFields := by decide
  have hfailures : metricsChecksumFailures ∈ metricsFields := by decide
  rcases outcome with error | _ | record
  · cases error with
    | checksumMismatch index => exact ⟨ofMemory_exec_incrementCounter, .increment 1 hfailures⟩
    | _ => exact ⟨rfl, .refl memory⟩
  · exact ⟨rfl, .refl memory⟩
  · exact ⟨ofMemory_exec_incrementCounter, .increment 1 hreads⟩

/-- A pool without a committed slot and with both tails at zero holds the empty log. -/
theorem Represents.nil {pool : Pool} (hcommitted : pool.committedTail = 0)
    (hreserve : pool.reserveTail = 0)
    (hfree : ∀ slot < g.capacity, pool.state slot ≠ stateCommitted) :
    Represents g hasher [] pool where
  committedTail_eq := hcommitted
  reserveTail_eq := hreserve
  length_le := Nat.zero_le _
  held := by
    intro slot item hitem
    cases hitem
  free := fun slot _ hslot ↦ hfree slot hslot

section Represents

variable {log : Log} {memory : Memory}
  (hrepresents : Represents g hasher log (Pool.ofMemory g memory))

include hrepresents

theorem Represents.lt_capacity {slot : ℕ} {item : LogEntry} (hitem : log[slot]? = some item) :
    slot < g.capacity :=
  Nat.lt_of_lt_of_le (List.getElem?_eq_some_iff.mp hitem).choose hrepresents.length_le

/-- The record of an entry is complete. -/
theorem Represents.complete {slot : ℕ} {item : LogEntry} (hitem : log[slot]? = some item) :
    Complete hasher item.entry slot ((Pool.ofMemory g memory).slot slot) :=
  (hrepresents.held slot item hitem).written.complete (Nat.le_refl _)
    (hrepresents.lt_capacity hitem) (hrepresents.held slot item hitem).size

/-- The committed slots are those of the entries that were not trimmed. -/
theorem Represents.committed_iff {slot : ℕ} (hslot : slot < g.capacity) :
    (Pool.ofMemory g memory).state slot = stateCommitted ↔
      ∃ item, log[slot]? = some item ∧ item.trimmed = false := by
  cases hitem : log[slot]? with
  | none =>
    have hpast : log.length ≤ slot := List.getElem?_eq_none_iff.mp hitem
    simp [hrepresents.free slot hpast hslot]
  | some item =>
    rw [(hrepresents.held slot item hitem).state]
    cases htrimmed : item.trimmed with
    | false => simp [htrimmed]
    | true => simp [htrimmed, show stateAbandoned ≠ stateCommitted by decide]

/-! ### Append -/

/-- A new entry extends the log. -/
theorem Represents.push {entry : Entry} {later : Memory}
    (hroom : log.length < g.capacity) (hsize : entry.data.length ≤ g.payloadSize)
    (happended : Appended g hasher entry memory log.length later) :
    Represents g hasher (log ++ [⟨entry, false⟩]) (Pool.ofMemory g later) where
  committedTail_eq := by
    rw [happended.committedTail_eq, List.length_append, List.length_singleton,
      appendedTail_eq fun hnext ↦ hrepresents.free _ (Nat.le_succ _) hnext]
  reserveTail_eq := by rw [happended.reserveTail_eq, List.length_append, List.length_singleton]
  length_le := by
    rw [List.length_append]
    exact hroom
  held := by
    intro slot item hitem
    rcases Nat.lt_trichotomy slot log.length with hold | rfl | hpast
    · rw [List.getElem?_append_left hold] at hitem
      have hheld := hrepresents.held slot item hitem
      have hsame := happended.others slot (Nat.ne_of_lt hold)
      exact ⟨hheld.size, hsame ▸ hheld.written, by rw [Pool.state, hsame]; exact hheld.state⟩
    · rw [List.getElem?_concat_length, Option.some.injEq] at hitem
      subst hitem
      exact ⟨hsize, happended.written, happended.state⟩
    · have hbeyond : (log ++ [(⟨entry, false⟩ : LogEntry)]).length ≤ slot := by
        rw [List.length_append]
        exact hpast
      rw [List.getElem?_eq_none hbeyond] at hitem
      cases hitem
  free := by
    intro slot hlow hslot
    rw [List.length_append, List.length_singleton] at hlow
    rw [Pool.state, happended.others slot (by omega)]
    exact hrepresents.free slot (by omega) hslot

theorem Represents.serve_append (entry : Entry) :
    ∃ call later, (runtimeMachine g hasher).Ends (Request.call g (.append entry)) memory call
        later ∧ call.answer = some (Log.serve g (.append entry) log).1 ∧
      Represents g hasher (Log.serve g (.append entry) log).2 (Pool.ofMemory g later) ∧
      Counted g (Request.increments (.append entry) (Log.serve g (.append entry) log).1) memory
        later := by
  have hlength := hrepresents.length_le
  have hreserve := hrepresents.reserveTail_eq
  rw [Log.serve]
  by_cases hlarge : g.payloadSize < entry.data.length
  · rw [if_pos hlarge]
    refine ⟨_, memory, .refl _ _, ?_, hrepresents, .refl memory⟩
    rw [Request.call, startAppend, if_pos hlarge, Call.answer]
  · rw [if_neg hlarge]
    have hsize : entry.data.length ≤ g.payloadSize := Nat.le_of_not_lt hlarge
    by_cases hfull : log.length = g.capacity
    · rw [if_pos hfull]
      obtain ⟨later, hends, hpool, hcounted⟩ := @append_full_ends g hasher entry memory hsize
        (by omega)
      rw [hreserve] at hends
      exact ⟨_, later, hends, rfl, hpool ▸ hrepresents, hcounted⟩
    · rw [if_neg hfull]
      have hroom : log.length < g.capacity := by omega
      obtain ⟨later, hends, happended⟩ := @append_ends g hasher entry memory log.length hroom hsize
        hreserve hrepresents.committedTail_eq
      exact ⟨_, later, hends, rfl, hrepresents.push hroom hsize happended, happended.counted⟩

/-! ### Read -/

/-- A read alone returns what the log has. -/
theorem Represents.readOutcome_eq (index : ℕ) :
    readOutcome g hasher memory index = log.read index := by
  have htail : loadWord memory hdrCommittedTail 8 = log.length := hrepresents.committedTail_eq
  rw [readOutcome, Log.read, htail]
  split_ifs with hbounds
  · rfl
  · obtain ⟨hpos, hle⟩ := not_or.mp hbounds
    have hinside : index - 1 < log.length := by omega
    have hitem := List.getElem?_eq_getElem hinside
    have hslot := hrepresents.lt_capacity hitem
    have hplace : asU32 (index - 1) = index - 1 := asU32_of_lt hslot (Nat.le_of_lt g.capacity_lt)
    have hheld := hrepresents.held _ _ hitem
    have hcomplete := hrepresents.complete hitem
    have hstate : stateByte g memory (index - 1) = _ :=
      (Pool.ofMemory_state hslot).symm.trans hheld.state
    rw [hplace, slotOutcome, hstate, hitem, Option.bind_some]
    cases htrimmed : log[index - 1].trimmed with
    | true => rfl
    | false =>
      have hindex : index - 1 + 1 = index := by omega
      have hrecord := hcomplete.decodedRecord_eq hslot hheld.size
      rw [Entry.record, hindex] at hrecord
      simp only [Bool.false_eq_true, if_false, if_true, hrecord,
        hcomplete.checksumOk hslot hheld.size]

theorem Represents.serve_read (hostId : UInt16) (index : UInt64) :
    ∃ call later, (runtimeMachine g hasher).Ends (Request.call g (.read hostId index)) memory call
        later ∧ call.answer = some (Log.serve g (.read hostId index) log).1 ∧
      Represents g hasher (Log.serve g (.read hostId index) log).2 (Pool.ofMemory g later) ∧
      Counted g (Request.increments (.read hostId index)
        (Log.serve g (.read hostId index) log).1) memory later := by
  obtain ⟨hpool, hcounted⟩ := countOutcome_spec g memory hostId index (log.read index.toNat)
  have hends := read_ends g hasher memory hostId index
  rw [hrepresents.readOutcome_eq] at hends
  exact ⟨_, _, hends, rfl, hpool ▸ hrepresents, hcounted⟩

/-! ### Trim -/

/-- The live entries below a bound are the committed slots there. -/
theorem Represents.count_committed (bound : ℕ) (hbound : bound ≤ log.length) :
    Nat.count (fun slot ↦ (Pool.ofMemory g memory).state slot = stateCommitted) bound =
      log.countLive bound := by
  induction bound with
  | zero => rfl
  | succ bound ih =>
    have hitem := List.getElem?_eq_getElem (l := log) hbound
    have hslot := hrepresents.lt_capacity hitem
    have hlive : (Pool.ofMemory g memory).state bound = stateCommitted ↔
        (!log[bound].trimmed) = true := by
      rw [hrepresents.committed_iff hslot, hitem]
      simp
    rw [Nat.count_succ, ih (Nat.le_of_succ_le hbound), Log.countLive, Log.countLive,
      List.take_add_one, hitem, Option.toList_some, List.countP_append, List.countP_singleton]
    simp only [hlive]

/-- A trim marks the entries below its bound. -/
theorem Represents.mark {bound : ℕ} {later : Memory} (hbound : bound ≤ log.length)
    (htrimmed : Trimmed g hasher memory bound later) :
    Represents g hasher (log.markTrimmed bound) (Pool.ofMemory g later) where
  committedTail_eq := by
    rw [htrimmed.committedTail_eq, Log.length_markTrimmed]
    exact hrepresents.committedTail_eq
  reserveTail_eq := by
    rw [htrimmed.reserveTail_eq, Log.length_markTrimmed]
    exact hrepresents.reserveTail_eq
  length_le := by
    rw [Log.length_markTrimmed]
    exact hrepresents.length_le
  held := by
    intro slot item hitem
    rw [Log.getElem?_markTrimmed, Option.map_eq_some_iff] at hitem
    obtain ⟨old, hold, rfl⟩ := hitem
    have hheld := hrepresents.held slot old hold
    have hwritten := htrimmed.written slot old.entry 7 hheld.written
    have hstate := htrimmed.state slot (hrepresents.lt_capacity hold)
    rw [hheld.state] at hstate
    by_cases hbelow : slot < bound
    · rw [if_pos hbelow]
      refine ⟨hheld.size, hwritten, hstate.trans ?_⟩
      cases old.trimmed <;> simp [hbelow]
    · rw [if_neg hbelow]
      refine ⟨hheld.size, hwritten, hstate.trans ?_⟩
      rw [if_neg fun hmarked ↦ hbelow hmarked.1]
  free := by
    intro slot hlow hslot
    rw [Log.length_markTrimmed] at hlow
    rw [htrimmed.state slot hslot, if_neg fun hmarked ↦
      Nat.not_lt.mpr (hbound.trans hlow) hmarked.1]
    exact hrepresents.free slot hlow hslot

theorem Represents.serve_trim (upTo : UInt64) :
    ∃ call later, (runtimeMachine g hasher).Ends (Request.call g (.trim upTo)) memory call later ∧
      call.answer = some (Log.serve g (.trim upTo) log).1 ∧
      Represents g hasher (Log.serve g (.trim upTo) log).2 (Pool.ofMemory g later) ∧
      Counted g (Request.increments (.trim upTo) (Log.serve g (.trim upTo) log).1) memory
        later := by
  have htail := hrepresents.committedTail_eq
  rw [Log.serve]
  by_cases hbeyond : log.length < upTo.toNat
  · have hends := @trim_beyond_ends g hasher upTo memory (htail ▸ hbeyond)
    rw [htail] at hends
    rw [if_pos hbeyond]
    exact ⟨_, memory, hends, rfl, hrepresents, .refl memory⟩
  · have hbound : upTo.toNat ≤ log.length := Nat.le_of_not_lt hbeyond
    obtain ⟨later, hends, htrimmed⟩ := @trim_ends g hasher upTo memory (htail ▸ hbound)
      (htail ▸ hrepresents.length_le)
    rw [hrepresents.count_committed _ hbound] at hends
    rw [if_neg hbeyond]
    exact ⟨_, later, hends, rfl, hrepresents.mark hbound htrimmed, htrimmed.counted⟩

/-! ### Recover -/

/-- Nothing is torn. -/
theorem Represents.not_torn (slot : ℕ) : ¬ Torn g hasher memory slot := by
  rintro ⟨hclaimed, -, hnotAbandoned, hchecksum⟩
  have hreserve : loadWord memory hdrReserveTail 8 = log.length := hrepresents.reserveTail_eq
  have hinside : slot < log.length := by
    rw [← hreserve]
    exact Nat.lt_of_lt_of_le hclaimed (Nat.min_le_left _ _)
  have hitem := List.getElem?_eq_getElem hinside
  have hslot := hrepresents.lt_capacity hitem
  have hheld := hrepresents.held _ _ hitem
  have hstate : stateByte g memory slot = _ := (Pool.ofMemory_state hslot).symm.trans hheld.state
  cases htrimmed : log[slot].trimmed with
  | true =>
    rw [htrimmed, if_pos rfl] at hstate
    exact hnotAbandoned hstate
  | false =>
    rw [htrimmed, if_neg Bool.false_ne_true] at hstate
    have hok := (hrepresents.complete hitem).checksumOk hslot hheld.size
    rw [hchecksum hstate] at hok
    cases hok

/-- The committed tail stays. -/
theorem Represents.finalTail_eq : finalTail g hasher memory = log.length := by
  have htail : loadWord memory hdrCommittedTail 8 = log.length := hrepresents.committedTail_eq
  rw [finalTail, htail]
  refine (eq_firstGap (Nat.le_refl _) (hrepresents.length_le.trans (Nat.le_max_right _ _))
    (fun between hlow hhigh ↦ absurd hhigh (Nat.not_lt.mpr hlow)) fun hroom hkept ↦ ?_).symm
  refine hrepresents.free log.length (Nat.le_refl _) hroom ?_
  rw [Pool.ofMemory_state hroom]
  exact hkept.1

/-- A recovery has nothing to report but the length of the log. -/
theorem Represents.recoveryReport_eq :
    recoveryReport g hasher memory = ⟨0, log.length, log.length⟩ := by
  have hreserve : loadWord memory hdrReserveTail 8 = log.length := hrepresents.reserveTail_eq
  have hclaimed : claimedSlots g memory = log.length := by
    rw [claimedSlots, hreserve, Nat.min_eq_left hrepresents.length_le]
  have hcount : Nat.count (Torn g hasher memory) log.length = 0 :=
    Nat.count_of_forall_not fun slot _ ↦ hrepresents.not_torn slot
  rw [recoveryReport, hrepresents.finalTail_eq, hclaimed, hcount]

/-- A recovery leaves the memory as it is. -/
theorem Represents.recovered_eq {recovered : Memory}
    (hrecovered : Recovered g hasher memory recovered) : recovered = memory := by
  have htail : loadWord memory hdrCommittedTail 8 = log.length := hrepresents.committedTail_eq
  exact hrecovered.unique
    { between := .refl memory
      marked := fun slot _ htorn ↦ absurd htorn (hrepresents.not_torn slot)
      tail := htail.trans hrepresents.finalTail_eq.symm }

theorem Represents.serve_recover (hostId : UInt16) :
    ∃ call later, (runtimeMachine g hasher).Ends (Request.call g (.recover hostId)) memory call
        later ∧ call.answer = some (Log.serve g (.recover hostId) log).1 ∧
      Represents g hasher (Log.serve g (.recover hostId) log).2 (Pool.ofMemory g later) ∧
      Counted g (Request.increments (.recover hostId) (Log.serve g (.recover hostId) log).1)
        memory later := by
  obtain ⟨recovered, later, hends, hrecovered, hpool, hcounted⟩ :=
    recover_ends g hasher memory hostId
  obtain rfl := hrepresents.recovered_eq hrecovered
  rw [hrepresents.recoveryReport_eq] at hends hcounted
  exact ⟨_, later, hends, rfl, hpool ▸ hrepresents, hcounted⟩

/-- Every request does to the pool what it does to the log. -/
theorem Represents.serve (request : Request) :
    ∃ call later, (runtimeMachine g hasher).Ends (request.call g) memory call later ∧
      call.answer = some (Log.serve g request log).1 ∧
      Represents g hasher (Log.serve g request log).2 (Pool.ofMemory g later) ∧
      Counted g (request.increments (Log.serve g request log).1) memory later := by
  cases request with
  | append entry => exact hrepresents.serve_append entry
  | read hostId index => exact hrepresents.serve_read hostId index
  | trim upTo => exact hrepresents.serve_trim upTo
  | recover hostId => exact hrepresents.serve_recover hostId

end Represents

end Fence
