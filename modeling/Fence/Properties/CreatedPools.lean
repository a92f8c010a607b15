import Fence.Protocol.Invariant
import Fence.Protocol.Serving
import Fence.Runtime.Open

/-!
# Pools created on used files

Creating a pool writes the header of the file and no other byte of it. What the record slots and the
counters held before stays there. `LogIsEmpty` says that nobody notices: every session goes as on a
pool created on zeros. It holds exactly when no slot holds a committed state byte and the old
counters do not show in statistics (`logIsEmpty_open_iff`): in a release build they add up to zero,
and in a build that checks for overflows each of them is zero. Otherwise the sweep takes the old
record of the first committed slot into the log, once the slots before it are filled
(`exists_session_of_committed`), or the first statistics tell.
-/

set_option autoImplicit false
set_option relaxedAutoImplicit false

namespace Fence

open ByteMemory FirstGap Interleaving

variable {checked : Bool} {g : PoolGeometry} {hasher : Hasher}

/-! ### New pools -/

/-- What clients of a new pool may rely on: all sessions go as on a pool created on zeros, the
committed tail is at most the number of appends, and a record that is read was appended before. -/
structure LogIsEmpty (checked : Bool) (g : PoolGeometry) (hasher : Hasher) (memory : Memory) :
    Prop where
  answers : ∀ requests answers,
    (∃ later, (serviceMachine checked g hasher).Session ServiceCall.answer requests memory answers
        later) ↔
      ∃ later, (serviceMachine checked g hasher).Session ServiceCall.answer requests (freshMemory g)
        answers later
  committedTail_le : ∀ requests answers later,
    (serviceMachine checked g hasher).Session ServiceCall.answer requests memory answers later →
      (Pool.ofMemory g later).committedTail ≤ requests.countP ServiceRequest.isAppend
  appended : ∀ requests hostId index answers record later,
    (serviceMachine checked g hasher).Session ServiceCall.answer
        (requests ++ [.operation (.read hostId index)]) memory
        (answers ++ [.operation (.read (.ok (some record)))]) later →
      ∃ entry slot, .operation (.append entry) ∈ requests ∧ record = entry.record slot

/-- The record slots and counters of a memory are as those of an empty pool, as far as a new log
can tell. -/
structure NoLeftovers (checked : Bool) (g : PoolGeometry) (memory : Memory) : Prop where
  state : ∀ slot < g.capacity, stateByte g memory slot ≠ stateCommitted
  totals : ∀ field ∈ metricsFields, total g.maxHosts (counter g memory) field = 0
  words : checked = true → ∀ hostId < g.maxHosts, ∀ field ∈ metricsFields,
    counter g memory hostId field = 0

theorem total_zero (hosts field : ℕ) : total hosts (fun _ _ ↦ 0) field = 0 := by
  simp [total, sumOf]

/-- A pool created on a memory without leftovers serves the empty journal. -/
theorem NoLeftovers.serves {memory : Memory} (hclean : NoLeftovers checked g memory) :
    Serves checked g hasher .empty (createHeader g memory) where
  represents := by
    rw [ofMemory_createHeader]
    refine Represents.nil rfl rfl fun slot hslot ↦ ?_
    have hstate : (Pool.ofMemory g memory).state slot = stateByte g memory slot :=
      Pool.ofMemory_state hslot
    exact hstate ▸ hclean.state slot hslot
  counters := by
    have hkept : Alike checked g.maxHosts (counter g (createHeader g memory)) (counter g memory) :=
      .of_eq fun hostId _ field hfield ↦ Counted.createHeader memory hostId field hfield
    refine hkept.trans ⟨fun field hfield ↦ ?_, hclean.words⟩
    exact (hclean.totals field hfield).trans (total_zero _ field).symm

/-- A pool created on zeros serves the empty journal. -/
theorem serves_freshMemory (checked : Bool) (g : PoolGeometry) (hasher : Hasher) :
    Serves checked g hasher .empty (freshMemory g) := by
  have hzero : ∀ hostId field, counter g (fun _ ↦ 0) hostId field = 0 := fun hostId field ↦ by
    simp [counter, loadWord, load, leValue]
  refine NoLeftovers.serves ⟨fun slot _ ↦ (by decide : (0 : UInt8) ≠ stateCommitted), ?_,
    fun _ hostId _ field _ ↦ hzero hostId field⟩
  intro field _
  simp [total, sumOf, hzero]

/-- A pool that serves the empty journal is a new log. -/
theorem Serves.logIsEmpty {memory : Memory} (hserves : Serves checked g hasher .empty memory) :
    LogIsEmpty checked g hasher memory where
  answers := by
    intro requests answers
    rw [hserves.answers_iff, (serves_freshMemory checked g hasher).answers_iff]
  committedTail_le := by
    intro requests answers later hsession
    rw [(hserves.session hsession).2.represents.committedTail_eq]
    exact Journal.length_serveAll_le requests
  appended := by
    intro requests hostId index answers record later hsession
    have hanswers := (hserves.session hsession).1
    rw [serveAll_append] at hanswers
    have hlast := (List.append_inj' hanswers rfl).2
    rw [serveAll, serveAll, List.cons.injEq] at hlast
    have hread : (serveAll (Journal.serve checked g) requests .empty).2.log.read index.toNat =
        .ok (some record) := by
      simpa [Journal.serve, Log.serve] using hlast.1.symm
    obtain ⟨item, hitem, slot, hrecord⟩ := Log.mem_of_read _ hread
    exact ⟨item.entry, slot, Journal.mem_serveAll requests item hitem, hrecord⟩

/-! ### Leftovers come to light -/

section Leftover

variable {start : Memory} {bound : ℕ}
  (hcommitted : (Pool.ofMemory g start).committedTail = 0)
  (hreserve : (Pool.ofMemory g start).reserveTail = 0)
  (hbound : bound < g.capacity)
  (hfirst : ∀ slot < bound, (Pool.ofMemory g start).state slot ≠ stateCommitted)

include hcommitted hreserve hbound hfirst

/-- Before the last slot below a committed one is filled, appends fill one slot after the other. -/
theorem exists_session_of_appends (hasher : Hasher) (count : ℕ) (hcount : count + 1 ≤ bound) :
    ∃ answers later, (serviceMachine checked g hasher).Session ServiceCall.answer
        (List.replicate count (.operation (.append (emptyEntry 0)))) start answers later ∧
      (Pool.ofMemory g later).committedTail = count ∧
      (Pool.ofMemory g later).reserveTail = count ∧
      ∀ slot, count ≤ slot → (Pool.ofMemory g later).slot slot =
        (Pool.ofMemory g start).slot slot := by
  induction count with
  | zero => exact ⟨[], start, .nil start, hcommitted, hreserve, fun _ _ ↦ rfl⟩
  | succ count ih =>
    obtain ⟨answers, between, hsession, htail, hreserved, hkept⟩ := ih (by omega)
    obtain ⟨later, hends, happended⟩ := @append_ends g hasher (emptyEntry 0) between count
      (by omega) (Nat.zero_le _) hreserved htail
    have hgap : (Pool.ofMemory g between).state (count + 1) ≠ stateCommitted := by
      rw [Pool.state, hkept _ (Nat.le_succ _)]
      exact hfirst _ (by omega)
    refine ⟨answers ++ [.operation (.append (.ok (count + 1)))], later, ?_, ?_,
      happended.reserveTail_eq, ?_⟩
    · rw [List.replicate_succ']
      exact hsession.append (.cons (ServiceCall.ends_operation hends) rfl (.nil later))
    · rw [happended.committedTail_eq, appendedTail_eq fun _ ↦ hgap]
    · intro slot hslot
      rw [happended.others slot (by omega), hkept slot (by omega)]

/-- Once the slots below a committed one are filled, the committed tail has passed it. -/
theorem exists_session_of_committed (hasher : Hasher)
    (hstate : (Pool.ofMemory g start).state bound = stateCommitted) :
    ∃ requests answers later,
      (serviceMachine checked g hasher).Session ServiceCall.answer requests start
        answers later ∧
      requests.countP ServiceRequest.isAppend ≤ bound ∧
      bound < (Pool.ofMemory g later).committedTail := by
  cases bound with
  | zero =>
    obtain ⟨recovered, later, hends, hrecovered, hpool, -⟩ := recover_ends g hasher start 0
    refine ⟨[.operation (.recover 0)], _, later,
      .cons (ServiceCall.ends_operation hends) rfl (.nil later), Nat.le_refl _, ?_⟩
    have hkept : Kept g hasher start 0 := by
      have hreserved : loadWord start hdrReserveTail 8 = 0 := hreserve
      refine ⟨(Pool.ofMemory_state hbound).symm.trans hstate, fun htorn ↦ ?_⟩
      have hclaimed := htorn.1
      rw [claimedSlots, hreserved] at hclaimed
      omega
    rw [hpool]
    refine (hrecovered.lt_tail_iff hbound).mpr fun between _ hbetween ↦ ?_
    rwa [Nat.le_zero.mp hbetween]
  | succ last =>
    obtain ⟨answers, between, hsession, htail, hreserved, hkept⟩ :=
      exists_session_of_appends hcommitted hreserve hbound hfirst hasher last (Nat.le_refl _)
    obtain ⟨later, hends, happended⟩ := @append_ends g hasher (emptyEntry 0) between last
      (by omega) (Nat.zero_le _) hreserved htail
    refine ⟨List.replicate (last + 1) (.operation (.append (emptyEntry 0))),
      answers ++ [.operation (.append (.ok (last + 1)))], later, ?_, ?_, ?_⟩
    · rw [List.replicate_succ']
      exact hsession.append (.cons (ServiceCall.ends_operation hends) rfl (.nil later))
    · exact List.countP_le_length.trans List.length_replicate.le
    · rw [happended.committedTail_eq]
      refine (lt_firstGap_iff hbound).mpr fun slot hlow hhigh ↦ ?_
      have hslot : slot = last + 1 := by omega
      rw [hslot, Pool.state, hkept _ (Nat.le_succ _)]
      exact hstate

end Leftover

/-- A read that is out of bounds has found its index past the committed tail, or zero. -/
theorem lt_of_readOutcome {memory : Memory} {index named committedTail : ℕ}
    (houtcome : readOutcome g hasher memory index =
      .error (.indexOutOfBounds named committedTail)) :
    index = 0 ∨ loadWord memory hdrCommittedTail 8 < index := by
  rw [readOutcome] at houtcome
  split_ifs at houtcome with hbounds
  · exact hbounds
  · rw [slotOutcome] at houtcome
    split_ifs at houtcome
    all_goals cases houtcome

/-- On a new log there are no statistics. -/
theorem LogIsEmpty.statsResult_eq {memory : Memory}
    (hempty : LogIsEmpty checked g hasher memory) :
    statsResult checked g.maxHosts (counter g memory) =
      statsResult checked g.maxHosts fun _ _ ↦ 0 := by
  have hends := statistics_ends checked g hasher memory
  obtain ⟨later, hfresh⟩ := (hempty.answers [.statistics] [_]).mp
    ⟨memory, .cons hends rfl (.nil memory)⟩
  have hanswers := ((serves_freshMemory checked g hasher).session hfresh).1
  rw [serveAll, serveAll, List.cons.injEq] at hanswers
  exact ServiceAnswer.statistics.inj hanswers.1

/-- Statistics that report nothing have found no sum out of range, and nothing but zeros modulo the
range of a word. -/
theorem statsResult_eq_zero {hosts : ℕ} {counters : ℕ → ℕ → ℕ}
    (hzero : statsResult checked hosts counters = statsResult checked hosts fun _ _ ↦ 0) :
    (∀ field ∈ metricsFields, total hosts counters field = 0) ∧
      (checked = true → ∀ field ∈ metricsFields, sumOf counters hosts field < 2 ^ 64) := by
  have hnone : ¬ (checked = true ∧
      ∃ field ∈ metricsFields, 2 ^ 64 ≤ sumOf (fun _ _ ↦ 0) hosts field) := by
    simp [sumOf]
  rw [statsResult, statsResult, if_neg hnone] at hzero
  split_ifs at hzero with hpanic
  rw [Option.some.injEq, statsOf_inj] at hzero
  refine ⟨fun field hfield ↦ (hzero field hfield).trans (total_zero hosts field), ?_⟩
  intro hchecked field hfield
  by_contra hover
  exact hpanic ⟨hchecked, field, hfield, Nat.le_of_not_lt hover⟩

/-- A sum of zero has no other terms. -/
theorem eq_zero_of_sumOf {hosts field : ℕ} {counters : ℕ → ℕ → ℕ}
    (hsum : sumOf counters hosts field = 0) {hostId : ℕ} (hhost : hostId < hosts) :
    counters hostId field = 0 :=
  Finset.sum_eq_zero_iff.mp hsum hostId (Finset.mem_range.mpr hhost)

/-- On a new log nothing was committed. -/
theorem LogIsEmpty.state_ne {memory : Memory} (hempty : LogIsEmpty checked g hasher memory)
    (hcommitted : (Pool.ofMemory g memory).committedTail = 0)
    (hreserve : (Pool.ofMemory g memory).reserveTail = 0) {slot : ℕ} (hslot : slot < g.capacity) :
    (Pool.ofMemory g memory).state slot ≠ stateCommitted := by
  have hcapacity := g.capacity_lt
  induction slot using Nat.strongRecOn with
  | _ slot ih =>
    intro hstate
    obtain ⟨requests, answers, later, hsession, happends, htail⟩ :=
      exists_session_of_committed hcommitted hreserve hslot
        (fun other hother ↦ ih other hother (hother.trans hslot)) hasher hstate
    obtain ⟨index, hindex⟩ : ∃ index : UInt64, index.toNat = slot + 1 :=
      ⟨UInt64.ofNat (slot + 1), UInt64.toNat_ofNat_of_lt' (by rw [UInt64.size]; omega)⟩
    have hread := read_ends g hasher later 0 index
    rw [hindex] at hread
    have hlastRead : (serviceMachine checked g hasher).Session ServiceCall.answer
        [.operation (.read 0 index)] later
        [.operation (.read (readOutcome g hasher later (slot + 1)))] _ :=
      .cons (ServiceCall.ends_operation hread) rfl (.nil _)
    obtain ⟨other, hfresh⟩ := (hempty.answers _ _).mp ⟨_, hsession.append hlastRead⟩
    have hanswers := ((serves_freshMemory checked g hasher).session hfresh).1
    have hlength := (@Journal.length_serveAll_le checked g requests).trans happends
    rw [serveAll_append] at hanswers
    have hlast := (List.append_inj' hanswers rfl).2
    rw [serveAll, serveAll, List.cons.injEq] at hlast
    have hbeyond : readOutcome g hasher later (slot + 1) = .error (.indexOutOfBounds (slot + 1)
        (serveAll (Journal.serve checked g) requests .empty).2.log.length) := by
      simpa [Journal.serve, Log.serve, Log.read, hindex, Nat.lt_succ_of_le hlength] using hlast.1
    have hbound : slot < loadWord later hdrCommittedTail 8 := htail
    rcases lt_of_readOutcome hbeyond with hzero | hless
    · omega
    · omega

/-! ### When a created pool is a new log -/

/-- A pool that was created is a new log when the file held no leftovers, and only then. -/
theorem logIsEmpty_createHeader_iff (checked : Bool) (g : PoolGeometry) (hasher : Hasher)
    (memory : Memory) :
    LogIsEmpty checked g hasher (createHeader g memory) ↔ NoLeftovers checked g memory := by
  have hpool := ofMemory_createHeader (g := g) memory
  constructor
  · intro hempty
    obtain ⟨htotals, hfits⟩ := statsResult_eq_zero hempty.statsResult_eq
    refine ⟨fun slot hslot ↦ ?_, fun field hfield ↦ ?_, fun hchecked hostId hhost field hfield ↦ ?_⟩
    · have hstate := hempty.state_ne (by rw [hpool]) (by rw [hpool]) hslot
      rw [hpool] at hstate
      have hsame : (Pool.ofMemory g memory).state slot = stateByte g memory slot :=
        Pool.ofMemory_state hslot
      exact hsame ▸ hstate
    · have htotal := htotals field hfield
      rwa [(Counted.createHeader memory).total_eq hfield] at htotal
    · have hsum : sumOf (counter g (createHeader g memory)) g.maxHosts field = 0 :=
        (Nat.mod_eq_of_lt (hfits hchecked field hfield)).symm.trans (htotals field hfield)
      exact (Counted.createHeader memory hostId field hfield).symm.trans
        (eq_zero_of_sumOf hsum hhost)
  · intro hclean
    exact hclean.serves.logIsEmpty

/-- `open` with `create` set leaves the memory of a created pool. -/
theorem FenceRuntime.memory_of_open {config : PoolConfig} {file : List UInt8} {runtime : Runtime}
    (hcreate : config.create = true)
    (hopen : FenceRuntime.open config file = some (.ok runtime)) :
    runtime.memory = createHeader runtime.geometry
      (mapped (ftruncate file runtime.geometry.totalSize)) := by
  rw [FenceRuntime.open, Option.map_eq_some_iff] at hopen
  obtain ⟨geometry, -, hopened⟩ := hopen
  rw [if_pos hcreate, Except.ok.injEq] at hopened
  rw [← hopened]

/-- A pool created on a file of zeros is the fresh pool. -/
theorem FenceRuntime.memory_of_open_zeros {config : PoolConfig} {length : ℕ} {runtime : Runtime}
    (hcreate : config.create = true)
    (hopen : FenceRuntime.open config (List.replicate length 0) = some (.ok runtime)) :
    runtime.memory = freshMemory runtime.geometry := by
  rw [FenceRuntime.memory_of_open hcreate hopen, freshMemory]
  congr 1
  funext address
  by_cases haddress : address < runtime.geometry.totalSize
  · rw [mapped_ftruncate_of_lt haddress]
    exact List.getElem?_getD_replicate_default_eq _ _ _
  · exact mapped_of_length_le (by rw [length_ftruncate]; exact Nat.le_of_not_lt haddress)

/-- A runtime that `open` returns with `create` set is a new log when the file, cut or extended to
the size of the pool, has no slot with a committed state byte and no counters that show in
statistics. It is one only then. -/
theorem logIsEmpty_open_iff (checked : Bool) (hasher : Hasher) {config : PoolConfig}
    {file : List UInt8} {runtime : Runtime} (hcreate : config.create = true)
    (hopen : FenceRuntime.open config file = some (.ok runtime)) :
    LogIsEmpty checked runtime.geometry hasher runtime.memory ↔
      NoLeftovers checked runtime.geometry
        (mapped (ftruncate file runtime.geometry.totalSize)) := by
  rw [FenceRuntime.memory_of_open hcreate hopen]
  exact logIsEmpty_createHeader_iff checked _ hasher _

/-- The configuration of the pool of one slot. -/
def oneConfig : PoolConfig := ⟨1, 8, 1, 0, true⟩

/-- The file that some steps of an append leave on the pool of one slot. -/
def fileAfter (steps : ℕ) : List UInt8 :=
  unmapped ((runtimeMachine onePool crc32fast).solo steps
    (Request.call onePool (.append ⟨0, 1, [7]⟩)) (freshMemory onePool)).2 onePool.totalSize

/-- A pool created on the file of an append that was interrupted before it set the state is a new
log. -/
theorem logIsEmpty_open_iff_interrupted :
    stateByte onePool (mapped (fileAfter 6)) 0 = stateWriting ∧
      ∃ runtime, FenceRuntime.open oneConfig (fileAfter 6) = some (.ok runtime) ∧
        LogIsEmpty true runtime.geometry crc32fast runtime.memory := by
  refine ⟨by decide +kernel, _, rfl, (logIsEmpty_open_iff true crc32fast (rfl : oneConfig.create =
    true) (rfl : FenceRuntime.open oneConfig (fileAfter 6) = some (.ok ⟨onePool, 0, _⟩))).mpr ?_⟩
  refine ⟨?_, ?_, fun _ ↦ ?_⟩
  all_goals decide +kernel

/-- A pool created on the file of an append that has returned is no new log. -/
theorem not_logIsEmpty_usedFile :
    ∃ runtime, FenceRuntime.open oneConfig (fileAfter 16) = some (.ok runtime) ∧
      ∀ checked, ¬ LogIsEmpty checked runtime.geometry crc32fast runtime.memory := by
  refine ⟨_, rfl, fun checked hempty ↦ ?_⟩
  have hclean := (logIsEmpty_createHeader_iff checked onePool crc32fast _).mp hempty
  have hstate : stateByte onePool (mapped (ftruncate (fileAfter 16) onePool.totalSize)) 0 =
      stateCommitted := by decide +kernel
  exact hclean.state 0 (by decide) hstate

end Fence
