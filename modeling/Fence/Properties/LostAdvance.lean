import Fence.Properties.ReserveWrap
import Fence.Properties.SlotReservation
import Fence.Protocol.Quiescence

/-!
# No advance is lost among appenders

With appends and reads only, every append either returns an index of its own or finds the pool
full, and when all of them have returned the committed tail has passed every record
(`no_lost_advance`). No slot is ever abandoned in such runs, so no sweep can start at one. The
bound on pending undos is needed here too: once the reserve tail has wrapped, an index is returned
a second time (`not_noLostAdvance_of_wrap`).
-/

set_option autoImplicit false
set_option relaxedAutoImplicit false

namespace Fence

open ByteMemory Interleaving

variable {g : PoolGeometry} {hasher : Hasher}

/-! ### Runs of appends and reads -/

variable (g) in
/-- The action starts nothing but appends that fit a record, and reads. -/
def AppendsOrReads : Action Request Empty → Prop
  | .start (.append entry) => entry.data.length ≤ g.payloadSize
  | .start (.read _ _) => True
  | .start _ => False
  | .step _ => True
  | .env event => event.elim

instance : DecidablePred (AppendsOrReads g)
  | .start (.append entry) => inferInstanceAs (Decidable (entry.data.length ≤ g.payloadSize))
  | .start (.read _ _) => .isTrue trivial
  | .start (.trim _) => .isFalse id
  | .start (.recover _) => .isFalse id
  | .step _ => .isTrue trivial
  | .env event => event.elim

variable (g) in
/-- A read, or an append that can fail only for a full pool. -/
def Call.LogsOnly : Call → Prop
  | .append _ (.returned (.error error)) => ∃ slot, error = .poolFull g.capacity slot
  | .append _ _ => True
  | .read _ _ _ => True
  | _ => False

theorem Call.LogsOnly.step {call : Call} (hlogs : call.LogsOnly g) (memory : Memory) :
    (call.step g hasher memory).1.LogsOnly g := by
  match call with
  | .append entry (.running point) =>
    rw [Call.step_append]
    cases point with
    | reserve =>
      simp only [FenceRuntime.append, BackendCall.exec]
      split_ifs <;> trivial
    | countFailed slot => exact ⟨slot, rfl⟩
    | writeDataLen slot =>
      simp only [FenceRuntime.append, BackendCall.exec]
      split_ifs <;> trivial
    | sweep slot point =>
      simp only [FenceRuntime.append, BackendCall.exec_map]
      cases ((Recovery.advanceCommittedTail g point).exec memory).1 <;> trivial
    | _ => trivial
  | .read hostId index (.running point) =>
    rw [Call.step_read]
    trivial
  | .append _ (.returned _) => exact hlogs
  | .read _ _ (.returned _) => trivial

theorem Request.call_logsOnly {request : Request} (hlogs : AppendsOrReads g (.start request)) :
    (request.call g).LogsOnly g := by
  cases request with
  | append entry =>
    have hsize : ¬ g.payloadSize < entry.data.length := Nat.not_lt.mpr hlogs
    simp only [Request.call, startAppend, if_neg hsize]
    trivial
  | read hostId index => trivial
  | trim upTo => exact hlogs.elim
  | recover hostId => exact hlogs.elim

variable (g hasher) in
/-- The invariant of runs of appends and reads. -/
structure Appending (config : Config Call Memory) : Prop where
  advancing : Advancing g hasher config
  full : FullIfRefused g config
  logs : ∀ call ∈ config.threads, call.LogsOnly g

section Run

variable {config : Config Call Memory} {action : Action Request Empty}

/-- Without trims no sweep finds an abandoned slot. -/
theorem Appending.startsAtTrimmed_eq_false (happending : Appending g hasher config)
    (action : Action Request Empty) : startsAtTrimmed g config action = false := by
  by_contra htrimmed
  obtain ⟨call, hmem, slot, hpoint, hstate⟩ :=
    exists_of_startsAtTrimmed (Bool.not_eq_false _ ▸ htrimmed)
  obtain ⟨-, -, hslot, -⟩ :=
    (happending.advancing.invariant.contents.sound call hmem).sweepPoint hpoint
  obtain ⟨-, trimmer, htrimmer, htrims⟩ := happending.advancing.trimmed slot hslot hstate
  have hlogs := happending.logs trimmer htrimmer
  cases trimmer with
  | trim upTo task => exact hlogs
  | _ => exact htrims

/-- Appends and reads keep the invariant. -/
theorem Appending.apply (happending : Appending g hasher config)
    (hbounded : UndosBounded g hasher config action) (hlogs : AppendsOrReads g action) :
    Appending g hasher ((runtimeMachine g hasher).apply config action) where
  advancing := by
    refine happending.advancing.apply hbounded ?_ (happending.startsAtTrimmed_eq_false action)
    cases action with
    | start request =>
      cases request with
      | recover hostId => exact hlogs.elim
      | _ => rfl
    | _ => rfl
  full := happending.full.apply happending.advancing.invariant hbounded
  logs := by
    cases action with
    | start request =>
      intro call hmem
      rcases List.mem_append.mp hmem with hold | hnew
      · exact happending.logs call hold
      · rw [List.mem_singleton.mp hnew]
        exact Request.call_logsOnly hlogs
    | env event => exact event.elim
    | step index =>
      cases hcall : config.threads[index]? with
      | none =>
        rw [apply_step_of_none _ hcall]
        exact happending.logs
      | some call =>
        rw [apply_step_of_getElem? _ hcall]
        exact forall_mem_set (Call.LogsOnly g) hcall
          ((happending.logs call (List.mem_of_getElem? hcall)).step config.shared)
          fun _ held _ hheld ↦ happending.logs held (List.mem_of_getElem? hheld)

/-- A pool just created is one of such a run. -/
theorem Appending.fresh : Appending g hasher (freshConfig g) where
  advancing := Advancing.fresh
  full := by intro call hmem; cases hmem
  logs := by intro call hmem; cases hmem

/-- The invariant holds after every run of appends and reads in which the pending undos stay
bounded. -/
theorem appending_of_run {schedule : List (Action Request Empty)}
    (hlogs : ∀ action ∈ schedule, AppendsOrReads g action)
    (hbounded : (runtimeMachine g hasher).Along (UndosBounded g hasher) schedule
      (freshConfig g)) :
    Appending g hasher ((runtimeMachine g hasher).run schedule (freshConfig g)) :=
  invariant_run (Appending g hasher)
    (fun _ _ happending hcondition ↦ happending.apply hcondition.1 hcondition.2)
    (along_and.mpr ⟨hbounded, along_of_forall_mem (AppendsOrReads g) hlogs _⟩) Appending.fresh

end Run

/-! ### The theorem -/

/-- What a run of appends and reads has led to when all appends have returned. -/
structure NoLostAdvance (g : PoolGeometry) (hasher : Hasher) (config : Config Call Memory)
    (stored : ℕ) : Prop where
  indices : (okIndices config.threads).Perm ((List.range stored).map Nat.succ)
  refused : ∀ (entry : Entry) (result : Except FenceError ℕ),
    .append entry (.returned result) ∈ config.threads →
      (∃ index, result = .ok index) ∨ ∃ slot, result = .error (.poolFull g.capacity slot)
  reserveTail_eq : (Pool.ofMemory g config.shared).reserveTail = stored
  committedTail_eq : (Pool.ofMemory g config.shared).committedTail = stored
  reads : ∀ (entry : Entry) (index : UInt64),
    .append entry (.returned (.ok index.toNat)) ∈ config.threads →
      Reads g hasher config.shared index (entry.record (index.toNat - 1))

/-- The appends that returned an index are at most as many as the appends, and exactly as many
when none was refused. -/
theorem okIndices_length {threads : List Call} (hlogs : ∀ call ∈ threads, call.LogsOnly g)
    (hreturned : AppendsReturned threads) :
    (okIndices threads).length ≤ threads.countP Call.isAppend ∧
      ((∀ call ∈ threads, ¬ call.Refused) →
        (okIndices threads).length = threads.countP Call.isAppend) := by
  have hok : ∀ {call : Call}, call.okIndex.isSome → call.isAppend = true := by
    intro call hsome
    obtain ⟨index, hindex⟩ := Option.isSome_iff_exists.mp hsome
    obtain ⟨entry, rfl⟩ := Call.okIndex_eq_some hindex
    rfl
  have hlength : (okIndices threads).length = threads.countP fun call ↦ call.okIndex.isSome :=
    List.length_filterMap_eq_countP
  rw [hlength]
  refine ⟨List.countP_mono_left fun call _ ↦ hok, fun hnone ↦ ?_⟩
  refine List.countP_congr fun call hmem ↦ ⟨hok, fun happend ↦ ?_⟩
  have hdone := hreturned call hmem happend
  have hlog := hlogs call hmem
  match call, happend with
  | .append entry (.returned (.ok index)), _ => rfl
  | .append entry (.returned (.error error)), _ =>
    obtain ⟨slot, rfl⟩ := hlog
    exact (hnone _ hmem trivial).elim

/-- No advance is lost in a run of appends and reads in which the pending undos stay bounded: when
all appends have returned, as many as fit have returned an index, each its own, the others have
found the pool full, and every record can be read. -/
theorem no_lost_advance {schedule : List (Action Request Empty)}
    (hlogs : ∀ action ∈ schedule, AppendsOrReads g action)
    (hbounded : (runtimeMachine g hasher).Along (UndosBounded g hasher) schedule (freshConfig g))
    (hreturned : AppendsReturned
      ((runtimeMachine g hasher).run schedule (freshConfig g)).threads) :
    let config := (runtimeMachine g hasher).run schedule (freshConfig g)
    NoLostAdvance g hasher config (min (config.threads.countP Call.isAppend) g.capacity) := by
  intro config
  have happending : Appending g hasher config := appending_of_run hlogs hbounded
  have hadvancing := happending.advancing
  have hperm := hadvancing.invariant.okIndices_perm hreturned
  have hfull : (Pool.ofMemory g config.shared).reserveTail ≤ g.capacity :=
    hadvancing.invariant.reserveTail_le hreturned
  have hcount : (okIndices config.threads).length =
      (Pool.ofMemory g config.shared).reserveTail := by
    rw [hperm.length_eq, List.length_map, List.length_range]
  obtain ⟨hle, hall⟩ :
      (okIndices config.threads).length ≤ config.threads.countP Call.isAppend ∧ _ :=
    okIndices_length happending.logs hreturned
  have hstored : (Pool.ofMemory g config.shared).reserveTail =
      min (config.threads.countP Call.isAppend) g.capacity := by
    by_cases hrefused : ∃ call ∈ config.threads, call.Refused
    · obtain ⟨call, hmem, hcall⟩ := hrefused
      have := happending.full call hmem hcall
      omega
    · have := hall fun call hmem hcall ↦ hrefused ⟨call, hmem, hcall⟩
      omega
  rw [← hstored]
  exact
    { indices := hperm
      refused := by
        intro entry result hmem
        cases result with
        | ok index => exact Or.inl ⟨index, rfl⟩
        | error error =>
          obtain ⟨slot, rfl⟩ := happending.logs _ hmem
          exact Or.inr ⟨slot, rfl⟩
      reserveTail_eq := rfl
      committedTail_eq := hadvancing.committedTail_eq hreturned
      reads := by
        intro entry index happended
        exact hadvancing.reads hreturned happended
          (fun upTo task hmem ↦ (happending.logs _ hmem).elim)
          fun upTo result hmem ↦ (happending.logs _ hmem).elim }

/-- Three appends that take turns on a pool of two slots, and a read that does not return: the last
append finds the pool full. -/
def takingTurns : List (Action Request Empty) :=
  alone (.append firstEntry) 0 5 ++ alone (.append secondEntry) 1 16 ++
    alone (.append firstEntry) 2 3 ++ alone (.read 0 1) 3 1 ++ List.replicate 14 (.step 0)

theorem no_lost_advance_takingTurns :
    NoLostAdvance twoPool crc32fast
      ((runtimeMachine twoPool crc32fast).run takingTurns (freshConfig twoPool)) 2 := by
  have hlogs : ∀ action ∈ takingTurns, AppendsOrReads twoPool action := by decide
  have hadvance : NoLostAdvance twoPool crc32fast _ _ :=
    no_lost_advance hlogs (by decide +kernel) (by decide +kernel)
  have hcount : min (((runtimeMachine twoPool crc32fast).run takingTurns
      (freshConfig twoPool)).threads.countP Call.isAppend) twoPool.capacity = 2 := by
    decide +kernel
  rwa [hcount] at hadvance

/-! ### An index returned twice -/

/-- One append fills the pool of one slot, `count` others stall right after their reservation, one
more append runs to its end, and then the stalled ones go on. -/
def doubleIndex (count : ℕ) : List (Action Request Empty) :=
  fillPool ++ flood (.append secondEntry) 1 count ++ alone (.append secondEntry) (1 + count) 16 ++
    drain 2 1 count

/-- A stalled append gives its slot back and returns that the pool is full. -/
theorem solo_stalled (i : ℕ) (memory : Memory) :
    ((runtimeMachine onePool crc32fast).solo 2 (.append secondEntry (.running (.undo (1 + i))))
      memory).1 = .append secondEntry (.returned (.error (.poolFull 1 (1 + i)))) := rfl

/-- After the wrap the one slot is handed out again, and two appends return the index one. -/
theorem run_doubleIndex {count : ℕ} (hcount : count + 1 = 2 ^ 64) :
    ((runtimeMachine onePool crc32fast).run (doubleIndex count) (freshConfig onePool)).threads =
      [.append firstEntry (.returned (.ok 1))] ++ (List.range count).map (fun i ↦
        Call.append secondEntry (.returned (.error (.poolFull 1 (1 + i))))) ++
          [.append secondEntry (.returned (.ok 1))] := by
  have hagain : ((runtimeMachine onePool crc32fast).solo 16
      ((runtimeMachine onePool crc32fast).start (.append secondEntry))
      (storeWord singleRecord hdrReserveTail 8 0)).1 =
      .append secondEntry (.returned (.ok 1)) := by decide +kernel
  obtain ⟨shared, hdrain⟩ := run_drain _ _ count (fun i _ memory ↦ solo_stalled i memory)
    ((runtimeMachine onePool crc32fast).solo 16
      ((runtimeMachine onePool crc32fast).start (.append secondEntry))
      (storeWord singleRecord hdrReserveTail 8 0)).2
    [.append firstEntry (.returned (.ok 1))] [.append secondEntry (.returned (.ok 1))]
  rw [doubleIndex, run_append, run_fillPool_wrapped 16 hcount, hagain]
  exact congrArg Config.threads hdrain

/-- Two appends that return the same index are more than a run without loss has. -/
theorem not_noLostAdvance_of_threads {config : Config Call Memory} {refused : List Call}
    (hthreads : config.threads = [.append firstEntry (.returned (.ok 1))] ++ refused ++
      [.append secondEntry (.returned (.ok 1))]) (stored : ℕ) :
    ¬ NoLostAdvance onePool crc32fast config stored := by
  intro hadvance
  have hnodup := hadvance.indices.nodup_iff.mpr
    (List.Nodup.map Nat.succ_injective List.nodup_range)
  rw [hthreads, okIndices, List.filterMap_append, List.filterMap_append] at hnodup
  have hdisjoint := List.disjoint_of_nodup_append hnodup
  exact hdisjoint (List.mem_append_left _ List.mem_cons_self) List.mem_cons_self

theorem allReturned_doubleIndex {count : ℕ} (hcount : count + 1 = 2 ^ 64) :
    AllReturned ((runtimeMachine onePool crc32fast).run (doubleIndex count)
      (freshConfig onePool)).threads := by
  rw [run_doubleIndex hcount]
  intro call hmem
  simp only [List.mem_append, List.mem_singleton, List.mem_map] at hmem
  rcases hmem with (rfl | ⟨i, -, rfl⟩) | rfl <;> rfl

theorem appendsOrReads_doubleIndex {count : ℕ} :
    ∀ action ∈ doubleIndex count, AppendsOrReads onePool action := by
  intro action hmem
  have hstart : ∀ entry : Entry, entry.data.length ≤ onePool.payloadSize →
      action = .start (.append entry) ∨ (∃ index, action = .step index) →
        AppendsOrReads onePool action := by
    rintro entry hsize (rfl | ⟨index, rfl⟩)
    · exact hsize
    · trivial
  simp only [doubleIndex, List.mem_append] at hmem
  rcases hmem with ((hfill | hflood) | halone) | hdrain
  · exact hstart firstEntry (by decide) (eq_of_mem_alone hfill)
  · exact hstart secondEntry (by decide) (eq_of_mem_flood hflood)
  · exact hstart secondEntry (by decide) (eq_of_mem_alone halone)
  · exact hstart firstEntry (by decide) (Or.inr (eq_of_mem_drain hdrain))

/-- A run of appends that all return, two of them with the index one. -/
theorem not_noLostAdvance_of_wrap :
    (∀ action ∈ doubleIndex (2 ^ 64 - 1), AppendsOrReads onePool action) ∧
    AllReturned ((runtimeMachine onePool crc32fast).run (doubleIndex (2 ^ 64 - 1))
      (freshConfig onePool)).threads ∧
    ∀ stored, ¬ NoLostAdvance onePool crc32fast ((runtimeMachine onePool crc32fast).run
      (doubleIndex (2 ^ 64 - 1)) (freshConfig onePool)) stored := by
  have hcount : 2 ^ 64 - 1 + 1 = 2 ^ 64 := Nat.sub_add_cancel (by decide : 1 ≤ 2 ^ 64)
  exact ⟨appendsOrReads_doubleIndex, allReturned_doubleIndex hcount,
    not_noLostAdvance_of_threads (run_doubleIndex hcount)⟩

end Fence
