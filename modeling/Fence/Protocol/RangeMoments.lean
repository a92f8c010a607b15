import Fence.Library.SideBySide
import Fence.Protocol.RangeAlone
import Fence.Protocol.ReadMoments
import Fence.Runtime.RangeCalls

/-!
# The moments of a range

A range is in one read after the other, and each of them decides at one step. `RangeCall.Follows` is
what a range has come to when its reads so far were answered by given logs: the records it holds are
those the logs gave, and the read it is in either has not decided or has found the record of the
last log. A step of the range either leaves its logs or adds the one that the pool shows
(`RangeCall.follows_step`).
-/

set_option autoImplicit false
set_option relaxedAutoImplicit false

namespace Fence

open ByteMemory Interleaving

variable {g : PoolGeometry} {hasher : Hasher}

/-! ### One range -/

variable (g hasher) in
/-- What a range has come to when its reads so far were answered by these logs. -/
inductive RangeCall.Follows (request : RangeRequest) (tail : ℕ) (threads : List Call) :
    List Log → Task RangePoint (Except FenceError (List Record)) → Prop
  /-- The read of an index that has not decided. -/
  | reading {logs : List Log} {range : RangePoint}
    (hindex : request.startIndex.toNat + logs.length = range.index)
    (hend : range.index < request.endIndex.toNat)
    (hrecords : Log.readRange request.startIndex.toNat logs = .ok range.records)
    (hsound : (range.read request.hostId).Sound g hasher tail threads)
    (hdecided : ¬ (range.read request.hostId).Decided) :
    Follows request tail threads logs (.running range)
  /-- The read of an index that has found its record. -/
  | found {logs : List Log} {log : Log} {range : RangePoint} {slot : ℕ} {entry : Entry}
    (hindex : request.startIndex.toNat + logs.length = range.index)
    (hend : range.index < request.endIndex.toNat)
    (hrecords : Log.readRange request.startIndex.toNat logs = .ok range.records)
    (hsound : (range.read request.hostId).Sound g hasher tail threads)
    (hfound : (range.read request.hostId).Found) (hslot : slot + 1 = range.index)
    (hstored : Stored threads slot entry)
    (hlog : log.read range.index = .ok (some (entry.record slot))) :
    Follows request tail threads (logs ++ [log]) (.running range)
  /-- All indices were read. -/
  | done {logs : List Log} {records : List Record}
    (hlength : request.startIndex.toNat + logs.length =
      max request.startIndex.toNat request.endIndex.toNat)
    (hrecords : Log.readRange request.startIndex.toNat logs = .ok records) :
    Follows request tail threads logs (.returned (.ok records))
  /-- The read of the last index failed. -/
  | failed {logs : List Log} {error : FenceError}
    (hlength : request.startIndex.toNat + logs.length ≤ request.endIndex.toNat)
    (herror : Log.readRange request.startIndex.toNat logs = .error error) :
    Follows request tail threads logs (.returned (.error error))

section Range

variable {request : RangeRequest} {threads : List Call} {logs : List Log}

theorem toNat_ofNat_index {index : ℕ} (hend : index < request.endIndex.toNat) :
    (UInt64.ofNat index).toNat = index :=
  UInt64.toNat_ofNat_of_lt' (hend.trans request.endIndex.toNat_lt)

/-- What a range has come to does not go stale. -/
theorem RangeCall.Follows.mono {tail later : ℕ} {threads' : List Call}
    {task : Task RangePoint (Except FenceError (List Record))}
    (hfollows : RangeCall.Follows g hasher request tail threads logs task)
    (hextends : Extends threads threads') (htail : tail ≤ later) :
    RangeCall.Follows g hasher request later threads' logs task := by
  cases hfollows with
  | reading hindex hend hrecords hsound hdecided =>
    exact .reading hindex hend hrecords (hsound.mono hextends htail) hdecided
  | found hindex hend hrecords hsound hfound hslot hstored hlog =>
    exact .found hindex hend hrecords (hsound.mono hextends htail) hfound hslot
      (hextends _ _ _ hstored) hlog
  | done hlength hrecords => exact .done hlength hrecords
  | failed hlength herror => exact .failed hlength herror

/-- At the head of its loop a range begins the read of the next index, or is done. -/
theorem RangePoint.head_follows {tail index : ℕ} {records : List Record}
    (hindex : request.startIndex.toNat + logs.length = index)
    (hbound : index ≤ max request.startIndex.toNat request.endIndex.toNat)
    (hrecords : Log.readRange request.startIndex.toNat logs = .ok records) :
    RangeCall.Follows g hasher request tail threads logs
      (RangePoint.head request.endIndex.toNat index records) := by
  unfold RangePoint.head startRead
  split_ifs with hlt hzero
  · exact .reading hindex hlt hrecords ((toNat_ofNat_index hlt).trans hzero) id
  · refine .reading hindex hlt hrecords ?_ id
    exact Nat.pos_of_ne_zero fun hsame ↦ hzero ((toNat_ofNat_index hlt).symm.trans hsame)
  · exact .done (by omega) hrecords

/-- A request starts a range that has read nothing. -/
theorem RangeRequest.call_follows (request : RangeRequest) (tail : ℕ) (threads : List Call) :
    RangeCall.Follows g hasher request tail threads [] request.call.task := by
  have hstart : startReadRange request.checked request.startIndex request.endIndex =
      some request.call.task := (Option.some_get request.starts).symm
  obtain ⟨-, -, htask⟩ := startReadRange_eq_some_iff.mp hstart
  rw [htask]
  exact RangePoint.head_follows (Nat.add_zero _) (Nat.le_max_left _ _) rfl

/-- A range goes on with what the log answered for its index. -/
theorem RangePoint.next_follows {tail : ℕ} {range : RangePoint} {log : Log}
    (hindex : request.startIndex.toNat + logs.length = range.index)
    (hend : range.index < request.endIndex.toNat)
    (hrecords : Log.readRange request.startIndex.toNat logs = .ok range.records) :
    RangeCall.Follows g hasher request tail threads (logs ++ [log])
      (RangePoint.next request.endIndex.toNat range.index range.records
        (log.read range.index)) := by
  have hlength : request.startIndex.toNat + (logs ++ [log]).length = range.index + 1 := by
    rw [List.length_append, List.length_singleton]
    omega
  have hconcat := Log.readRange_concat request.startIndex.toNat logs log
  rw [hrecords, hindex] at hconcat
  cases hread : log.read range.index with
  | error error =>
    rw [hread] at hconcat
    exact .failed (by omega) hconcat
  | ok found =>
    rw [hread] at hconcat
    cases found with
    | none =>
      refine RangePoint.head_follows hlength (by omega) (hconcat.trans ?_)
      exact congrArg Except.ok (List.append_nil _)
    | some record => exact RangePoint.head_follows hlength (by omega) hconcat

/-- A range that has returned did so with what its logs answer. -/
theorem RangeCall.Follows.outcome {tail : ℕ} {outcome : Except FenceError (List Record)}
    (hfollows : RangeCall.Follows g hasher request tail threads logs (.returned outcome)) :
    request.startIndex.toNat + logs.length ≤
        max request.startIndex.toNat request.endIndex.toNat ∧
      (∀ records, outcome = .ok records → request.startIndex.toNat + logs.length =
        max request.startIndex.toNat request.endIndex.toNat) ∧
      outcome = Log.readRange request.startIndex.toNat logs := by
  generalize htask : (Task.returned outcome : Task RangePoint _) = task at hfollows
  cases hfollows with
  | reading => cases htask
  | found => cases htask
  | done hlength hrecords =>
    cases htask
    exact ⟨Nat.le_of_eq hlength, fun _ _ ↦ hlength, hrecords.symm⟩
  | failed hlength herror =>
    cases htask
    refine ⟨hlength.trans (Nat.le_max_right _ _), fun records hok ↦ ?_, herror.symm⟩
    cases hok

variable {memory : Memory}

/-- The read a range is in leaves the pool as it is. -/
theorem RangePoint.ofMemory_step_read {hostId : UInt16} (range : RangePoint) :
    Pool.ofMemory g ((range.read hostId).step g hasher memory).2 = Pool.ofMemory g memory := by
  rw [RangePoint.read, Call.step_read]
  exact FenceRuntime.ofMemory_exec_read

/-- A range steps as the read it is in. -/
theorem RangeCall.step_running {range : RangePoint} (hend : range.index < request.endIndex.toNat) :
    ∃ task, ((range.read request.hostId).step g hasher memory).1 =
        .read request.hostId (UInt64.ofNat range.index) task ∧
      RangeCall.step g hasher ⟨request, .running range⟩ memory =
        (⟨request, task.fold (fun point ↦ .running ⟨range.index, range.records, point⟩)
          (RangePoint.next request.endIndex.toNat range.index range.records)⟩,
          ((range.read request.hostId).step g hasher memory).2) := by
  rw [RangePoint.read, Call.step_read, toNat_ofNat_index hend]
  refine ⟨_, rfl, ?_⟩
  simp only [RangeCall.step, FenceRuntime.readRange, BackendCall.exec_map]
  rfl

/-- A read that has found its record keeps to it. -/
theorem RangeCall.Follows.of_found {tail : ℕ} {range : RangePoint} {log : Log} {slot : ℕ}
    {entry : Entry} {task : Task ReadPoint (Except FenceError (Option Record))}
    (hindex : request.startIndex.toNat + logs.length = range.index)
    (hend : range.index < request.endIndex.toNat)
    (hrecords : Log.readRange request.startIndex.toNat logs = .ok range.records)
    (hsound : (Call.read request.hostId (UInt64.ofNat range.index) task).Sound g hasher tail
      threads)
    (hfound : (Call.read request.hostId (UInt64.ofNat range.index) task).Found)
    (hslot : slot + 1 = range.index) (hstored : Stored threads slot entry)
    (hlog : log.read range.index = .ok (some (entry.record slot)))
    (hunique : ∀ slot entry other, Stored threads slot entry → Stored threads slot other →
      entry = other) :
    RangeCall.Follows g hasher request tail threads (logs ++ [log])
      (task.fold (fun point ↦ .running ⟨range.index, range.records, point⟩)
        (RangePoint.next request.endIndex.toNat range.index range.records)) := by
  match task with
  | .running point => exact .found hindex hend hrecords hsound hfound hslot hstored hlog
  | .returned (.error (.checksumMismatch made)) => exact hsound.elim
  | .returned (.ok (some record)) =>
    obtain ⟨place, hplace, other, hother, rfl⟩ := hsound
    rw [toNat_ofNat_index hend] at hplace
    obtain rfl : place = slot := by omega
    obtain rfl := hunique place entry other hstored hother
    have hnext := @RangePoint.next_follows g hasher _ threads _ tail _ log hindex hend hrecords
    rwa [hlog] at hnext

/-- A step of a range leaves its logs, or adds the one that the pool shows. -/
theorem RangeCall.follows_step (hrely : Rely g hasher threads (Pool.ofMemory g memory))
    (hunique : ∀ slot entry other, Stored threads slot entry → Stored threads slot other →
      entry = other)
    {task : Task RangePoint (Except FenceError (List Record))}
    (hfollows : RangeCall.Follows g hasher request (Pool.ofMemory g memory).committedTail threads
      logs task) :
    ∃ later, (RangeCall.step g hasher ⟨request, task⟩ memory).1 = ⟨request, later⟩ ∧
      Pool.ofMemory g (RangeCall.step g hasher ⟨request, task⟩ memory).2 =
        Pool.ofMemory g memory ∧
      (RangeCall.Follows g hasher request (Pool.ofMemory g memory).committedTail threads logs
          later ∨
        RangeCall.Follows g hasher request (Pool.ofMemory g memory).committedTail threads
          (logs ++ [publishedLog g memory]) later) := by
  cases hfollows with
  | done hlength hrecords => exact ⟨_, rfl, rfl, Or.inl (.done hlength hrecords)⟩
  | failed hlength herror => exact ⟨_, rfl, rfl, Or.inl (.failed hlength herror)⟩
  | @reading _ range hindex hend hrecords hsound hdecided =>
    obtain ⟨task, hread, hstep⟩ := @RangeCall.step_running g hasher _ memory _ hend
    have hpool := @RangePoint.ofMemory_step_read g hasher memory request.hostId range
    have hafter := (Call.step_spec hrely hsound).2
    rw [hpool, hread] at hafter
    rw [hstep]
    refine ⟨_, rfl, hpool, ?_⟩
    by_cases hdecides : ((range.read request.hostId).step g hasher memory).1.Decided
    · obtain ⟨host, made, point, hcall, hcases⟩ := hrely.decides hsound hdecided hdecides
      cases hcall
      rw [toNat_ofNat_index hend, hread] at hcases
      rcases hcases with hdone | ⟨hfound, slot, entry, hslot, hstored, hlog⟩
      · cases hdone
        exact Or.inr (RangePoint.next_follows hindex hend hrecords)
      · exact Or.inr (.of_found hindex hend hrecords hafter hfound hslot hstored hlog hunique)
    · rw [hread] at hdecides
      cases task with
      | running point => exact Or.inl (.reading hindex hend hrecords hafter hdecides)
      | returned outcome => exact absurd trivial hdecides
  | @found earlier log range slot entry hindex hend hrecords hsound hfound hslot hstored hlog =>
    obtain ⟨task, hread, hstep⟩ := @RangeCall.step_running g hasher _ memory _ hend
    have hpool := @RangePoint.ofMemory_step_read g hasher memory request.hostId range
    have hafter := (Call.step_spec hrely hsound).2
    have hstill := @Call.Found.step g hasher _ hfound memory
    rw [hpool, hread] at hafter
    rw [hread] at hstill
    rw [hstep]
    exact ⟨_, rfl, hpool,
      Or.inl (.of_found hindex hend hrecords hafter hstill hslot hstored hlog hunique)⟩

end Range

/-! ### Ranges among other calls -/

section Run

variable {config : Config (Call ⊕ RangeCall) Memory}
  {action : Action (Request ⊕ RangeRequest) Empty}

variable (g hasher) in
/-- `UndosBounded` for runs with ranges. -/
def RangesBounded (config : Config (Call ⊕ RangeCall) Memory)
    (action : Action (Request ⊕ RangeRequest) Empty) : Prop :=
  pendingUndos ((rangesMachine g hasher).apply config action).lefts.threads < 2 ^ 64 - g.capacity

instance (config : Config (Call ⊕ RangeCall) Memory)
    (action : Action (Request ⊕ RangeRequest) Empty) :
    Decidable (RangesBounded g hasher config action) :=
  inferInstanceAs (Decidable (_ < _))

/-- No step of a range changes the pool. -/
theorem RangeCall.ofMemory_step (call : RangeCall) (memory : Memory) :
    Pool.ofMemory g (call.step g hasher memory).2 = Pool.ofMemory g memory := by
  unfold RangeCall.step
  cases call.task with
  | returned outcome => rfl
  | running range =>
    simp only [FenceRuntime.readRange, BackendCall.exec_map]
    exact FenceRuntime.ofMemory_exec_read

/-- The invariant of the calls depends on the pool only. -/
theorem Invariant.congr {plain : Config Call Memory} (hinvariant : Invariant g hasher plain)
    {memory : Memory} (hpool : Pool.ofMemory g memory = Pool.ofMemory g plain.shared) :
    Invariant g hasher { plain with shared := memory } := by
  obtain ⟨hreserved, hcontents⟩ := hinvariant
  rw [← hpool] at hreserved hcontents
  exact ⟨hreserved, hcontents⟩

/-- A log that grows gets no shorter. -/
theorem Log.Grows.length_le {log later : Log} (hgrows : log.Grows later) :
    log.length ≤ later.length := by
  by_contra hshorter
  have hplace : later.length < log.length := Nat.lt_of_not_le hshorter
  obtain ⟨after, hafter, -⟩ := hgrows later.length _ (List.getElem?_eq_getElem hplace)
  rw [List.getElem?_eq_none (Nat.le_refl _)] at hafter
  cases hafter

/-- Every action keeps the invariant of the calls, and the log only grows. -/
theorem Invariant.ranges_apply (hinvariant : Invariant g hasher config.lefts)
    (hbounded : RangesBounded g hasher config action) :
    Invariant g hasher ((rangesMachine g hasher).apply config action).lefts ∧
      Extends config.lefts.threads ((rangesMachine g hasher).apply config action).lefts.threads ∧
      (publishedLog g config.shared).Grows
        (publishedLog g ((rangesMachine g hasher).apply config action).shared) := by
  have hshared : ∀ later : Config (Call ⊕ RangeCall) Memory, later.shared = later.lefts.shared :=
    fun _ ↦ rfl
  rw [RangesBounded] at hbounded
  rw [hshared config, hshared ((rangesMachine g hasher).apply config action)]
  rcases @sum_apply_lefts _ _ _ _ _ _ (runtimeMachine g hasher)
    (rangeMachine g hasher) config action
    with hsame | ⟨own, hown⟩ | ⟨index, range, rfl, hrange, hstep⟩
  · rw [rangesMachine, hsame]
    exact ⟨hinvariant, fun _ _ _ hreached ↦ hreached, .refl _⟩
  · rw [rangesMachine, hown] at hbounded ⊢
    exact ⟨hinvariant.apply hbounded,
      (@Invariant.run_extends g hasher _ hinvariant [own] ⟨hbounded, trivial⟩).2,
      (hinvariant.publishedLog_change own).grows⟩
  · have hpool := @RangeCall.ofMemory_step g hasher range config.shared
    rw [rangesMachine, hstep]
    refine ⟨hinvariant.congr hpool, fun _ _ _ hreached ↦ hreached, ?_⟩
    have hsame : publishedLog g ((rangeMachine g hasher).step range config.shared).2 =
        publishedLog g config.shared := congrArg Pool.publishedLog hpool
    show (publishedLog g config.shared).Grows
      (publishedLog g ((rangeMachine g hasher).step range config.shared).2)
    rw [hsame]
    exact .refl _

/-- A run keeps the invariant of the calls, and the log only grows. -/
theorem Invariant.ranges_run (hinvariant : Invariant g hasher config.lefts)
    {schedule : List (Action (Request ⊕ RangeRequest) Empty)}
    (hbounded : (rangesMachine g hasher).Along (RangesBounded g hasher) schedule config) :
    Invariant g hasher ((rangesMachine g hasher).run schedule config).lefts ∧
      (publishedLog g config.shared).Grows
        (publishedLog g ((rangesMachine g hasher).run schedule config).shared) := by
  refine invariant_run (fun reached : Config (Call ⊕ RangeCall) Memory ↦
    Invariant g hasher reached.lefts ∧
      (publishedLog g config.shared).Grows (publishedLog g reached.shared)) ?_ hbounded
    ⟨hinvariant, .refl _⟩
  rintro reached action ⟨hreached, hgrows⟩ haction
  obtain ⟨hlater, -, hmore⟩ := hreached.ranges_apply haction
  exact ⟨hlater, hgrows.trans hmore⟩

/-- After every run a range has come to what the pool showed at moments of the run, each just before
a step of its own. -/
theorem Invariant.follows_of_run (hinvariant : Invariant g hasher config.lefts) {index : ℕ}
    {request : RangeRequest} (hcall : config.threads[index]? = some (.inr request.call))
    {schedule : List (Action (Request ⊕ RangeRequest) Empty)}
    (hbounded : (rangesMachine g hasher).Along (RangesBounded g hasher) schedule config) :
    ∃ (moments : List (List (Action (Request ⊕ RangeRequest) Empty)))
      (task : Task RangePoint (Except FenceError (List Record))),
      ((rangesMachine g hasher).run schedule config).threads[index]? =
        some (.inr ⟨request, task⟩) ∧
      (∀ moment ∈ moments, moment ++ [.step index] <+: schedule) ∧
      moments.Pairwise (fun earlier later ↦ earlier.length < later.length) ∧
      RangeCall.Follows g hasher request
        (Pool.ofMemory g ((rangesMachine g hasher).run schedule config).shared).committedTail
        ((rangesMachine g hasher).run schedule config).lefts.threads
        (moments.map fun moment ↦
          publishedLog g ((rangesMachine g hasher).run moment config).shared) task := by
  induction schedule using List.reverseRecOn with
  | nil =>
    exact ⟨[], request.call.task, hcall, fun moment hmem ↦ (by cases hmem), .nil,
      request.call_follows _ _⟩
  | append_singleton before action ih =>
    rw [along_append] at hbounded
    obtain ⟨hearlier, haction, -⟩ := hbounded
    obtain ⟨moments, task, htask, hmoments, hordered, hfollows⟩ := ih hearlier
    obtain ⟨hreached, -⟩ := hinvariant.ranges_run hearlier
    obtain ⟨-, hextends, hgrows⟩ := hreached.ranges_apply haction
    have htail : (Pool.ofMemory g
        ((rangesMachine g hasher).run before config).shared).committedTail ≤
          (Pool.ofMemory g ((rangesMachine g hasher).apply
            ((rangesMachine g hasher).run before config) action).shared).committedTail := by
      have hlength := hgrows.length_le
      rwa [publishedLog, publishedLog, Pool.length_publishedLog, Pool.length_publishedLog]
        at hlength
    have hlonger : ∀ moment ∈ moments, moment ++ [.step index] <+: before ++ [action] :=
      fun moment hmem ↦ (hmoments moment hmem).trans (List.prefix_append _ _)
    rw [run_append, run_cons, run_nil]
    rcases @getElem?_apply_cases _ _ _ _ (rangesMachine g hasher)
      ((rangesMachine g hasher).run before config) action index with
      hsame | ⟨made, hnone, -⟩ | ⟨thread, rfl, hthread, hmoved⟩
    · exact ⟨moments, task, hsame.trans htask, hlonger, hordered, hfollows.mono hextends htail⟩
    · rw [htask] at hnone
      cases hnone
    · obtain rfl := Option.some.inj (hthread.symm.trans htask)
      obtain ⟨later, hlater, -, hcases⟩ := RangeCall.follows_step hreached.rely
        (fun _ _ _ ↦ hreached.reserved.entry_unique) hfollows
      have hstep : ((rangesMachine g hasher).step (.inr ⟨request, task⟩)
          ((rangesMachine g hasher).run before config).shared).1 = .inr ⟨request, later⟩ :=
        congrArg Sum.inr hlater
      rw [hstep] at hmoved
      rcases hcases with hstay | hdecides
      · exact ⟨moments, later, hmoved, hlonger, hordered, hstay.mono hextends htail⟩
      · refine ⟨moments ++ [before], later, hmoved, ?_, ?_, ?_⟩
        · intro moment hmem
          rcases List.mem_append.mp hmem with hold | hnew
          · exact hlonger moment hold
          · obtain rfl := List.mem_singleton.mp hnew
            exact List.prefix_rfl
        · rw [List.pairwise_append]
          refine ⟨hordered, List.pairwise_singleton _ _, fun moment hold last hnew ↦ ?_⟩
          have hfits := (hmoments moment hold).length_le
          rw [List.length_append, List.length_singleton] at hfits
          rw [List.mem_singleton.mp hnew]
          omega
        · rw [List.map_append]
          exact hdecides.mono hextends htail

end Run

end Fence
