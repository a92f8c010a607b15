import Fence.Protocol.ReadMoments
import Fence.Properties.ReserveWrap

/-!
# Reads are atomic on the published log

The committed prefix of a pool behaves as one log however calls interleave: it starts empty, every
action publishes entries at its end or marks one, and every entry is that of one append, which no
other append shares (`published_log_of_run`). Every read returns what that log answers at one step
of the read itself (`read_linearizes`), although it takes up to nine steps in which the slot can be
marked. Since the log only grows, a read that begins after another one has returned never goes back
(`later_read_of_read`).
-/

set_option autoImplicit false
set_option relaxedAutoImplicit false

namespace Fence

open ByteMemory Interleaving

variable {g : PoolGeometry} {hasher : Hasher}

/-- The published log of a pool just created is empty, every action of a run publishes entries at
its end or marks one entry, and every entry is that of the one append that holds its slot. -/
theorem published_log_of_run {schedule : List (Action Request Empty)}
    (hbounded : (runtimeMachine g hasher).Along (UndosBounded g hasher) schedule
      (freshConfig g)) :
    publishedLog g (freshMemory g) = [] ∧
      (∀ before action after, schedule = before ++ action :: after →
        (publishedLog g ((runtimeMachine g hasher).run before (freshConfig g)).shared).Change
          (publishedLog g
            ((runtimeMachine g hasher).run (before ++ [action]) (freshConfig g)).shared)) ∧
      ∀ (slot : ℕ) (item : LogEntry),
        (publishedLog g ((runtimeMachine g hasher).run schedule (freshConfig g)).shared)[slot]? =
            some item →
          .start (.append item.entry) ∈ schedule ∧ ∃ writer,
            Writes ((runtimeMachine g hasher).run schedule (freshConfig g)).threads writer slot
              item.entry ∧
            ∀ other, Holds ((runtimeMachine g hasher).run schedule (freshConfig g)).threads other
              slot → other = writer := by
  refine ⟨publishedLog_freshMemory, ?_, ?_⟩
  · rintro before action after rfl
    rw [run_append]
    exact (invariant_of_run (along_append.mp hbounded).1).publishedLog_change action
  · intro slot item hitem
    have hinvariant := invariant_of_run hbounded
    obtain ⟨call, hmem, stage, -, hreservation⟩ := hinvariant.rely.entry_of_published hitem
    obtain ⟨writer, hwriter⟩ := List.mem_iff_getElem?.mp hmem
    refine ⟨?_, writer, ⟨call, stage, hwriter, hreservation⟩, fun other hother ↦
      hinvariant.reserved.exclusive _ _ _ hother (holds_of_reservation hwriter hreservation)⟩
    have hstarted := start_mem_of_mem_run Call.request Request.request_call Call.request_step
      (rfl : (freshConfig g).threads = []) call hmem
    rwa [call.request_of_reservation hreservation] at hstarted

/-- A run of an append that publishes its entry. -/
def appendAlone : List (Action Request Empty) := alone (.append firstEntry) 0 16

theorem published_log_of_run_twoPool :
    publishedLog twoPool (freshMemory twoPool) = [] ∧
      (∀ before action after, appendAlone = before ++ action :: after →
        (publishedLog twoPool
          ((runtimeMachine twoPool crc32fast).run before (freshConfig twoPool)).shared).Change
          (publishedLog twoPool ((runtimeMachine twoPool crc32fast).run (before ++ [action])
            (freshConfig twoPool)).shared)) ∧
      ∀ (slot : ℕ) (item : LogEntry), (publishedLog twoPool ((runtimeMachine twoPool crc32fast).run
          appendAlone (freshConfig twoPool)).shared)[slot]? = some item →
        .start (.append item.entry) ∈ appendAlone ∧ ∃ writer,
          Writes ((runtimeMachine twoPool crc32fast).run appendAlone
            (freshConfig twoPool)).threads writer slot item.entry ∧
          ∀ other, Holds ((runtimeMachine twoPool crc32fast).run appendAlone
            (freshConfig twoPool)).threads other slot → other = writer :=
  published_log_of_run (by decide +kernel)

/-! ### One read -/

/-- A read that began after the first part of a run and has returned did so with what the published
log answered at a step of its own after that part. -/
theorem exists_moment_of_read {first second : List (Action Request Empty)}
    (hbounded : (runtimeMachine g hasher).Along (UndosBounded g hasher) (first ++ second)
      (freshConfig g))
    {index : ℕ} (hindex : ((runtimeMachine g hasher).run first (freshConfig g)).threads.length ≤
      index)
    {hostId : UInt16} {readIndex : UInt64} {outcome : Except FenceError (Option Record)}
    (hreturned : ((runtimeMachine g hasher).run (first ++ second) (freshConfig g)).threads[index]? =
      some (.read hostId readIndex (.returned outcome))) :
    ∃ before after point, second = before ++ .step index :: after ∧
      ((runtimeMachine g hasher).run (first ++ before) (freshConfig g)).threads[index]? =
        some (.read hostId readIndex (.running point)) ∧
      outcome = (publishedLog g ((runtimeMachine g hasher).run (first ++ before)
        (freshConfig g)).shared).read readIndex.toNat := by
  obtain ⟨before, after, call, rfl, hcall, hbefore, hdecided⟩ := exists_entering_step_after
    (runtimeMachine g hasher) Call.Decided
    (fun request ↦ request.not_decided) hindex hreturned trivial
  rw [← List.append_assoc] at hbounded hreturned
  obtain ⟨hfirst, hrest⟩ := along_append.mp hbounded
  rw [run_append] at hreturned
  obtain ⟨⟨point, rfl⟩, houtcome⟩ := (invariant_of_run hfirst).outcome_eq_of_decides hrest hcall
    hbefore hdecided hreturned
  exact ⟨before, after, point, rfl, hcall, houtcome⟩

/-- A read that has returned did so with what the published log answered at one of its steps. -/
theorem read_linearizes {schedule : List (Action Request Empty)}
    (hbounded : (runtimeMachine g hasher).Along (UndosBounded g hasher) schedule
      (freshConfig g))
    {index : ℕ} {hostId : UInt16} {readIndex : UInt64}
    {outcome : Except FenceError (Option Record)}
    (hreturned : ((runtimeMachine g hasher).run schedule (freshConfig g)).threads[index]? =
      some (.read hostId readIndex (.returned outcome))) :
    ∃ before after point, schedule = before ++ .step index :: after ∧
      ((runtimeMachine g hasher).run before (freshConfig g)).threads[index]? =
        some (.read hostId readIndex (.running point)) ∧
      outcome = (publishedLog g ((runtimeMachine g hasher).run before (freshConfig g)).shared).read
        readIndex.toNat :=
  @exists_moment_of_read g hasher [] schedule hbounded index (Nat.zero_le _) hostId readIndex
    outcome hreturned

/-- A run in which a read decides before the trim behind it marks its entry. -/
theorem read_linearizes_twoPool :
    ∃ before after point,
      (alone (.append firstEntry) 0 16 ++ alone (.read 0 1) 1 3 ++ alone (.trim 1) 2 4 ++
        List.replicate 9 (.step 1) : List (Action Request Empty)) =
        before ++ .step 1 :: after ∧
      ((runtimeMachine twoPool crc32fast).run before (freshConfig twoPool)).threads[1]? =
        some (.read 0 1 (.running point)) ∧
      .ok (some (firstEntry.record 0)) = (publishedLog twoPool
        ((runtimeMachine twoPool crc32fast).run before (freshConfig twoPool)).shared).read
          (1 : UInt64).toNat :=
  read_linearizes (by decide +kernel) (by decide +kernel)

/-! ### Reads that follow one another -/

/-- The log that answered a read that began after the first part of a run has grown from the log at
the end of that part. -/
theorem read_decides_after {first second : List (Action Request Empty)}
    (hbounded : (runtimeMachine g hasher).Along (UndosBounded g hasher) (first ++ second)
      (freshConfig g))
    {index : ℕ} (hindex : ((runtimeMachine g hasher).run first (freshConfig g)).threads.length ≤
      index)
    {hostId : UInt16} {readIndex : UInt64} {outcome : Except FenceError (Option Record)}
    (hreturned : ((runtimeMachine g hasher).run (first ++ second) (freshConfig g)).threads[index]? =
      some (.read hostId readIndex (.returned outcome))) :
    ∃ log : Log,
      (publishedLog g ((runtimeMachine g hasher).run first (freshConfig g)).shared).Grows log ∧
      outcome = log.read readIndex.toNat := by
  obtain ⟨before, after, point, rfl, -, houtcome⟩ :=
    exists_moment_of_read hbounded hindex hreturned
  rw [← List.append_assoc] at hbounded
  obtain ⟨hstart, hbetween⟩ := along_append.mp (along_append.mp hbounded).1
  refine ⟨_, ?_, houtcome⟩
  rw [run_append]
  exact (invariant_of_run hstart).publishedLog_grows hbetween

/-- A read that begins after another one has returned does not go back: an index up to that of a
read in bounds is in bounds, and the same index has the same record, or has been trimmed. -/
theorem later_read_of_read {first second : List (Action Request Empty)}
    (hbounded : (runtimeMachine g hasher).Along (UndosBounded g hasher) (first ++ second)
      (freshConfig g))
    {index later : ℕ} {hostId laterHost : UInt16} {readIndex laterIndex : UInt64}
    {record : Option Record} {outcome : Except FenceError (Option Record)}
    (hreturned : ((runtimeMachine g hasher).run first (freshConfig g)).threads[index]? =
      some (.read hostId readIndex (.returned (.ok record))))
    (hlater : ((runtimeMachine g hasher).run first (freshConfig g)).threads.length ≤ later)
    (houtcome : ((runtimeMachine g hasher).run (first ++ second) (freshConfig g)).threads[later]? =
      some (.read laterHost laterIndex (.returned outcome)))
    (hpos : 0 < laterIndex.toNat) (hle : laterIndex.toNat ≤ readIndex.toNat) :
    ∃ found, outcome = .ok found ∧
      (laterIndex.toNat = readIndex.toNat → found = record ∨ found = none) := by
  obtain ⟨before, after, point, rfl, -, hread⟩ := @exists_moment_of_read g hasher [] _
    (along_append.mp hbounded).1 _ (Nat.zero_le _) _ _ _ hreturned
  obtain ⟨log, hgrows, rfl⟩ := read_decides_after hbounded hlater houtcome
  obtain ⟨hfirst, hrest⟩ := along_append.mp (along_append.mp hbounded).1
  have hbetween := (invariant_of_run hfirst).publishedLog_grows hrest
  rw [← run_append] at hbetween
  exact (hbetween.trans hgrows).read hread.symm hpos hle

/-- Two reads of one entry, with a trim between them. -/
theorem later_read_of_read_twoPool :
    ∃ found, (Except.ok none : Except FenceError (Option Record)) = .ok found ∧
      ((1 : UInt64).toNat = (1 : UInt64).toNat →
        found = some (firstEntry.record 0) ∨ found = none) :=
  later_read_of_read (g := twoPool)
    (by decide +kernel : (runtimeMachine twoPool crc32fast).Along (UndosBounded twoPool crc32fast)
      ((alone (.append firstEntry) 0 16 ++ alone (.read 0 1) 1 12) ++
        (alone (.trim 1) 2 4 ++ alone (.read 0 1) 3 12)) (freshConfig twoPool))
    (by decide +kernel : ((runtimeMachine twoPool crc32fast).run
      (alone (.append firstEntry) 0 16 ++ alone (.read 0 1) 1 12)
      (freshConfig twoPool)).threads[1]? =
        some (.read 0 1 (.returned (.ok (some (firstEntry.record 0))))))
    (by decide +kernel : _ ≤ 3)
    (by decide +kernel : ((runtimeMachine twoPool crc32fast).run
      ((alone (.append firstEntry) 0 16 ++ alone (.read 0 1) 1 12) ++
        (alone (.trim 1) 2 4 ++ alone (.read 0 1) 3 12)) (freshConfig twoPool)).threads[3]? =
        some (.read 0 1 (.returned (.ok none))))
    (by decide) (by decide)

end Fence
