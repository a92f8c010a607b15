import Fence.Protocol.RecoveryReport

/-!
# Recovery is confluent

Any number of recoveries on an arbitrary memory, interleaved step by step, each of which may stop
for good. A recovery that returned has marked every torn slot and seen the final tail, which
determines the memory. Whatever recoveries run later find nothing to do.
-/

set_option autoImplicit false
set_option relaxedAutoImplicit false

namespace Fence

open ByteMemory FirstGap Interleaving

variable {g : PoolGeometry} {hasher : Hasher} {start memory : Memory}

/-! ### Any number of recoveries -/

/-- Every recovery in flight has done what its point says. -/
structure Recovering (g : PoolGeometry) (hasher : Hasher) (start : Memory)
    (config : Config (Task RecoverPoint RecoveryReport) Memory) : Prop where
  between : Between g hasher start config.shared
  tasks : ∀ task ∈ config.threads, RecoverPoint.InvTask g hasher start config.shared task

section Config

variable {config : Config (Task RecoverPoint RecoveryReport) Memory}

/-- A step of one recovery. -/
theorem RecoverPoint.InvTask.step (hbetween : Between g hasher start memory)
    {task : Task RecoverPoint RecoveryReport}
    (hinv : RecoverPoint.InvTask g hasher start memory task) :
    Between g hasher start ((recoverMachine g hasher).step task memory).2 ∧
      Keeps g hasher start memory ((recoverMachine g hasher).step task memory).2 ∧
      RecoverPoint.InvTask g hasher start ((recoverMachine g hasher).step task memory).2
        ((recoverMachine g hasher).step task memory).1 := by
  match task with
  | .running point => exact Recovery.recover_inv hbetween hinv
  | .returned report => exact ⟨hbetween, Keeps.refl _, hinv⟩

theorem Recovering.apply (hrecovering : Recovering g hasher start config)
    (action : Action Unit Empty) :
    Recovering g hasher start ((recoverMachine g hasher).apply config action) := by
  cases action with
  | env event => exact event.elim
  | start request =>
    refine ⟨hrecovering.between, fun task hmem ↦ ?_⟩
    rcases List.mem_append.mp hmem with hold | hnew
    · exact hrecovering.tasks task hold
    · obtain rfl := List.mem_singleton.mp hnew
      trivial
  | step index =>
    cases htask : config.threads[index]? with
    | none => rwa [apply_step_of_none _ htask]
    | some task =>
      rw [apply_step_of_getElem? _ htask]
      obtain ⟨hbetween, hkeeps, hinv⟩ := RecoverPoint.InvTask.step hrecovering.between
        (hrecovering.tasks task (List.mem_of_getElem? htask))
      exact ⟨hbetween, forall_mem_set _ htask hinv fun _ other _ hother ↦
        (hrecovering.tasks other (List.mem_of_getElem? hother)).mono hkeeps⟩

theorem Recovering.run (hrecovering : Recovering g hasher start config)
    (schedule : List (Action Unit Empty)) :
    Recovering g hasher start ((recoverMachine g hasher).run schedule config) :=
  invariant_run_always (Recovering g hasher start)
    (fun _ action hinvariant ↦ hinvariant.apply action) schedule hrecovering

theorem Recovering.initial (start : Memory) :
    Recovering g hasher start ⟨start, []⟩ :=
  ⟨Between.refl start, fun task hmem ↦ by cases hmem⟩

/-- Once a recovery has returned, the memory is the final one. -/
theorem Recovering.recovered (hrecovering : Recovering g hasher start config)
    {report : RecoveryReport} (hreport : .returned report ∈ config.threads) :
    Recovered g hasher start config.shared ∧
      report.committedTail = loadWord config.shared hdrCommittedTail 8 := by
  obtain ⟨hmarked, -, htail, hfinal⟩ := hrecovering.tasks _ hreport
  exact ⟨⟨hrecovering.between, hmarked, hfinal⟩, htail.trans hfinal.symm⟩

/-- A returned recovery stays returned. -/
theorem returned_mem_run {report : RecoveryReport} (hreport : .returned report ∈ config.threads)
    (schedule : List (Action Unit Empty)) :
    .returned report ∈ ((recoverMachine g hasher).run schedule config).threads := by
  obtain ⟨index, hindex⟩ := List.mem_iff_getElem?.mp hreport
  refine List.mem_of_getElem? (i := index) ?_
  refine invariant_run_always (fun config : Config (Task RecoverPoint RecoveryReport) Memory ↦
    config.threads[index]? = some (.returned report)) ?_
    schedule hindex
  intro config action hindex
  obtain ⟨hlt, -⟩ := List.getElem?_eq_some_iff.mp hindex
  cases action with
  | env event => exact event.elim
  | start request => rw [← hindex]; exact List.getElem?_append_left hlt
  | step other =>
    cases htask : config.threads[other]? with
    | none => rwa [apply_step_of_none _ htask]
    | some task =>
      rw [apply_step_of_getElem? _ htask]
      by_cases hsame : other = index
      · subst hsame
        rw [hindex, Option.some.injEq] at htask
        subst htask
        exact List.getElem?_set_self hlt
      · exact (List.getElem?_set_ne hsame).trans hindex

end Config

/-- A recovered memory has no torn slots. -/
theorem Recovered.not_torn (hrecovered : Recovered g hasher start memory) (slot : ℕ) :
    ¬ Torn g hasher memory slot := by
  rintro ⟨hclaimed, hfree, habandoned, hchecksum⟩
  rw [hrecovered.between.claimedSlots_eq] at hclaimed
  have hslot : slot < g.capacity := Nat.lt_of_lt_of_le hclaimed (Nat.min_le_right _ _)
  by_cases htorn : Torn g hasher start slot
  · exact habandoned (hrecovered.marked slot hclaimed htorn)
  · rcases hrecovered.between.state slot hslot with hsame | ⟨htorn', -⟩
    · rw [hsame] at hfree habandoned hchecksum
      rw [hrecovered.between.checksumOk_eq hslot] at hchecksum
      exact htorn ⟨hclaimed, hfree, habandoned, hchecksum⟩
    · exact htorn htorn'

section Settled

variable {config : Config (Task RecoverPoint RecoveryReport) Memory}

/-- A configuration in which some recovery has returned, and what the calls started since then
do. -/
structure Settled (g : PoolGeometry) (hasher : Hasher) (start final : Memory) (first : ℕ)
    (config : Config (Task RecoverPoint RecoveryReport) Memory) : Prop where
  recovering : Recovering g hasher start config
  returned : ∃ report, .returned report ∈ config.threads
  later : ∀ index task, first ≤ index → config.threads[index]? = some task →
    RecoverPoint.InvTask g hasher final final task

theorem Settled.shared_eq {final : Memory} {first : ℕ}
    (hsettled : Settled g hasher start final first config)
    (hfinal : Recovered g hasher start final) : config.shared = final := by
  obtain ⟨report, hreport⟩ := hsettled.returned
  exact (hsettled.recovering.recovered hreport).1.unique hfinal

theorem Settled.apply {final : Memory} {first : ℕ}
    (hsettled : Settled g hasher start final first config)
    (hfinal : Recovered g hasher start final) (action : Action Unit Empty) :
    Settled g hasher start final first ((recoverMachine g hasher).apply config action) where
  recovering := hsettled.recovering.apply action
  returned := by
    obtain ⟨report, hreport⟩ := hsettled.returned
    exact ⟨report, returned_mem_run hreport [action]⟩
  later := by
    have hshared := hsettled.shared_eq hfinal
    intro index task hindex htask
    cases action with
    | env event => exact event.elim
    | start request =>
      by_cases hold : index < config.threads.length
      · rw [Machine.apply, List.getElem?_append_left hold] at htask
        exact hsettled.later index task hindex htask
      · rw [Machine.apply, List.getElem?_append_right (Nat.le_of_not_lt hold)] at htask
        obtain rfl := List.mem_singleton.mp (List.mem_of_getElem? htask)
        trivial
    | step other =>
      cases hother : config.threads[other]? with
      | none =>
        rw [apply_step_of_none _ hother] at htask
        exact hsettled.later index task hindex htask
      | some stepped =>
        rw [apply_step_of_getElem? _ hother] at htask
        by_cases hsame : other = index
        · subst hsame
          obtain ⟨hlt, -⟩ := List.getElem?_eq_some_iff.mp hother
          rw [List.getElem?_set_self hlt, Option.some.injEq] at htask
          have hbefore := hsettled.later other stepped hindex hother
          have hstep := RecoverPoint.InvTask.step (Between.refl final) hbefore
          -- the memory stays final, so the step leaves the task with what is true of it there
          have hkept := (hsettled.recovering.apply (.step other)).recovered
            (returned_mem_run hsettled.returned.choose_spec [.step other])
          rw [apply_step_of_getElem? _ hother] at hkept
          have hmemory := hkept.1.unique hfinal
          rw [hshared] at hmemory htask
          rw [← htask]
          have hinv := hstep.2.2
          simp only at hmemory
          rwa [hmemory] at hinv
        · rw [List.getElem?_set_ne hsame] at htask
          exact hsettled.later index task hindex htask

end Settled

/-- Recovery is confluent, on every memory and under every schedule in which some call returns:
the memory is the one that one uninterrupted recovery produces, every report has its committed
tail, and whatever recoveries run later return, change nothing and find nothing to abandon. -/
theorem recovery_confluent {schedule : List (Action Unit Empty)}
    (hreturned : ∃ report, .returned report ∈
      ((recoverMachine g hasher).run schedule ⟨start, []⟩).threads) :
    let config := (recoverMachine g hasher).run schedule ⟨start, []⟩
    (∃ count report, (recoverMachine g hasher).solo count ((recoverMachine g hasher).start ())
      start = (.returned report, config.shared)) ∧
    (∀ report, .returned report ∈ config.threads →
      report.committedTail = loadWord config.shared hdrCommittedTail 8) ∧
    (∃ count report, (recoverMachine g hasher).solo count ((recoverMachine g hasher).start ())
      config.shared = (.returned report, config.shared)) ∧
    ∀ later, ((recoverMachine g hasher).run later config).shared = config.shared ∧
      ∀ index report, config.threads.length ≤ index →
        ((recoverMachine g hasher).run later config).threads[index]? = some (.returned report) →
          report.abandonedCount = 0 := by
  intro config
  obtain ⟨report, hreport⟩ := hreturned
  have hrecovering : Recovering g hasher start config := (Recovering.initial start).run schedule
  have hrecovered := (hrecovering.recovered hreport).1
  have hsettled : Settled g hasher start config.shared config.threads.length config :=
    { recovering := hrecovering
      returned := ⟨report, hreport⟩
      later := by
        intro index task hindex htask
        rw [List.getElem?_eq_none hindex] at htask
        cases htask }
  have hlater : ∀ later, Settled g hasher start config.shared config.threads.length
      ((recoverMachine g hasher).run later config) := fun later ↦
    invariant_run_always (Settled g hasher start config.shared config.threads.length)
      (fun _ action hinvariant ↦ hinvariant.apply hrecovered action) later hsettled
  refine ⟨?_, fun report hreport ↦ (hrecovering.recovered hreport).2, ?_, fun later ↦
    ⟨(hlater later).shared_eq hrecovered, fun index report hindex hreport ↦ ?_⟩⟩
  · obtain ⟨memory, ⟨count, hsolo⟩, hmemory⟩ := exists_recovered_report g hasher start
    exact ⟨count, _, by rw [hsolo, hmemory.unique hrecovered]⟩
  · obtain ⟨memory, ⟨count, hsolo⟩, -⟩ := exists_recovered_report g hasher config.shared
    have halone : (recoverMachine g hasher).run _ config = _ := run_alone () count config
    have hshared := (hlater (alone () config.threads.length count)).shared_eq hrecovered
    rw [halone, hsolo] at hshared
    exact ⟨count, _, hsolo.trans (congrArg _ hshared)⟩
  · obtain ⟨-, hclean, -⟩ := (hlater later).later index _ hindex hreport
    exact hclean hrecovered.not_torn

/-- A memory with one slot being written, one of unknown state, and both claimed. -/
def tornMemory : Memory :=
  storeWord (store (store (fun _ ↦ 0) (twoPool.recordOffset 0 + recState) [stateWriting])
    (twoPool.recordOffset 1 + recState) [9]) hdrReserveTail 8 2

/-- Two recoveries of such a memory, one of which stops after marking the first slot. -/
theorem recovery_confluent_tornMemory :
    ∃ count report, (recoverMachine twoPool crc32fast).solo count
      ((recoverMachine twoPool crc32fast).start ()) tornMemory =
        (.returned report, ((recoverMachine twoPool crc32fast).run
          (alone () 0 3 ++ alone () 1 9) ⟨tornMemory, []⟩).shared) :=
  (recovery_confluent ⟨⟨1, 0, 2⟩, by decide +kernel⟩).1

end Fence
