import Fence.Properties.ReserveWrap

/-!
# Recovery while appends are in flight

A recovery decides on a state byte it loaded earlier and then stores the abandoned state without
looking again. When the writer commits in between, an acknowledged record is lost
(`not_acksSurvive_of_recover`). That store is the only way to lose one: in every run in which no
store of the abandoned state hits a committed slot, acknowledged records stay committed and reads
find them (`acks_survive_recovery`).
-/

set_option autoImplicit false
set_option relaxedAutoImplicit false

namespace Fence

open ByteMemory Interleaving

variable {g : PoolGeometry} {hasher : Hasher}

/-- The action does not store the abandoned state into a committed slot. -/
def sparesCommitted (g : PoolGeometry) (config : Config Call Memory)
    (action : Action Request Empty) : Bool :=
  match action with
  | .step index =>
    match config.threads[index]?.bind Call.abandoning with
    | some slot => (Pool.ofMemory g config.shared).state slot != stateCommitted
    | none => true
  | _ => true

/-- Acknowledged records are committed, and no read missed a record. -/
structure AcksSurvive (g : PoolGeometry) (config : Config Call Memory) : Prop where
  committed : ∀ (call : ℕ) (entry : Entry) (index : ℕ),
    config.threads[call]? = some (.append entry (.returned (.ok index))) →
      (Pool.ofMemory g config.shared).state (index - 1) = stateCommitted
  no_missing : ∀ (call : ℕ) (hostId : UInt16) (index : UInt64),
    config.threads[call]? ≠ some (.read hostId index (.returned (.ok none)))

/-! ### Stored slots stay committed -/

/-- Every slot whose committed state was stored is committed. -/
def StoredCommitted (threads : List Call) (pool : Pool) : Prop :=
  ∀ slot entry, Stored threads slot entry → pool.state slot = stateCommitted

section Step

variable {threads : List Call} {pool later : Pool} {index : ℕ} {before after : Call}

/-- A quiet step does not bring a slot to the committed stage. -/
theorem Quiet.stored_before (hquiet : Quiet before after) {slot stage : ℕ} {entry : Entry}
    (hafter : after.reservation = some ⟨slot, entry, stage⟩) (hstage : 9 ≤ stage) :
    ∃ earlier ≥ 9, before.reservation = some ⟨slot, entry, earlier⟩ := by
  rcases hquiet.reservation with hsame | ⟨held, written, first, last, hbefore, hlast, -, -, hcross⟩
  · exact ⟨stage, hstage, hsame ▸ hafter⟩
  · rw [hlast, Option.some.injEq, Reservation.mk.injEq] at hafter
    obtain ⟨rfl, rfl, rfl⟩ := hafter
    exact ⟨first, by omega, hbefore⟩

/-- The only step that brings a slot to the committed stage is the one that commits it. -/
theorem Effect.stored_before (heffect : Effect g hasher threads pool before after later)
    {slot stage : ℕ} {entry : Entry} (hafter : after.reservation = some ⟨slot, entry, stage⟩)
    (hstage : 9 ≤ stage) :
    (∃ earlier ≥ 9, before.reservation = some ⟨slot, entry, earlier⟩) ∨
      later = pool.storeSlot slot recState [stateCommitted] := by
  cases heffect with
  | quiet hquiet => exact Or.inl (hquiet.stored_before hafter hstage)
  | abandon hquiet habandoning hslot hbegun => exact Or.inl (hquiet.stored_before hafter hstage)
  | publish hquiet hpoint hle hcapacity hstored =>
    exact Or.inl (hquiet.stored_before hafter hstage)
  | undo entry slot => simp [Call.reservation, AppendPoint.progress] at hafter
  | reserve written hsize =>
    split_ifs at hafter
    · simp [Call.reservation, AppendPoint.progress] at hafter
    · simp only [Call.reservation, AppendPoint.progress, Option.map_some, Option.some.injEq,
        Reservation.mk.injEq] at hafter
      omega
  | begin written held hslot =>
    simp only [Call.reservation, AppendPoint.progress, Option.map_some, Option.some.injEq,
      Reservation.mk.injEq] at hafter
    omega
  | fill hfield hbefore hlast hlater hbeforeUndo hafterUndo hslot =>
    have hbound := recordFields_stage hfield
    rw [hlast, Option.some.injEq, Reservation.mk.injEq] at hafter
    omega
  | commit written held hslot =>
    simp only [Call.reservation, AppendPoint.progress, Option.map_some, Option.some.injEq,
      Reservation.mk.injEq] at hafter
    obtain ⟨rfl, -, -⟩ := hafter
    exact Or.inr rfl

/-- A step that spares committed slots keeps stored slots committed. -/
theorem StoredCommitted.step (hcommitted : StoredCommitted threads pool)
    (hreserved : Reserved g.capacity 0 threads pool.reserveTail)
    (hbefore : threads[index]? = some before)
    (heffect : Effect g hasher threads pool before after later)
    (hspares : ∀ slot, before.abandoning = some slot → pool.state slot ≠ stateCommitted) :
    StoredCommitted (threads.set index after) later := by
  intro slot entry hstored
  have hearlier : Stored threads slot entry ∨
      later = pool.storeSlot slot recState [stateCommitted] := by
    obtain ⟨call, hmem, stage, hstage, hreservation⟩ := hstored
    revert hreservation
    refine forall_mem_set (fun call ↦ call.reservation = some ⟨slot, entry, stage⟩ →
      Stored threads slot entry ∨ later = pool.storeSlot slot recState [stateCommitted])
      hbefore ?_ ?_ call hmem
    · intro hafter
      rcases heffect.stored_before hafter hstage with ⟨earlier, hearlier, hheld⟩ | hcommit
      · exact Or.inl ⟨before, List.mem_of_getElem? hbefore, earlier, hearlier, hheld⟩
      · exact Or.inr hcommit
    · intro other call _ hcall hreservation
      exact Or.inl ⟨call, List.mem_of_getElem? hcall, stage, hstage, hreservation⟩
  rcases hearlier with hearlier | hcommit
  · have hstate := hcommitted slot entry hearlier
    rcases heffect.state_cases slot with hsame | ⟨-, written, rfl⟩ | ⟨hcommit, -⟩ |
      ⟨-, habandoning, -⟩
    · exact hsame.trans hstate
    · -- the slot that begins now is not the stored one
      have := (hreserved.reached_eq hbefore rfl hearlier).2
      omega
    · exact hcommit
    · exact absurd hstate (hspares slot habandoning)
  · rw [hcommit]
    exact pool.state_storeSlot_self slot stateCommitted

end Step

/-! ### Reads find stored records -/

/-- A read misses a record only when it finds a state that is not committed. -/
theorem FenceRuntime.read_none {hostId : UInt16} {index : ℕ} {point : ReadPoint} {memory : Memory}
    (hnone : ((FenceRuntime.read g hasher hostId index point).exec memory).1 =
      .returned (.ok none)) :
    ∃ slot, point = .loadState slot ∧ memory (g.recordOffset slot + recState) ≠ stateCommitted := by
  have hcheck : ∀ term storedIndex writerId data storedChecksum,
      checkRead hasher term storedIndex writerId data storedChecksum ≠ .returned (.ok none) := by
    intro term storedIndex writerId data storedChecksum
    unfold checkRead
    split_ifs <;> simp
  cases point with
  | loadState slot =>
    refine ⟨slot, rfl, fun hcommitted ↦ ?_⟩
    simp [FenceRuntime.read, BackendCall.exec, hcommitted] at hnone
  | loadTail =>
    simp only [FenceRuntime.read, BackendCall.exec] at hnone
    split_ifs at hnone
    cases hnone
  | loadChecksum slot term storedIndex writerId dataLen =>
    simp only [FenceRuntime.read, BackendCall.exec] at hnone
    split_ifs at hnone
    exact absurd hnone (hcheck _ _ _ _ _)
  | readPayload slot term storedIndex writerId payloadLen storedChecksum =>
    exact absurd hnone (hcheck _ _ _ _ _)
  | _ => simp [FenceRuntime.read, BackendCall.exec, Metrics.incrementChecksumFailures,
      Metrics.incrementReads, Metrics.incrementCounter] at hnone

/-- The read has missed its record. -/
def Call.Missed : Call → Prop
  | .read _ _ (.returned (.ok none)) => True
  | _ => False

/-- While stored slots are committed, no step makes a read miss its record. -/
theorem Call.Missed.of_step {call : Call} {threads : List Call} {memory : Memory}
    (hcommitted : StoredCommitted threads (Pool.ofMemory g memory))
    (hrely : Rely g hasher threads (Pool.ofMemory g memory))
    (hsound : call.Sound g hasher (Pool.ofMemory g memory).committedTail threads)
    (hmissed : (call.step g hasher memory).1.Missed) : call.Missed := by
  match call with
  | .read hostId index (.running point) =>
    rw [Call.step_read] at hmissed
    cases hnext : ((FenceRuntime.read g hasher hostId index.toNat point).exec memory).1 with
    | running next =>
      rw [hnext] at hmissed
      exact hmissed.elim
    | returned result =>
      rw [hnext] at hmissed
      match result with
      | .error error => exact hmissed.elim
      | .ok (some record) => exact hmissed.elim
      | .ok none =>
        obtain ⟨slot, rfl, hstate⟩ := FenceRuntime.read_none hnext
        obtain ⟨-, htail⟩ := hsound
        obtain ⟨entry, hstored⟩ := hrely.stored_of_lt_tail slot htail
        have hslot := (hrely.complete_of_stored slot entry hstored).1
        exact absurd ((load_state hslot).trans (hcommitted slot entry hstored)) hstate
  | .append entry (.running point) =>
    rw [Call.step_append] at hmissed
    exact hmissed.elim
  | .trim upTo (.running point) =>
    rw [Call.step_trim] at hmissed
    exact hmissed.elim
  | .recover hostId (.running point) =>
    rw [Call.step_recover] at hmissed
    exact hmissed.elim
  | .append _ (.returned _) => exact hmissed
  | .read _ _ (.returned _) => exact hmissed
  | .trim _ (.returned _) => exact hmissed
  | .recover _ (.returned _) => exact hmissed

/-! ### The theorem -/

/-- Stored slots are committed and no read has missed its record. -/
structure Surviving (g : PoolGeometry) (hasher : Hasher) (config : Config Call Memory) :
    Prop where
  invariant : Invariant g hasher config
  committed : StoredCommitted config.threads (Pool.ofMemory g config.shared)
  none_missed : ∀ call ∈ config.threads, ¬ call.Missed

theorem sparesCommitted_step {config : Config Call Memory} {index : ℕ} {call : Call}
    (hspares : sparesCommitted g config (.step index) = true)
    (hcall : config.threads[index]? = some call) {slot : ℕ}
    (habandoning : call.abandoning = some slot) :
    (Pool.ofMemory g config.shared).state slot ≠ stateCommitted := by
  simp only [sparesCommitted, hcall, Option.bind_some, habandoning] at hspares
  exact bne_iff_ne.mp hspares

theorem Surviving.apply {config : Config Call Memory} (hsurviving : Surviving g hasher config)
    {action : Action Request Empty}
    (hcondition : UndosBounded g hasher config action ∧ sparesCommitted g config action = true) :
    Surviving g hasher ((runtimeMachine g hasher).apply config action) := by
  obtain ⟨hbounded, hspares⟩ := hcondition
  have hinvariant := hsurviving.invariant.apply hbounded
  cases action with
  | env event => exact event.elim
  | start request =>
    refine ⟨hinvariant, ?_, ?_⟩
    · rintro slot entry ⟨call, hmem, stage, hstage, hreservation⟩
      rcases List.mem_append.mp hmem with hold | hnew
      · exact hsurviving.committed slot entry ⟨call, hold, stage, hstage, hreservation⟩
      · obtain rfl := List.mem_singleton.mp hnew
        have hnone := (request.call_reservation (g := g)).1
        exact absurd (hnone.symm.trans hreservation) (by simp)
    · intro call hmem hmissed
      rcases List.mem_append.mp hmem with hold | hnew
      · exact hsurviving.none_missed call hold hmissed
      · obtain rfl := List.mem_singleton.mp hnew
        cases request with
        | read hostId index =>
          simp only [runtimeMachine, Request.call, startRead] at hmissed
          split_ifs at hmissed <;> exact hmissed
        | append entry => exact hmissed
        | trim upTo => exact hmissed
        | recover hostId => exact hmissed
  | step index =>
    cases hcall : config.threads[index]? with
    | none => rwa [apply_step_of_none _ hcall]
    | some call =>
      have hsound := hsurviving.invariant.contents.sound call (List.mem_of_getElem? hcall)
      rw [apply_step_of_getElem? _ hcall] at hinvariant ⊢
      refine ⟨hinvariant, ?_, ?_⟩
      · exact hsurviving.committed.step hsurviving.invariant.reserved hcall
          (hsurviving.invariant.stepSpec hcall).1
          fun slot habandoning ↦ sparesCommitted_step hspares hcall habandoning
      · refine forall_mem_set (fun call ↦ ¬ call.Missed) hcall ?_ fun _ other _ hother ↦
          hsurviving.none_missed other (List.mem_of_getElem? hother)
        exact fun hmissed ↦ hsurviving.none_missed call (List.mem_of_getElem? hcall)
          (hmissed.of_step hsurviving.committed hsurviving.invariant.rely hsound)

theorem Surviving.acksSurvive {config : Config Call Memory}
    (hsurviving : Surviving g hasher config) : AcksSurvive g config where
  committed := by
    intro call entry index hcall
    exact hsurviving.committed _ entry ⟨_, List.mem_of_getElem? hcall, 13, by decide, rfl⟩
  no_missing := by
    intro call hostId index hcall
    exact hsurviving.none_missed _ (List.mem_of_getElem? hcall) trivial

/-- Acknowledged records survive every run, recoveries included, in which no store of the
abandoned state hits a committed slot and the pending undos stay bounded. -/
theorem acks_survive_recovery {schedule : List (Action Request Empty)}
    (hcondition : (runtimeMachine g hasher).Along (fun config action ↦
      UndosBounded g hasher config action ∧ sparesCommitted g config action = true) schedule
      (freshConfig g)) :
    AcksSurvive g ((runtimeMachine g hasher).run schedule (freshConfig g)) :=
  (invariant_run (Surviving g hasher) (fun _ _ hsurviving hmet ↦ hsurviving.apply hmet) hcondition
    { invariant := Invariant.fresh
      committed := by rintro slot entry ⟨call, hmem, -⟩; cases hmem
      none_missed := by intro call hmem; cases hmem }).acksSurvive

/-- A recovery that marks a slot abandoned before its writer commits it. -/
theorem acks_survive_recovery_onePool :
    AcksSurvive onePool ((runtimeMachine onePool crc32fast).run
      (alone (.append firstEntry) 0 9 ++ alone (.recover 0) 1 3 ++ List.replicate 7 (.step 0))
      (freshConfig onePool)) :=
  acks_survive_recovery (by decide +kernel)

/-- The recovery loads the state of a slot being written, and stores the abandoned state after
the writer returned. -/
theorem not_acksSurvive_of_recover :
    ¬ AcksSurvive onePool ((runtimeMachine onePool crc32fast).run
      (alone (.append firstEntry) 0 9 ++ alone (.recover 0) 1 2 ++ List.replicate 7 (.step 0) ++
        [.step 1]) (freshConfig onePool)) := fun hsurvive ↦
  absurd (hsurvive.committed 0 firstEntry 1 (by decide +kernel)) (by decide +kernel)

end Fence
