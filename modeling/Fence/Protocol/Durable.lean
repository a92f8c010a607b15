import Fence.Protocol.Trimmed
import Fence.Runtime.CachedEngine

/-!
# What has reached the media

At every moment a byte of the media is what the cache held at some earlier moment. `Persisted`
says what follows for the records: once an append has flushed its record, the record is complete
on the media; a committed state byte on the media is that of an append that has stored it; and
once an append has flushed its state byte, the media has it committed or abandoned. A record
shares its lines with its neighbours, so every step may bring more bytes of every record to the
media. The invariant allows for that: it asks of the media only what the cache has held ever
since (`Persisted.mix`).
-/

set_option autoImplicit false
set_option relaxedAutoImplicit false

namespace Fence

open ByteMemory Interleaving

variable {g : PoolGeometry} {hasher : Hasher}

/-! ### Mixed memories -/

/-- Every byte of the later memory is that of one of two others. -/
def Mixes (first second later : Memory) : Prop :=
  ∀ address, later address = first address ∨ later address = second address

theorem Mixes.slot {first second later : Memory} (hmixes : Mixes first second later)
    (slot offset : ℕ) :
    (Pool.ofMemory g later).slot slot offset = (Pool.ofMemory g first).slot slot offset ∨
      (Pool.ofMemory g later).slot slot offset = (Pool.ofMemory g second).slot slot offset := by
  unfold Pool.ofMemory
  dsimp only
  split_ifs
  · exact hmixes _
  · exact Or.inl rfl

/-- A mix of two records that both have the fields of an entry has them too. -/
theorem Written.mix {entry : Entry} {slot stage : ℕ} {first second later : Memory}
    (hfirst : Written hasher entry slot stage first)
    (hsecond : Written hasher entry slot stage second) (hmixes : Mixes first second later) :
    Written hasher entry slot stage later := by
  intro field hfield hstage
  have hleft := hfirst field hfield hstage
  have hright := hsecond field hfield hstage
  refine Eq.trans (load_congr fun i hi ↦ ?_) hleft
  rcases hmixes (field.offset + i) with hsame | hsame
  · exact hsame
  · rw [hsame]
    exact eq_of_load_eq (hright.trans hleft.symm) hi

/-! ### Stages and steps -/

section Stages

variable {threads : List Call} {pool later : Pool} {before after : Call}

/-- An append gets past its first flush, or past its second one, only by that flush. -/
theorem Effect.stage_le (heffect : Effect g hasher threads pool before after later)
    {slot : ℕ} {entry : Entry} {stage bound : ℕ} (hbound : bound = 8 ∨ bound = 10)
    (hafter : after.reservation = some ⟨slot, entry, stage⟩) (hstage : bound ≤ stage) :
    ∃ reached, before.reservation = some ⟨slot, entry, reached⟩ ∧ bound ≤ reached + 1 := by
  have hquiet : Quiet before after →
      ∃ reached, before.reservation = some ⟨slot, entry, reached⟩ ∧ bound ≤ reached + 1 := by
    intro hquiet
    rcases hquiet.reservation with hsame | ⟨held, written, first, last, hbefore, hlast, hlow, hle,
      hcross⟩
    · exact ⟨stage, hsame.symm.trans hafter, Nat.le_succ_of_le hstage⟩
    · rw [hlast, Option.some.injEq, Reservation.mk.injEq] at hafter
      obtain ⟨rfl, rfl, rfl⟩ := hafter
      exact ⟨first, hbefore, by omega⟩
  cases heffect with
  | quiet hquiet' => exact hquiet hquiet'
  | abandon hquiet' habandoning hslot hbegun => exact hquiet hquiet'
  | publish hquiet' hpoint hle hcapacity hstored => exact hquiet hquiet'
  | reserve written hsize =>
    split_ifs at hafter
    · cases hafter
    · cases hafter
      omega
  | undo written held => cases hafter
  | begin written held hslot =>
    cases hafter
    omega
  | fill hfield hbefore hafter' hlater hbeforeUndo hafterUndo hslot =>
    rw [hafter', Option.some.injEq, Reservation.mk.injEq] at hafter
    obtain ⟨-, -, rfl⟩ := hafter
    have := recordFields_stage hfield
    omega
  | commit written held hslot =>
    cases hafter
    exact ⟨8, rfl, by omega⟩

/-- What is reached after a step was reached before, or the call has just got there. -/
theorem Effect.reached_set {index : ℕ}
    (heffect : Effect g hasher threads pool before after later)
    (hbefore : threads[index]? = some before) {slot : ℕ} {entry : Entry} {bound : ℕ}
    (hbound : bound = 8 ∨ bound = 10)
    (hreached : Reached (threads.set index after) slot entry bound) :
    Reached threads slot entry bound ∨ before.reservation = some ⟨slot, entry, bound - 1⟩ := by
  obtain ⟨call, hmem, stage, hstage, hreservation⟩ := hreached
  rcases List.mem_or_eq_of_mem_set hmem with hold | rfl
  · exact Or.inl ⟨call, hold, stage, hstage, hreservation⟩
  · obtain ⟨reached, hheld, hle⟩ := heffect.stage_le hbound hreservation hstage
    by_cases hpassed : bound ≤ reached
    · exact Or.inl ⟨before, List.mem_of_getElem? hbefore, reached, hpassed, hheld⟩
    · obtain rfl : reached = bound - 1 := by omega
      exact Or.inr hheld

theorem Call.eq_flushRecord {call : Call} {slot : ℕ} {entry : Entry}
    (hreservation : call.reservation = some ⟨slot, entry, 7⟩) :
    call = .append entry (.running (.flushRecord slot)) := by
  match call with
  | .append written (.running point) =>
    cases point <;> cases hreservation
    rfl
  | .append written (.returned (.ok index)) => cases hreservation

theorem Call.eq_flushState {call : Call} {slot : ℕ} {entry : Entry}
    (hreservation : call.reservation = some ⟨slot, entry, 9⟩) :
    call = .append entry (.running (.flushState slot)) := by
  match call with
  | .append written (.running point) =>
    cases point <;> cases hreservation
    rfl
  | .append written (.returned (.ok index)) => cases hreservation

end Stages

/-! ### The invariant of the media -/

variable (g hasher) in
/-- What the media holds of the records. -/
structure Persisted (threads : List Call) (media : Memory) : Prop where
  written : ∀ slot entry, Reached threads slot entry 8 →
    Written hasher entry slot 7 ((Pool.ofMemory g media).slot slot)
  committed : ∀ slot < g.capacity, (Pool.ofMemory g media).state slot = stateCommitted →
    ∃ entry, Stored threads slot entry
  flushed : ∀ slot entry, Reached threads slot entry 10 →
    (Pool.ofMemory g media).state slot = stateCommitted ∨
      (Pool.ofMemory g media).state slot = stateAbandoned

variable (g hasher) in
/-- The invariant of the log on a cached memory. -/
structure Durable (config : Config Call CachedMemory) : Prop where
  invariant : Invariant g hasher (withoutMedia config)
  persisted : Persisted g hasher config.threads config.shared.media

/-- A slot that an append has filled is complete. -/
theorem Contents.written_of_reached {threads : List Call} {pool : Pool}
    (hcontents : Contents g hasher threads pool) {slot : ℕ} {entry : Entry} {stage : ℕ}
    (hreached : Reached threads slot entry stage) (hstage : 7 ≤ stage) :
    Written hasher entry slot 7 (pool.slot slot) := by
  obtain ⟨call, hmem, reached, hlow, hreservation⟩ := hreached
  exact (hcontents.written call hmem _ _ _ hreservation).1.mono (Or.inl (by omega))

section Persist

variable {threads : List Call} {cached media later : Memory}

/-- Bringing bytes of the cache to the media keeps what the media holds. -/
theorem Persisted.mix (hpersisted : Persisted g hasher threads media)
    (hcontents : Contents g hasher threads (Pool.ofMemory g cached))
    (hrely : Rely g hasher threads (Pool.ofMemory g cached)) (hmixes : Mixes media cached later) :
    Persisted g hasher threads later where
  written := by
    intro slot entry hreached
    exact (hpersisted.written slot entry hreached).mix
      (hcontents.written_of_reached hreached (by decide)) (hmixes.slot slot)
  committed := by
    intro slot hslot hstate
    rcases hmixes.slot (g := g) slot recState with hsame | hsame
    · exact hpersisted.committed slot hslot (hsame.symm.trans hstate)
    · exact hrely.stored_of_committed slot hslot (hsame.symm.trans hstate)
  flushed := by
    intro slot entry hreached
    rcases hmixes.slot (g := g) slot recState with hsame | hsame
    · rw [Pool.state, hsame]
      exact hpersisted.flushed slot entry hreached
    · rw [Pool.state, hsame]
      exact hcontents.state_of_stored (hreached.mono_stage (by decide : 9 ≤ 10))

variable {index : ℕ} {before after : Call} {pool poolLater : Pool}

/-- A step that flushes what it has to flush keeps what the media holds. -/
theorem Persisted.set (hpersisted : Persisted g hasher threads later)
    (heffect : Effect g hasher threads pool before after poolLater)
    (hbefore : threads[index]? = some before)
    (hrecord : ∀ slot entry, before.reservation = some ⟨slot, entry, 7⟩ →
      Written hasher entry slot 7 ((Pool.ofMemory g later).slot slot))
    (hstate : ∀ slot entry, before.reservation = some ⟨slot, entry, 9⟩ →
      (Pool.ofMemory g later).state slot = stateCommitted ∨
        (Pool.ofMemory g later).state slot = stateAbandoned) :
    Persisted g hasher (threads.set index after) later where
  written := by
    intro slot entry hreached
    rcases heffect.reached_set hbefore (Or.inl rfl) hreached with hold | hnew
    · exact hpersisted.written slot entry hold
    · exact hrecord slot entry hnew
  committed := by
    intro slot hslot hcommitted
    exact (extends_set hbefore heffect.advances).exists_reached
      (hpersisted.committed slot hslot hcommitted)
  flushed := by
    intro slot entry hreached
    rcases heffect.reached_set hbefore (Or.inr rfl) hreached with hold | hnew
    · exact hpersisted.flushed slot entry hold
    · exact hstate slot entry hnew

end Persist

/-! ### Flushes -/

section Flush

variable {slot : ℕ} {memory : CachedMemory}

/-- A flush of a record brings all of its bytes to the media. -/
theorem ofMemory_flush_record (hslot : slot < g.capacity) :
    (Pool.ofMemory g (memory.flush cacheline (appendOffset g slot) g.recordSize).media).slot slot =
      (Pool.ofMemory g memory.cached).slot slot := by
  funext offset
  by_cases hoffset : offset < g.recordSize
  · rw [Pool.ofMemory_slot hslot hoffset, Pool.ofMemory_slot hslot hoffset,
      appendOffset_of_lt hslot]
    exact CachedMemory.flush_media_inside (Nat.le_add_right _ _) (by omega)
  · exact (if_neg fun hin ↦ hoffset hin.2).trans (if_neg fun hin ↦ hoffset hin.2).symm

/-- A flush of the first line of a record brings its state byte to the media. -/
theorem ofMemory_flush_state (hslot : slot < g.capacity) :
    (Pool.ofMemory g (memory.flush cacheline (appendOffset g slot) cacheline).media).state slot =
      (Pool.ofMemory g memory.cached).state slot := by
  rw [Pool.ofMemory_state hslot, Pool.ofMemory_state hslot, appendOffset_of_lt hslot]
  exact CachedMemory.flush_media_inside (Nat.le_add_right _ _)
    (Nat.add_lt_add_left (by decide : recState < cacheline) _)

end Flush

/-! ### Actions -/

section Apply

variable {config : Config Call CachedMemory} {action : Action Request ℕ}

variable (g hasher) in
/-- `UndosBounded` for runs on a cached memory. -/
def UndosBoundedCached (config : Config Call CachedMemory) (action : Action Request ℕ) : Prop :=
  pendingUndos ((cachedMachine g hasher).apply config action).threads < 2 ^ 64 - g.capacity

instance (config : Config Call CachedMemory) (action : Action Request ℕ) :
    Decidable (UndosBoundedCached g hasher config action) :=
  inferInstanceAs (Decidable (_ < _))

theorem UndosBoundedCached.erase (hbounded : UndosBoundedCached g hasher config action)
    {erased : Action Request Empty} (herase : action.erase = some erased) :
    UndosBounded g hasher (withoutMedia config) erased := by
  cases action with
  | start request =>
    obtain rfl := Option.some.inj herase
    rw [UndosBounded, ← cachedMachine_apply_start]
    exact hbounded
  | step index =>
    obtain rfl := Option.some.inj herase
    rw [UndosBounded, ← cachedMachine_apply_step]
    exact hbounded
  | env line => cases herase

theorem Durable.rely (hdurable : Durable g hasher config) :
    Rely g hasher config.threads (Pool.ofMemory g config.shared.cached) := hdurable.invariant.rely

/-- Every action keeps the invariant, as long as not too many undos are pending. -/
theorem Durable.apply (hdurable : Durable g hasher config)
    (hbounded : UndosBoundedCached g hasher config action) :
    Durable g hasher ((cachedMachine g hasher).apply config action) where
  invariant := cachedMachine_apply_keeps hdurable.invariant fun erased herase ↦
    hdurable.invariant.apply (hbounded.erase herase)
  persisted := by
    have hcontents : Contents g hasher config.threads (Pool.ofMemory g config.shared.cached) :=
      hdurable.invariant.contents
    cases action with
    | env line =>
      exact hdurable.persisted.mix hcontents hdurable.rely
        (CachedMemory.writeBack_media line config.shared)
    | start request =>
      have hnone := (request.call_reservation (g := g)).1
      have hold : ∀ slot entry stage, Reached (config.threads ++ [request.call g]) slot entry
          stage → Reached config.threads slot entry stage := by
        rintro slot entry stage ⟨call, hmem, reached, hle, hreservation⟩
        rcases List.mem_append.mp hmem with hbefore | hnew
        · exact ⟨call, hbefore, reached, hle, hreservation⟩
        · rw [List.mem_singleton.mp hnew, hnone] at hreservation
          cases hreservation
      exact
        { written := fun slot entry hreached ↦
            hdurable.persisted.written slot entry (hold _ _ _ hreached)
          committed := fun slot hslot hstate ↦ (extends_append _).exists_reached
            (hdurable.persisted.committed slot hslot hstate)
          flushed := fun slot entry hreached ↦
            hdurable.persisted.flushed slot entry (hold _ _ _ hreached) }
    | step index =>
      cases hcall : config.threads[index]? with
      | none => rw [apply_step_of_none _ hcall]; exact hdurable.persisted
      | some call =>
        rw [apply_step_of_getElem? _ hcall]
        have hcall' : (withoutMedia config).threads[index]? = some call := hcall
        obtain ⟨heffect, -⟩ := hdurable.invariant.stepSpec hcall'
        have hmem := List.mem_of_getElem? hcall
        have hmixed := hdurable.persisted.mix hcontents hdurable.rely
          (@Call.stepCached_media g hasher call config.shared)
        have hafter : (call.stepCached g hasher config.shared).1 =
            (call.step g hasher (withoutMedia config).shared).1 :=
          (call.stepCached_eq config.shared).1
        rw [← hafter] at heffect
        refine hmixed.set heffect hcall ?_ ?_
        · intro slot entry hreservation
          have hreached : Reached config.threads slot entry 7 :=
            ⟨call, hmem, 7, Nat.le_refl _, hreservation⟩
          have hslot := (hdurable.invariant.reserved.slot_bounds hreached).1
          have hwritten := hcontents.written_of_reached hreached (Nat.le_refl _)
          rw [← ofMemory_flush_record hslot] at hwritten
          rw [Call.eq_flushRecord hreservation]
          exact hwritten
        · intro slot entry hreservation
          have hstored : Stored config.threads slot entry :=
            ⟨call, hmem, 9, Nat.le_refl _, hreservation⟩
          have hslot := (hdurable.invariant.reserved.slot_bounds hstored).1
          have hstate := hcontents.state_of_stored hstored
          rw [← ofMemory_flush_state hslot] at hstate
          rw [Call.eq_flushState hreservation]
          exact hstate

/-- A pool just created satisfies the invariant. -/
theorem Durable.fresh : Durable g hasher (freshCached g) where
  invariant := Invariant.fresh
  persisted := by
    have hnone : ∀ slot entry stage, ¬ Reached (freshCached g).threads slot entry stage := by
      rintro slot entry stage ⟨call, hmem, -⟩
      cases hmem
    exact
      { written := fun slot entry hreached ↦ (hnone _ _ _ hreached).elim
        committed := by
          intro slot hslot hstate
          rw [freshCached_shared] at hstate
          have hzero : (Pool.ofMemory g (freshMemory g)).state slot = stateCommitted := hstate
          rw [ofMemory_freshMemory] at hzero
          exact absurd hzero (by decide : (0 : UInt8) ≠ stateCommitted)
        flushed := fun slot entry hreached ↦ (hnone _ _ _ hreached).elim }

/-- The invariant holds after every run from a pool just created. -/
theorem durable_of_run {schedule : List (Action Request ℕ)}
    (hbounded : (cachedMachine g hasher).Along (UndosBoundedCached g hasher) schedule
      (freshCached g)) :
    Durable g hasher ((cachedMachine g hasher).run schedule (freshCached g)) :=
  invariant_run (Durable g hasher) (fun _ _ hdurable hcondition ↦ hdurable.apply hcondition)
    hbounded Durable.fresh

/-! ### Without recoveries -/

variable (g hasher) in
/-- The invariant of runs without recoveries on a cached memory. -/
structure DurableTrimming (config : Config Call CachedMemory) : Prop
    extends Durable g hasher config where
  trimming : Trimming g hasher (withoutMedia config)
  trimmed : ∀ slot < g.capacity,
    (Pool.ofMemory g config.shared.media).state slot = stateAbandoned →
      ∃ call ∈ config.threads, call.Trims slot

theorem startsRecover_erase {erased : Action Request Empty} (herase : action.erase = some erased) :
    startsRecover erased = startsRecover action := by
  cases action with
  | start request => cases herase; cases request <;> rfl
  | step index => cases herase; rfl
  | env line => cases herase

/-- A state byte on the media that is abandoned after a mix was trimmed. -/
theorem DurableTrimming.trimmed_mix (hdurable : DurableTrimming g hasher config) {later : Memory}
    (hmixes : Mixes config.shared.media config.shared.cached later) {slot : ℕ}
    (hslot : slot < g.capacity) (hstate : (Pool.ofMemory g later).state slot = stateAbandoned) :
    ∃ call ∈ config.threads, call.Trims slot := by
  rcases hmixes.slot (g := g) slot recState with hsame | hsame
  · exact hdurable.trimmed slot hslot (hsame.symm.trans hstate)
  · exact (hdurable.trimming.trimmed slot hslot (hsame.symm.trans hstate)).2

/-- Every action that starts no recovery keeps the invariant. -/
theorem DurableTrimming.apply (hdurable : DurableTrimming g hasher config)
    (hbounded : UndosBoundedCached g hasher config action)
    (hrecover : startsRecover action = false) :
    DurableTrimming g hasher ((cachedMachine g hasher).apply config action) where
  toDurable := hdurable.toDurable.apply hbounded
  trimming := cachedMachine_apply_keeps hdurable.trimming fun erased herase ↦
    hdurable.trimming.apply (hbounded.erase herase) ((startsRecover_erase herase).trans hrecover)
  trimmed := by
    intro slot hslot hstate
    cases action with
    | env line =>
      exact hdurable.trimmed_mix (CachedMemory.writeBack_media line config.shared) hslot hstate
    | start request =>
      obtain ⟨call, hmem, htrims⟩ := hdurable.trimmed slot hslot hstate
      exact ⟨call, List.mem_append_left _ hmem, htrims⟩
    | step index =>
      cases hcall : config.threads[index]? with
      | none =>
        rw [apply_step_of_none _ hcall] at hstate ⊢
        exact hdurable.trimmed slot hslot hstate
      | some call =>
        rw [apply_step_of_getElem? _ hcall] at hstate ⊢
        refine exists_mem_set hcall (fun htrims ↦ ?_) (fun _ _ htrims ↦ htrims)
          (hdurable.trimmed_mix (call.stepCached_media config.shared) hslot hstate)
        have hafter : ((cachedMachine g hasher).step call config.shared).1 =
            (call.step g hasher config.shared.cached).1 := (call.stepCached_eq config.shared).1
        rw [hafter]
        exact htrims.step _

/-- A pool just created satisfies the invariant. -/
theorem DurableTrimming.fresh : DurableTrimming g hasher (freshCached g) where
  toDurable := Durable.fresh
  trimming := Trimming.fresh
  trimmed := by
    intro slot hslot hstate
    rw [freshCached_shared] at hstate
    have hzero : (Pool.ofMemory g (freshMemory g)).state slot = stateAbandoned := hstate
    rw [ofMemory_freshMemory] at hzero
    exact absurd hzero (by decide : (0 : UInt8) ≠ stateAbandoned)

/-- Every call of a run from a pool just created was started by the schedule. -/
theorem start_mem_of_mem_cachedRun {schedule : List (Action Request ℕ)} {call : Call}
    (hmem : call ∈ ((cachedMachine g hasher).run schedule (freshCached g)).threads) :
    .start call.request ∈ schedule :=
  start_mem_of_mem_run Call.request Request.request_call
    (fun call memory ↦ (congrArg Call.request (call.stepCached_eq memory).1).trans
      (call.request_step memory.cached)) rfl call hmem

/-- The invariant holds after every run without recoveries from a pool just created. -/
theorem durableTrimming_of_run {schedule : List (Action Request ℕ)}
    (hrecover : ∀ action ∈ schedule, startsRecover action = false)
    (hbounded : (cachedMachine g hasher).Along (UndosBoundedCached g hasher) schedule
      (freshCached g)) :
    DurableTrimming g hasher ((cachedMachine g hasher).run schedule (freshCached g)) :=
  invariant_run (DurableTrimming g hasher)
    (fun _ _ hdurable hcondition ↦ hdurable.apply hcondition.1 hcondition.2)
    (along_and.mpr ⟨hbounded, along_of_forall_mem (fun action ↦ startsRecover action = false)
      hrecover _⟩) DurableTrimming.fresh

end Apply

end Fence
