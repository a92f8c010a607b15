import Fence.Protocol.Reserved

/-!
# The invariant of the log

`Contents` ties the bytes of every slot to the append that holds it: the fields below its stage
are written and the state byte fits its stage (`Matches`), slots that were not handed out are
free, everything below the committed tail is stored, and every call is sound. `Invariant` is
`Reserved` and `Contents` together. Every action keeps it (`Invariant.apply`), as long as the
pending undos stay below the bound of `UndosBounded`, so it holds after every run from a pool
just created (`invariant_of_run`).
-/

set_option autoImplicit false
set_option relaxedAutoImplicit false

namespace Fence

open ByteMemory Interleaving

variable {g : PoolGeometry} {hasher : Hasher}

/-! ### Slots and the appends that hold them -/

variable (hasher) in
/-- The slot of an append holds what the stage of the append says. -/
def Matches (pool : Pool) (call : Call) : Prop :=
  ∀ slot entry stage, call.reservation = some ⟨slot, entry, stage⟩ →
    Written hasher entry slot stage (pool.slot slot) ∧ StateAt stage (pool.state slot)

theorem Matches.of_reservation_none {pool : Pool} {call : Call} (hnone : call.reservation = none) :
    Matches hasher pool call := by
  intro slot entry stage hreservation
  rw [hnone] at hreservation
  cases hreservation

theorem Matches.congr {pool later : Pool} {call : Call} (hmatches : Matches hasher pool call)
    (hslot : later.slot = pool.slot) : Matches hasher later call := by
  intro slot entry stage hreservation
  unfold Pool.state
  rw [hslot]
  exact hmatches slot entry stage hreservation

/-- A step that crosses no stage the pool depends on. -/
theorem Matches.quiet {pool : Pool} {before after : Call} (hquiet : Quiet before after)
    (hmatches : Matches hasher pool before) : Matches hasher pool after := by
  intro slot entry stage hafter
  rcases hquiet.reservation with hsame |
    ⟨held, written, first, later, hbefore, hlater, hlow, hle, hcross⟩
  · exact hmatches slot entry stage (hsame ▸ hafter)
  · rw [hlater, Option.some.injEq, Reservation.mk.injEq] at hafter
    obtain ⟨rfl, rfl, rfl⟩ := hafter
    obtain ⟨hwritten, hstate⟩ := hmatches _ _ _ hbefore
    exact ⟨hwritten.mono (Or.inr hlow), hstate.congr (by omega) (by omega)⟩

/-- A store into a slot that the append does not hold. -/
theorem Matches.store_other {pool : Pool} {call : Call} {slot offset : ℕ} {bytes : List UInt8}
    (hmatches : Matches hasher pool call) (hother : call.reservedSlot ≠ some slot) :
    Matches hasher (pool.storeSlot slot offset bytes) call := by
  intro held entry stage hreservation
  have hne : held ≠ slot := by
    rintro rfl
    exact hother (by rw [Call.reservedSlot, hreservation]; rfl)
  unfold Pool.state
  rw [Pool.storeSlot_slot_ne _ hne]
  exact hmatches held entry stage hreservation

/-- The slot of an append that has begun is marked abandoned. -/
theorem Matches.abandon {pool : Pool} {call : Call} {slot : ℕ}
    (hmatches : Matches hasher pool call)
    (hbegun : ∀ entry stage, call.reservation = some ⟨slot, entry, stage⟩ → 1 ≤ stage) :
    Matches hasher (pool.storeSlot slot recState [stateAbandoned]) call := by
  intro held entry stage hreservation
  obtain ⟨hwritten, -⟩ := hmatches held entry stage hreservation
  by_cases hsame : held = slot
  · subst hsame
    rw [Pool.storeSlot_slot_self, Pool.state, Pool.storeSlot_slot_self]
    exact ⟨hwritten.store_state _, StateAt.of_abandoned (hbegun entry stage hreservation)⟩
  · refine hmatches.store_other ?_ held entry stage hreservation
    rw [Call.reservedSlot, hreservation]
    exact fun h ↦ hsame (Option.some.inj h)

section Exclusive

variable {first reserveTail : ℕ} {threads : List Call}
  (hreserved : Reserved g.capacity first threads reserveTail)

theorem holds_of_reservation {index : ℕ} {call : Call} {slot : ℕ} {entry : Entry} {stage : ℕ}
    (hcall : threads[index]? = some call)
    (hreservation : call.reservation = some ⟨slot, entry, stage⟩) : Holds threads index slot :=
  ⟨call, hcall, by rw [Call.reservedSlot, hreservation]; rfl⟩

theorem Reached.holds {slot : ℕ} {entry : Entry} {stage : ℕ}
    (hreached : Reached threads slot entry stage) : ∃ index, Holds threads index slot := by
  obtain ⟨call, hmem, reached, -, hreservation⟩ := hreached
  obtain ⟨index, hindex⟩ := List.mem_iff_getElem?.mp hmem
  exact ⟨index, holds_of_reservation hindex hreservation⟩

include hreserved

/-- The append that holds a slot is the one that reached a stage there. -/
theorem Reserved.reached_eq {index : ℕ} {call : Call} {slot : ℕ} {entry other : Entry}
    {stage reached : ℕ} (hcall : threads[index]? = some call)
    (hreservation : call.reservation = some ⟨slot, entry, stage⟩)
    (hreached : Reached threads slot other reached) : other = entry ∧ reached ≤ stage := by
  obtain ⟨held, hmem, later, hlater, hheld⟩ := hreached
  obtain ⟨place, hplace⟩ := List.mem_iff_getElem?.mp hmem
  have hsame := hreserved.exclusive _ _ _ (holds_of_reservation hplace hheld)
    (holds_of_reservation hcall hreservation)
  subst hsame
  obtain rfl : held = call := Option.some.inj (hplace.symm.trans hcall)
  rw [hheld, Option.some.injEq, Reservation.mk.injEq] at hreservation
  obtain ⟨-, rfl, rfl⟩ := hreservation
  exact ⟨rfl, hlater⟩

theorem Reserved.slot_bounds {slot : ℕ} {entry : Entry} {stage : ℕ}
    (hreached : Reached threads slot entry stage) : slot < g.capacity ∧ slot < reserveTail := by
  obtain ⟨index, hholds⟩ := hreached.holds
  exact (hreserved.bounds index slot hholds).2

end Exclusive

/-! ### The invariant -/

variable (g hasher) in
/-- What the slots hold and what the calls know. -/
structure Contents (threads : List Call) (pool : Pool) : Prop where
  written : ∀ call ∈ threads, Matches hasher pool call
  free : ∀ slot < g.capacity, pool.reserveTail ≤ slot → pool.state slot = stateFree
  published : ∀ slot < pool.committedTail, ∃ entry, Stored threads slot entry
  sound : ∀ call ∈ threads, call.Sound g hasher pool.committedTail threads

variable (g hasher) in
/-- The invariant of the log, on a configuration. -/
structure Invariant (config : Config Call Memory) : Prop where
  reserved : Reserved g.capacity 0 config.threads (Pool.ofMemory g config.shared).reserveTail
  contents : Contents g hasher config.threads (Pool.ofMemory g config.shared)

/-- What calls rely on follows from the invariant. -/
theorem Contents.rely {threads : List Call} {pool : Pool}
    (hcontents : Contents g hasher threads pool)
    (hreserved : Reserved g.capacity 0 threads pool.reserveTail) : Rely g hasher threads pool := by
  have hheld : ∀ slot < g.capacity, pool.state slot ≠ stateFree →
      ∃ call ∈ threads, ∃ entry stage, call.reservation = some ⟨slot, entry, stage⟩ ∧
        StateAt stage (pool.state slot) := by
    intro slot hslot hstate
    have htail : slot < pool.reserveTail := by
      by_contra hbeyond
      exact hstate (hcontents.free slot hslot (Nat.le_of_not_lt hbeyond))
    obtain ⟨index, call, hcall, hreserves⟩ := hreserved.covered slot (Nat.zero_le _) hslot htail
    obtain ⟨⟨held, entry, stage⟩, hreservation, rfl⟩ := Option.map_eq_some_iff.mp hreserves
    have hmem := List.mem_of_getElem? hcall
    exact ⟨call, hmem, entry, stage, hreservation,
      (hcontents.written call hmem _ _ _ hreservation).2⟩
  exact
    { stored_of_committed := by
        intro slot hslot hstate
        obtain ⟨call, hmem, entry, stage, hreservation, hat⟩ :=
          hheld slot hslot (by rw [hstate]; decide)
        exact ⟨entry, call, hmem, stage, hat.nine_le hstate, hreservation⟩
      begun_of_not_free := by
        intro slot hslot hstate
        obtain ⟨call, hmem, entry, stage, hreservation, hat⟩ := hheld slot hslot hstate
        exact ⟨entry, call, hmem, stage, hat.one_le hstate, hreservation⟩
      complete_of_stored := by
        intro slot entry hstored
        have hslot := (hreserved.slot_bounds hstored).1
        obtain ⟨call, hmem, stage, hstage, hreservation⟩ := hstored
        have hsize : entry.data.length ≤ g.payloadSize := by
          have hsound := hcontents.sound call hmem
          match call with
          | .append written (.running point) =>
            simp only [Call.reservation, Option.map_eq_some_iff, Reservation.mk.injEq]
              at hreservation
            obtain ⟨-, -, -, rfl, -⟩ := hreservation
            exact hsound.1
          | .append written (.returned (.ok index)) =>
            simp only [Call.reservation, Option.some.injEq, Reservation.mk.injEq] at hreservation
            obtain ⟨-, rfl, -⟩ := hreservation
            exact hsound.1
          | .append _ (.returned (.error _)) => simp [Call.reservation] at hreservation
          | .read _ _ _ => simp [Call.reservation] at hreservation
          | .trim _ _ => simp [Call.reservation] at hreservation
          | .recover _ _ => simp [Call.reservation] at hreservation
        obtain ⟨hwritten, -⟩ := hcontents.written call hmem _ _ _ hreservation
        exact ⟨hslot, hsize, hwritten.complete (by omega) hslot hsize⟩
      stored_of_lt_tail := hcontents.published }

theorem Invariant.rely {config : Config Call Memory} (hinvariant : Invariant g hasher config) :
    Rely g hasher config.threads (Pool.ofMemory g config.shared) :=
  hinvariant.contents.rely hinvariant.reserved

/-- A stored slot is committed or abandoned. -/
theorem Contents.state_of_stored {threads : List Call} {pool : Pool}
    (hcontents : Contents g hasher threads pool) {slot : ℕ} {entry : Entry}
    (hstored : Stored threads slot entry) :
    pool.state slot = stateCommitted ∨ pool.state slot = stateAbandoned := by
  obtain ⟨call, hmem, stage, hstage, hreservation⟩ := hstored
  exact (hcontents.written call hmem _ _ _ hreservation).2.of_nine_le hstage

/-! ### Steps -/

section Step

variable {threads : List Call} {pool later : Pool} {index : ℕ} {before after : Call}

theorem Effect.committedTail_le (heffect : Effect g hasher threads pool before after later) :
    pool.committedTail ≤ later.committedTail := by
  cases heffect with
  | publish hquiet hpoint hle hcapacity hstored => exact hle
  | _ => exact Nat.le_refl _

theorem extends_set (hbefore : threads[index]? = some before) (hadvances : Advances before after) :
    Extends threads (threads.set index after) :=
  fun _ _ _ hreached ↦ hreached.set hbefore hadvances

theorem extends_append (call : Call) : Extends threads (threads ++ [call]) :=
  fun _ _ _ hreached ↦ hreached.append call

variable (hreserved : Reserved g.capacity 0 threads pool.reserveTail)
  (hcontents : Contents g hasher threads pool)
  (hbefore : threads[index]? = some before)

include hreserved hbefore

/-- No other call holds the slot of the call that takes a step. -/
theorem Reserved.reservedSlot_ne {slot : ℕ} (hslot : before.reservedSlot = some slot) {other : ℕ}
    {call : Call} (hne : other ≠ index) (hcall : threads[other]? = some call) :
    call.reservedSlot ≠ some slot := fun hheld ↦
  hne (hreserved.exclusive _ _ _ ⟨call, hcall, hheld⟩ ⟨before, hbefore, hslot⟩)

include hcontents

/-- After a step every slot holds what the stage of its append says. -/
theorem Contents.written_step (heffect : Effect g hasher threads pool before after later) :
    ∀ call ∈ threads.set index after, Matches hasher later call := by
  have hmatches : ∀ call ∈ threads, Matches hasher pool call := hcontents.written
  have hheld := hmatches before (List.mem_of_getElem? hbefore)
  have hothers : ∀ slot, before.reservedSlot = some slot → ∀ offset bytes other call,
      other ≠ index → threads[other]? = some call →
        Matches hasher (pool.storeSlot slot offset bytes) call :=
    fun slot hslot _ _ other call hne hcall ↦
      (hmatches call (List.mem_of_getElem? hcall)).store_other
        (hreserved.reservedSlot_ne hbefore hslot hne hcall)
  cases heffect with
  | quiet hquiet =>
    exact forall_mem_set _ hbefore (hheld.quiet hquiet) fun _ call _ hcall ↦
      hmatches call (List.mem_of_getElem? hcall)
  | publish hquiet hpoint hle hcapacity hstored =>
    exact forall_mem_set _ hbefore ((hheld.quiet hquiet).congr rfl) fun _ call _ hcall ↦
      (hmatches call (List.mem_of_getElem? hcall)).congr rfl
  | undo entry slot =>
    exact forall_mem_set _ hbefore (.of_reservation_none rfl) fun _ call _ hcall ↦
      (hmatches call (List.mem_of_getElem? hcall)).congr rfl
  | reserve entry hsize =>
    refine forall_mem_set _ hbefore ?_ fun _ call _ hcall ↦
      (hmatches call (List.mem_of_getElem? hcall)).congr rfl
    split_ifs with hfull
    · exact .of_reservation_none rfl
    · intro slot written stage hreservation
      simp only [Call.reservation, AppendPoint.progress, Option.map_some, Option.some.injEq,
        Reservation.mk.injEq] at hreservation
      obtain ⟨rfl, rfl, rfl⟩ := hreservation
      exact ⟨.of_le_one _ (Nat.zero_le _), StateAt.zero_iff.mpr
        (hcontents.free _ (Nat.lt_of_not_le hfull) (Nat.le_refl _))⟩
  | begin entry slot hslot =>
    refine forall_mem_set _ hbefore ?_ (hothers _ rfl _ _)
    intro held written stage hreservation
    simp only [Call.reservation, AppendPoint.progress, Option.map_some, Option.some.injEq,
      Reservation.mk.injEq] at hreservation
    obtain ⟨rfl, rfl, rfl⟩ := hreservation
    rw [Pool.state, Pool.storeSlot_slot_self, store_state_self]
    exact ⟨.of_le_one _ (Nat.le_refl _), Or.inl rfl⟩
  | @fill before after entry slot field stage hfield hbeforeReservation hafter hlater hbeforeUndo
      hafterUndo hslot =>
    obtain ⟨hwritten, hstate⟩ := hheld _ _ _ hbeforeReservation
    have hstage := recordFields_stage hfield
    refine forall_mem_set _ hbefore ?_
      (hothers _ (by rw [Call.reservedSlot, hbeforeReservation]; rfl) _ _)
    intro held written reached hreservation
    rw [hafter, Option.some.injEq, Reservation.mk.injEq] at hreservation
    obtain ⟨rfl, rfl, rfl⟩ := hreservation
    rw [Pool.state, Pool.storeSlot_slot_self, store_apply_outside (Or.inl hstage.2.2)]
    refine ⟨?_, hstate.congr (by omega) (by omega)⟩
    rcases hlater with rfl | ⟨hfour, rfl, hempty⟩
    · exact hwritten.store hfield
    · exact (hwritten.store hfield).skip_payload (by omega) hempty
  | commit entry slot hslot =>
    obtain ⟨hwritten, -⟩ := hheld slot entry 8 rfl
    refine forall_mem_set _ hbefore ?_ (hothers _ rfl _ _)
    intro held written stage hreservation
    simp only [Call.reservation, AppendPoint.progress, Option.map_some, Option.some.injEq,
      Reservation.mk.injEq] at hreservation
    obtain ⟨rfl, rfl, rfl⟩ := hreservation
    rw [Pool.state, Pool.storeSlot_slot_self]
    exact ⟨(hwritten.store_state _).mono (Or.inr (by decide)), Or.inl (store_state_self _ _)⟩
  | @abandon before after hquiet slot habandoning hslot hbegun =>
    obtain ⟨entry, hbegun⟩ := hbegun
    have hstage : ∀ (other : ℕ) (call : Call), threads[other]? = some call →
        ∀ written stage, call.reservation = some ⟨slot, written, stage⟩ → 1 ≤ stage :=
      fun other call hcall written stage hreservation ↦
        (hreserved.reached_eq hcall hreservation hbegun).2
    exact forall_mem_set _ hbefore ((hheld.abandon (hstage _ _ hbefore)).quiet hquiet)
      fun other call _ hcall ↦ (hmatches call (List.mem_of_getElem? hcall)).abandon
        (hstage other call hcall)

/-- A step leaves the slots that are not handed out free. -/
theorem Contents.free_step (heffect : Effect g hasher threads pool before after later)
    (hlater : Reserved g.capacity 0 (threads.set index after) later.reserveTail) :
    ∀ slot < g.capacity, later.reserveTail ≤ slot → later.state slot = stateFree := by
  intro slot hslot hbeyond
  -- a slot handed out before the step is still held after it
  have hunheld : ∀ held, Holds threads held slot → False := by
    rintro held ⟨call, hcall, hreserves⟩
    obtain ⟨⟨place, entry, stage⟩, hreservation, rfl⟩ := Option.map_eq_some_iff.mp hreserves
    have hreached : Reached (threads.set index after) place entry stage :=
      extends_set hbefore heffect.advances _ _ _
        ⟨call, List.mem_of_getElem? hcall, stage, Nat.le_refl _, hreservation⟩
    exact Nat.lt_irrefl _ (Nat.lt_of_lt_of_le (hlater.slot_bounds hreached).2 hbeyond)
  have hfree : pool.state slot = stateFree := by
    by_cases htail : slot < pool.reserveTail
    · obtain ⟨held, hheld⟩ := hreserved.covered slot (Nat.zero_le _) hslot htail
      exact (hunheld held hheld).elim
    · exact hcontents.free slot hslot (Nat.le_of_not_lt htail)
  rcases heffect.state_cases slot with hsame | ⟨-, entry, rfl⟩ | ⟨-, entry, rfl, -⟩ |
    ⟨-, -, entry, hbegun⟩
  · exact hsame.trans hfree
  · exact (hunheld index ⟨_, hbefore, rfl⟩).elim
  · exact (hunheld index ⟨_, hbefore, rfl⟩).elim
  · obtain ⟨held, hheld⟩ := hbegun.holds
    exact (hunheld held hheld).elim

/-- A step keeps the contents. -/
theorem Contents.step (heffect : Effect g hasher threads pool before after later)
    (hlater : Reserved g.capacity 0 (threads.set index after) later.reserveTail)
    (hsound : after.Sound g hasher later.committedTail threads) :
    Contents g hasher (threads.set index after) later := by
  have hextends := extends_set hbefore heffect.advances
  exact
    { written := hcontents.written_step hreserved hbefore heffect
      free := hcontents.free_step hreserved hbefore heffect hlater
      published := by
        intro slot hslot
        refine hextends.exists_reached ?_
        cases heffect with
        | publish hquiet hpoint hle hcapacity hstored => exact hstored slot hslot
        | _ => exact hcontents.published slot hslot
      sound := forall_mem_set _ hbefore (hsound.mono hextends (Nat.le_refl _)) fun _ call _ hcall ↦
        (hcontents.sound call (List.mem_of_getElem? hcall)).mono hextends
          heffect.committedTail_le }

end Step

/-! ### Runs -/

section Run

variable {config : Config Call Memory} {action : Action Request Empty}

variable (g hasher) in
/-- After the action fewer undos are pending than it takes to make the reserve tail wrap. -/
def UndosBounded (config : Config Call Memory) (action : Action Request Empty) : Prop :=
  pendingUndos ((runtimeMachine g hasher).apply config action).threads < 2 ^ 64 - g.capacity

instance (config : Config Call Memory) (action : Action Request Empty) :
    Decidable (UndosBounded g hasher config action) :=
  inferInstanceAs (Decidable (_ < _))

/-- A step of a call under the invariant has an effect and leaves the call sound. -/
theorem Invariant.stepSpec (hinvariant : Invariant g hasher config) {index : ℕ} {call : Call}
    (hcall : config.threads[index]? = some call) :
    StepSpec g hasher config.threads config.shared call
      (call.step g hasher config.shared).1 (call.step g hasher config.shared).2 :=
  Call.step_spec hinvariant.rely
    (hinvariant.contents.sound call (List.mem_of_getElem? hcall))

/-- A start of a call keeps the invariant. -/
theorem Invariant.start (hinvariant : Invariant g hasher config) (request : Request) :
    Invariant g hasher { config with threads := config.threads ++ [request.call g] } := by
  obtain ⟨hnone, hundo⟩ := request.call_reservation (g := g)
  have hextends : Extends config.threads _ := extends_append (request.call g)
  have hcontents := hinvariant.contents
  exact
    { reserved := hinvariant.reserved.append (by rw [Call.reservedSlot, hnone]; rfl) hundo
      contents :=
        { written := by
            intro call hmem
            rcases List.mem_append.mp hmem with hold | hnew
            · exact hcontents.written call hold
            · obtain rfl := List.mem_singleton.mp hnew
              exact .of_reservation_none hnone
          free := hcontents.free
          published := fun slot hslot ↦ hextends.exists_reached (hcontents.published slot hslot)
          sound := by
            intro call hmem
            rcases List.mem_append.mp hmem with hold | hnew
            · exact (hcontents.sound call hold).mono hextends (Nat.le_refl _)
            · obtain rfl := List.mem_singleton.mp hnew
              exact request.call_sound _ } }

/-- Every action keeps the invariant, as long as not too many undos are pending. -/
theorem Invariant.apply (hinvariant : Invariant g hasher config)
    (hbounded : UndosBounded g hasher config action) :
    Invariant g hasher ((runtimeMachine g hasher).apply config action) := by
  cases action with
  | start request => exact hinvariant.start request
  | env event => exact event.elim
  | step index =>
    cases hcall : config.threads[index]? with
    | none => rwa [apply_step_of_none _ hcall]
    | some call =>
      have hreserved := hinvariant.reserved.apply
        (by rwa [TailBounded, Nat.max_zero] : TailBounded 0 g hasher config (.step index))
      rw [apply_step_of_getElem? _ hcall] at hreserved ⊢
      obtain ⟨heffect, hsound⟩ := hinvariant.stepSpec hcall
      exact ⟨hreserved, hinvariant.contents.step hinvariant.reserved hcall heffect hreserved hsound⟩

/-- The pool just created has empty tails and zero slots. -/
theorem ofMemory_freshMemory :
    Pool.ofMemory g (freshMemory g) = ⟨0, 0, fun _ _ ↦ 0⟩ := by
  have hzero : (Pool.ofMemory g fun _ ↦ 0).slot = fun _ _ ↦ 0 := by
    funext slot offset
    exact ite_self _
  rw [freshMemory, ofMemory_createHeader, hzero]

/-- A pool just created satisfies the invariant. -/
theorem Invariant.fresh : Invariant g hasher (freshConfig g) where
  reserved := by
    rw [freshConfig, ofMemory_freshMemory]
    exact Reserved.nil
  contents := by
    rw [freshConfig, ofMemory_freshMemory]
    exact
      { written := by intro call hmem; cases hmem
        free := fun _ _ _ ↦ rfl
        published := fun slot hslot ↦ absurd hslot (Nat.not_lt_zero _)
        sound := by intro call hmem; cases hmem }

/-- The invariant holds after every run from a pool just created. -/
theorem invariant_of_run {schedule : List (Action Request Empty)}
    (hbounded : (runtimeMachine g hasher).Along (UndosBounded g hasher) schedule
      (freshConfig g)) :
    Invariant g hasher ((runtimeMachine g hasher).run schedule (freshConfig g)) :=
  invariant_run (Invariant g hasher) (fun _ _ hinvariant hcondition ↦ hinvariant.apply hcondition)
    hbounded Invariant.fresh

end Run

end Fence
