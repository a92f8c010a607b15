import Fence.Protocol.Published

/-!
# Slots of calls that are gone

A power failure takes the calls away and leaves slots that are still marked as being written, and
nobody will ever write them. `Pool.writeOff` counts those below a bound as abandoned, which is how
every routine that looks at them treats them: no reader returns them, no sweep passes them, and a
recovery that comes across one marks it. So a step has the same effect on the pool and on the pool
with such slots written off (`Effect.writeOff`), and readers are shown the same log
(`Pool.publishedLog_writeOff`).

`Inherited` is the invariant of calls on a pool that other calls have left behind: the invariant of
the log holds of all of them together, the slots of the calls that are gone written off.
-/

set_option autoImplicit false
set_option relaxedAutoImplicit false

namespace Fence

open ByteMemory Interleaving

variable {g : PoolGeometry} {hasher : Hasher}

/-- The slots below a bound that are still marked as being written count as abandoned. -/
def Pool.writeOff (first : ℕ) (pool : Pool) : Pool :=
  { pool with
    slot := fun slot ↦
      if slot < first ∧ pool.state slot = stateWriting then
        store (pool.slot slot) recState [stateAbandoned]
      else pool.slot slot }

section WriteOff

variable {first slot : ℕ} {pool : Pool}

@[simp] theorem Pool.writeOff_committedTail :
    (pool.writeOff first).committedTail = pool.committedTail := rfl

@[simp] theorem Pool.writeOff_reserveTail :
    (pool.writeOff first).reserveTail = pool.reserveTail := rfl

theorem Pool.writeOff_slot (pool : Pool) (first slot : ℕ) :
    (pool.writeOff first).slot slot = if slot < first ∧ pool.state slot = stateWriting then
      store (pool.slot slot) recState [stateAbandoned] else pool.slot slot := rfl

/-- A slot past the bound is left alone. -/
theorem Pool.writeOff_slot_of_le (hslot : first ≤ slot) :
    (pool.writeOff first).slot slot = pool.slot slot :=
  if_neg fun hoff ↦ Nat.not_lt_of_le hslot hoff.1

/-- Nothing lies below a bound of zero. -/
theorem Pool.writeOff_zero (pool : Pool) : pool.writeOff 0 = pool :=
  Pool.ext rfl rfl (funext fun _ ↦ writeOff_slot_of_le (Nat.zero_le _))

theorem Pool.state_writeOff (pool : Pool) (first slot : ℕ) :
    (pool.writeOff first).state slot =
      if slot < first ∧ pool.state slot = stateWriting then stateAbandoned
      else pool.state slot := by
  rw [state, writeOff_slot]
  split_ifs
  · exact store_state_self _ _
  · rfl

/-- A state that is not that of a slot being written stays as it is. -/
theorem Pool.state_writeOff_eq_iff {state : UInt8} (hwriting : state ≠ stateWriting)
    (habandoned : state ≠ stateAbandoned) :
    (pool.writeOff first).state slot = state ↔ pool.state slot = state := by
  rw [state_writeOff]
  split_ifs with hoff
  · rw [hoff.2]
    exact ⟨fun hsame ↦ absurd hsame.symm habandoned, fun hsame ↦ absurd hsame.symm hwriting⟩
  · rfl

theorem Pool.state_writeOff_committed :
    (pool.writeOff first).state slot = stateCommitted ↔ pool.state slot = stateCommitted :=
  state_writeOff_eq_iff (by decide) (by decide)

theorem Pool.state_writeOff_free :
    (pool.writeOff first).state slot = stateFree ↔ pool.state slot = stateFree :=
  state_writeOff_eq_iff (by decide) (by decide)

/-- What lies behind the state byte stays as it is. -/
theorem Pool.load_writeOff {offset length : ℕ} (hoffset : recState < offset) :
    load ((pool.writeOff first).slot slot) offset length = load (pool.slot slot) offset length := by
  rw [writeOff_slot]
  split_ifs
  · exact load_store_outside (Or.inr hoffset)
  · rfl

theorem Written.writeOff_iff {entry : Entry} {stage : ℕ} :
    Written hasher entry slot stage ((pool.writeOff first).slot slot) ↔
      Written hasher entry slot stage (pool.slot slot) := by
  refine forall_congr' fun field ↦ forall_congr' fun hfield ↦ ?_
  rw [Pool.load_writeOff (recordFields_stage hfield).2.2]

/-- A store into a slot past the bound. -/
theorem Pool.writeOff_storeSlot_of_le (hslot : first ≤ slot) (offset : ℕ) (bytes : List UInt8) :
    (pool.storeSlot slot offset bytes).writeOff first =
      (pool.writeOff first).storeSlot slot offset bytes := by
  refine Pool.ext rfl rfl ?_
  funext other
  by_cases hother : other = slot
  · subst hother
    rw [writeOff_slot_of_le hslot, storeSlot_slot_self, storeSlot_slot_self,
      writeOff_slot_of_le hslot]
  · rw [writeOff_slot, storeSlot_slot_ne _ hother, storeSlot_slot_ne _ hother, writeOff_slot,
      state_storeSlot_ne _ hother]

/-- A slot that is marked abandoned may have been written off before. -/
theorem Pool.writeOff_abandon (pool : Pool) (first slot : ℕ) :
    (pool.storeSlot slot recState [stateAbandoned]).writeOff first =
      (pool.writeOff first).storeSlot slot recState [stateAbandoned] := by
  refine Pool.ext rfl rfl ?_
  funext other
  by_cases hother : other = slot
  · subst hother
    rw [writeOff_slot, state_storeSlot_self, if_neg fun hoff ↦ absurd hoff.2 (by decide),
      storeSlot_slot_self, storeSlot_slot_self, writeOff_slot]
    split_ifs
    · rw [store_store_self _ _ rfl]
    · rfl
  · rw [writeOff_slot, storeSlot_slot_ne _ hother, storeSlot_slot_ne _ hother, writeOff_slot,
      state_storeSlot_ne _ hother]

/-- Readers are shown the same log. -/
theorem Pool.publishedLog_writeOff :
    (pool.writeOff first).publishedLog = pool.publishedLog := by
  refine List.map_congr_left fun slot _ ↦ ?_
  have hentry : storedEntry ((pool.writeOff first).slot slot) = storedEntry (pool.slot slot) := by
    simp only [storedEntry, loadWord]
    rw [load_writeOff (by decide), load_writeOff (by decide), load_writeOff (by decide),
      load_writeOff (by decide)]
  rw [item, item, hentry]
  simp only [ne_eq, state_writeOff_committed]

end WriteOff

/-! ### Steps -/

section Step

variable {threads : List Call} {first : ℕ} {pool later : Pool} {before after : Call}

/-- A step has the same effect when slots below the bound are written off, since the call that takes
the step holds none of them. -/
theorem Effect.writeOff (heffect : Effect g hasher threads pool before after later)
    (hlive : ∀ slot, before.reservedSlot = some slot → first ≤ slot) :
    Effect g hasher threads (pool.writeOff first) before after (later.writeOff first) := by
  have hstore : ∀ slot entry stage offset bytes, before.reservation = some ⟨slot, entry, stage⟩ →
      (pool.storeSlot slot offset bytes).writeOff first =
        (pool.writeOff first).storeSlot slot offset bytes := by
    intro slot entry stage offset bytes hreservation
    exact Pool.writeOff_storeSlot_of_le
      (hlive slot (by rw [Call.reservedSlot, hreservation]; rfl)) offset bytes
  have hreserve : ∀ reserveTail, ({ pool with reserveTail := reserveTail } : Pool).writeOff first =
      { pool.writeOff first with reserveTail := reserveTail } := fun _ ↦ rfl
  have hkept : (pool.writeOff first).reserveTail = pool.reserveTail := rfl
  cases heffect with
  | quiet hquiet => exact .quiet hquiet
  | reserve entry hsize =>
    rw [hreserve ((pool.reserveTail + 1) % 2 ^ 64), ← hkept]
    exact .reserve entry hsize
  | undo entry slot =>
    rw [hreserve ((pool.reserveTail + (2 ^ 64 - 1)) % 2 ^ 64), ← hkept]
    exact .undo entry slot
  | begin entry slot hslot =>
    rw [hstore slot entry 0 _ _ rfl]
    exact .begin entry slot hslot
  | fill hfield hbefore hafter hlater hbeforeUndo hafterUndo hslot =>
    rw [hstore _ _ _ _ _ hbefore]
    exact .fill hfield hbefore hafter hlater hbeforeUndo hafterUndo hslot
  | commit entry slot hslot =>
    rw [hstore slot entry 8 _ _ rfl]
    exact .commit entry slot hslot
  | abandon hquiet habandoning hslot hbegun =>
    rw [Pool.writeOff_abandon]
    exact .abandon hquiet habandoning hslot hbegun
  | publish hquiet hpoint hle hcapacity hstored =>
    exact .publish hquiet hpoint hle hcapacity hstored

/-- What calls rely on does not depend on the slots that are written off. -/
theorem Rely.of_writeOff (hrely : Rely g hasher threads (pool.writeOff first)) :
    Rely g hasher threads pool where
  stored_of_committed := fun slot hslot hstate ↦
    hrely.stored_of_committed slot hslot (Pool.state_writeOff_committed.mpr hstate)
  begun_of_not_free := fun slot hslot hstate ↦
    hrely.begun_of_not_free slot hslot (mt Pool.state_writeOff_free.mp hstate)
  complete_of_stored := by
    intro slot entry hstored
    obtain ⟨hslot, hsize, hcomplete⟩ := hrely.complete_of_stored slot entry hstored
    have hload : ∀ {offset length}, recState < offset → load (pool.slot slot) offset length =
        load ((pool.writeOff first).slot slot) offset length :=
      fun hoffset ↦ (Pool.load_writeOff hoffset).symm
    exact
      ⟨hslot, hsize,
        { term := (loadWord_congr (hload (by decide))).trans hcomplete.term
          index := (loadWord_congr (hload (by decide))).trans hcomplete.index
          writerId := (loadWord_congr (hload (by decide))).trans hcomplete.writerId
          dataLen := (congrArg leValue (hload (by decide))).trans hcomplete.dataLen
          payload := (hload (by decide)).trans hcomplete.payload
          checksum := (loadWord_congr (hload (by decide))).trans hcomplete.checksum }⟩
  stored_of_lt_tail := hrely.stored_of_lt_tail

end Step

/-! ### The invariant -/

variable (g hasher) in
/-- The invariant of calls on a pool on which other calls, now gone, hold the slots below a
bound. -/
structure Inherited (first : ℕ) (gone : List Call) (config : Config Call Memory) : Prop where
  reserved : Reserved g.capacity 0 (gone ++ config.threads)
    (Pool.ofMemory g config.shared).reserveTail
  contents : Contents g hasher (gone ++ config.threads)
    ((Pool.ofMemory g config.shared).writeOff first)
  held : ∀ slot < g.capacity, slot < first → ∃ index, Holds gone index slot

section Inherited

variable {first : ℕ} {gone : List Call} {config : Config Call Memory}

theorem getElem?_gone_append {threads : List Call} {index : ℕ} {call : Call}
    (hcall : threads[index]? = some call) :
    (gone ++ threads)[gone.length + index]? = some call := by
  rw [List.getElem?_append_right (Nat.le_add_right _ _), Nat.add_sub_cancel_left, hcall]

theorem set_gone_append (threads : List Call) (index : ℕ) (call : Call) :
    (gone ++ threads).set (gone.length + index) call = gone ++ threads.set index call := by
  rw [List.set_append_right _ _ (Nat.le_add_right _ _), Nat.add_sub_cancel_left]

theorem Inherited.rely (hinherited : Inherited g hasher first gone config) :
    Rely g hasher (gone ++ config.threads) (Pool.ofMemory g config.shared) :=
  Rely.of_writeOff (hinherited.contents.rely hinherited.reserved)

/-- A call in flight holds no slot of the calls that are gone. -/
theorem Inherited.le_reservedSlot (hinherited : Inherited g hasher first gone config) {index : ℕ}
    {call : Call} (hcall : config.threads[index]? = some call) {slot : ℕ}
    (hslot : call.reservedSlot = some slot) : first ≤ slot := by
  by_contra hbelow
  have hholds : Holds (gone ++ config.threads) (gone.length + index) slot :=
    ⟨call, getElem?_gone_append hcall, hslot⟩
  have hcapacity := (hinherited.reserved.bounds _ _ hholds).2.1
  obtain ⟨other, held, hheld, hheldSlot⟩ :=
    hinherited.held slot hcapacity (Nat.lt_of_not_le hbelow)
  obtain ⟨hother, -⟩ := List.getElem?_eq_some_iff.mp hheld
  have hsame := hinherited.reserved.exclusive _ _ _ hholds
    ⟨held, (List.getElem?_append_left hother).trans hheld, hheldSlot⟩
  omega

/-- A step of a call has an effect and leaves the call sound. -/
theorem Inherited.stepSpec (hinherited : Inherited g hasher first gone config) {index : ℕ}
    {call : Call} (hcall : config.threads[index]? = some call) :
    StepSpec g hasher (gone ++ config.threads) config.shared call
      (call.step g hasher config.shared).1 (call.step g hasher config.shared).2 :=
  Call.step_spec hinherited.rely (hinherited.contents.sound call
    (List.mem_append_right _ (List.mem_of_getElem? hcall)))

/-- Starting a call changes no contents. -/
theorem Contents.start {threads : List Call} {pool : Pool}
    (hcontents : Contents g hasher threads pool) (request : Request) :
    Contents g hasher (threads ++ [request.call g]) pool := by
  have hextends : Extends threads _ := extends_append (request.call g)
  exact
    { written := by
        intro call hmem
        rcases List.mem_append.mp hmem with hold | hnew
        · exact hcontents.written call hold
        · obtain rfl := List.mem_singleton.mp hnew
          exact .of_reservation_none request.call_reservation.1
      free := hcontents.free
      published := fun slot hslot ↦ hextends.exists_reached (hcontents.published slot hslot)
      sound := by
        intro call hmem
        rcases List.mem_append.mp hmem with hold | hnew
        · exact (hcontents.sound call hold).mono hextends (Nat.le_refl _)
        · obtain rfl := List.mem_singleton.mp hnew
          exact request.call_sound _ }

/-- Every action keeps the invariant, as long as not too many undos are pending. -/
theorem Inherited.apply (hinherited : Inherited g hasher first gone config)
    {action : Action Request Empty}
    (hbounded : pendingUndos (gone ++ ((runtimeMachine g hasher).apply config action).threads) <
      2 ^ 64 - g.capacity) :
    Inherited g hasher first gone ((runtimeMachine g hasher).apply config action) where
  held := hinherited.held
  reserved := by
    cases action with
    | start request =>
      have hstarted := hinherited.reserved.append request.call_reservedSlot
        (request.call_reservation (g := g)).2
      rwa [List.append_assoc] at hstarted
    | env event => exact event.elim
    | step index =>
      cases hcall : config.threads[index]? with
      | none =>
        rw [apply_step_of_none _ hcall]
        exact hinherited.reserved
      | some call =>
        rw [apply_step_of_getElem? _ hcall] at hbounded ⊢
        rw [← set_gone_append] at hbounded ⊢
        have hcapacity := g.capacity_lt
        exact hinherited.reserved.step (by omega) Pool.reserveTail_lt (getElem?_gone_append hcall)
          call.reserveStep (by rwa [Nat.max_zero])
  contents := by
    cases action with
    | start request =>
      have hstarted := hinherited.contents.start request
      rwa [List.append_assoc] at hstarted
    | env event => exact event.elim
    | step index =>
      cases hcall : config.threads[index]? with
      | none =>
        rw [apply_step_of_none _ hcall]
        exact hinherited.contents
      | some call =>
        rw [apply_step_of_getElem? _ hcall] at hbounded ⊢
        rw [← set_gone_append] at hbounded ⊢
        have hcapacity := g.capacity_lt
        have hlater := hinherited.reserved.step (by omega) Pool.reserveTail_lt
          (getElem?_gone_append hcall) (@Call.reserveStep g hasher _ call)
          (by rwa [Nat.max_zero])
        obtain ⟨heffect, hsound⟩ := hinherited.stepSpec hcall
        have hreserved : Reserved g.capacity 0 (gone ++ config.threads)
          ((Pool.ofMemory g config.shared).writeOff first).reserveTail := hinherited.reserved
        exact hinherited.contents.step hreserved (getElem?_gone_append hcall)
          (heffect.writeOff fun slot hslot ↦ hinherited.le_reservedSlot hcall hslot) hlater hsound

/-- A pool just created has no slot that was handed out before. -/
theorem Inherited.fresh : Inherited g hasher 0 [] (freshConfig g) where
  reserved := (Invariant.fresh : Invariant g hasher (freshConfig g)).reserved
  contents := by
    rw [Pool.writeOff_zero]
    exact (Invariant.fresh : Invariant g hasher (freshConfig g)).contents
  held := fun _ _ hslot ↦ absurd hslot (Nat.not_lt_zero _)

/-- Every action changes the log that readers are shown as a change of the log. -/
theorem Inherited.publishedLog_change (hinherited : Inherited g hasher first gone config)
    (action : Action Request Empty) :
    (publishedLog g config.shared).Change
      (publishedLog g ((runtimeMachine g hasher).apply config action).shared) := by
  cases action with
  | start request => exact .stay
  | env event => exact event.elim
  | step index =>
    cases hcall : config.threads[index]? with
    | none =>
      rw [apply_step_of_none _ hcall]
      exact .stay
    | some call =>
      rw [apply_step_of_getElem? _ hcall]
      have hchange := hinherited.contents.publishedLog_change hinherited.reserved
        (getElem?_gone_append hcall) ((hinherited.stepSpec hcall).1.writeOff
          fun slot hslot ↦ hinherited.le_reservedSlot hcall hslot)
      rwa [Pool.publishedLog_writeOff, Pool.publishedLog_writeOff] at hchange

end Inherited

end Fence
