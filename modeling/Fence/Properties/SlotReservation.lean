import Fence.Protocol.Invariant

/-!
# Slot reservation is exact

In every state of every run the appends hold exactly the slots below some number, one append
each, and the reserve tail is that number plus the pending undos. An append learns that the pool
is full only when all slots are handed out. A slot, once held, stays held by the same call
(`Holds.run`), so appends that start later get later slots.
-/

set_option autoImplicit false
set_option relaxedAutoImplicit false

namespace Fence

open ByteMemory Interleaving

variable {g : PoolGeometry} {hasher : Hasher}

/-! ### Slots stay held -/

theorem Holds.set {threads : List Call} {index slot : ℕ} {before after : Call}
    (hbefore : threads[index]? = some before) (hadvances : Advances before after) {other : ℕ}
    (hholds : Holds threads other slot) : Holds (threads.set index after) other slot := by
  rw [holds_set hbefore]
  split_ifs with hsame
  · subst hsame
    obtain ⟨call, hcall, hslot⟩ := hholds
    obtain rfl : before = call := Option.some.inj (hbefore.symm.trans hcall)
    obtain ⟨⟨held, entry, stage⟩, hreservation, rfl⟩ := Option.map_eq_some_iff.mp hslot
    obtain ⟨later, -, hlater⟩ := hadvances _ _ _ hreservation
    rw [Call.reservedSlot, hlater]
    rfl
  · exact hholds

/-- An action takes no slot away from a call. -/
theorem Holds.apply {config : Config Call Memory} (hinvariant : Invariant g hasher config)
    {index slot : ℕ} (hholds : Holds config.threads index slot) (action : Action Request Empty) :
    Holds ((runtimeMachine g hasher).apply config action).threads index slot := by
  cases action with
  | start request =>
    exact (holds_append request.call_reservedSlot).mpr hholds
  | env event => exact event.elim
  | step other =>
    cases hcall : config.threads[other]? with
    | none => rwa [apply_step_of_none _ hcall]
    | some call =>
      rw [apply_step_of_getElem? _ hcall]
      exact hholds.set hcall (hinvariant.stepSpec hcall).1.advances

/-- A run takes no slot away from a call. -/
theorem Holds.run {schedule : List (Action Request Empty)} {config : Config Call Memory}
    (hinvariant : Invariant g hasher config)
    (hbounded : (runtimeMachine g hasher).Along (UndosBounded g hasher) schedule config)
    {index slot : ℕ} (hholds : Holds config.threads index slot) :
    Holds ((runtimeMachine g hasher).run schedule config).threads index slot :=
  (invariant_run (fun config ↦ Invariant g hasher config ∧ Holds config.threads index slot)
    (fun _ action hboth hcondition ↦ ⟨hboth.1.apply hcondition, hboth.2.apply hboth.1 action⟩)
    hbounded ⟨hinvariant, hholds⟩).2

/-- Once all slots are handed out they stay so. -/
theorem Reserved.capacity_le {threads later : List Call} {reserveTail tail : ℕ}
    (hreserved : Reserved g.capacity 0 threads reserveTail)
    (hlater : Reserved g.capacity 0 later tail)
    (hholds : ∀ index slot, Holds threads index slot → Holds later index slot)
    (hfull : g.capacity ≤ reserveTail) : g.capacity ≤ tail := by
  have hpos := g.capacity_pos
  obtain ⟨index, hheld⟩ :=
    hreserved.covered (g.capacity - 1) (Nat.zero_le _) (by omega) (by omega)
  have hbounds := hlater.bounds index _ (hholds index _ hheld)
  omega

/-! ### Refused appends -/

/-- The call was given a slot past capacity. -/
def Call.Refused : Call → Prop
  | .append _ (.running (.undo _)) => True
  | .append _ (.running (.countFailed _)) => True
  | .append _ (.returned (.error (.poolFull _ _))) => True
  | _ => False

/-- An append is refused only when the reserve tail has passed the capacity. -/
theorem Call.Refused.of_step {call : Call} {memory : Memory}
    (hrefused : (call.step g hasher memory).1.Refused) :
    call.Refused ∨ g.capacity ≤ (Pool.ofMemory g memory).reserveTail := by
  match call with
  | .append entry (.running point) =>
    rw [Call.step_append] at hrefused
    cases point with
    | reserve =>
      by_cases hfull : g.capacity ≤ (Pool.ofMemory g memory).reserveTail
      · exact Or.inr hfull
      · have hroom : ¬ g.capacity ≤ loadWord memory hdrReserveTail 8 := hfull
        simp only [FenceRuntime.append, BackendCall.exec, if_neg hroom] at hrefused
        exact hrefused.elim
    | undo slot => exact Or.inl trivial
    | countFailed slot => exact Or.inl trivial
    | writeDataLen slot =>
      simp only [FenceRuntime.append, BackendCall.exec] at hrefused
      split_ifs at hrefused <;> exact hrefused.elim
    | sweep slot point =>
      simp only [FenceRuntime.append, BackendCall.exec_map] at hrefused
      cases hnext : ((Recovery.advanceCommittedTail g point).exec memory).1 <;>
        rw [hnext] at hrefused <;> exact hrefused.elim
    | _ => exact hrefused.elim
  | .read hostId index (.running point) =>
    rw [Call.step_read] at hrefused
    exact hrefused.elim
  | .trim upTo (.running point) =>
    rw [Call.step_trim] at hrefused
    exact hrefused.elim
  | .recover hostId (.running point) =>
    rw [Call.step_recover] at hrefused
    exact hrefused.elim
  | .append _ (.returned _) => exact Or.inl hrefused
  | .read _ _ (.returned _) => exact Or.inl hrefused
  | .trim _ (.returned _) => exact Or.inl hrefused
  | .recover _ (.returned _) => exact Or.inl hrefused

/-- A call that was just started was not refused. -/
theorem Request.call_not_refused (request : Request) : ¬ (request.call g).Refused := by
  cases request with
  | append entry =>
    simp only [Request.call, startAppend]
    split_ifs <;> exact id
  | read hostId index => exact id
  | trim upTo => exact id
  | recover hostId => exact id

/-- When an append was refused, all slots are handed out. -/
def FullIfRefused (g : PoolGeometry) (config : Config Call Memory) : Prop :=
  ∀ call ∈ config.threads, call.Refused →
    g.capacity ≤ (Pool.ofMemory g config.shared).reserveTail

theorem FullIfRefused.apply {config : Config Call Memory} (hfull : FullIfRefused g config)
    (hinvariant : Invariant g hasher config) {action : Action Request Empty}
    (hbounded : UndosBounded g hasher config action) :
    FullIfRefused g ((runtimeMachine g hasher).apply config action) := by
  have hlater := hinvariant.apply hbounded
  intro call hmem hrefused
  refine hinvariant.reserved.capacity_le hlater.reserved
    (fun index slot hholds ↦ hholds.apply hinvariant action) ?_
  cases action with
  | env event => exact event.elim
  | start request =>
    rcases List.mem_append.mp hmem with hold | hnew
    · exact hfull call hold hrefused
    · obtain rfl := List.mem_singleton.mp hnew
      exact (request.call_not_refused hrefused).elim
  | step index =>
    cases hcall : config.threads[index]? with
    | none =>
      rw [apply_step_of_none _ hcall] at hmem
      exact hfull call hmem hrefused
    | some stepped =>
      rw [apply_step_of_getElem? _ hcall] at hmem
      revert hrefused
      refine forall_mem_set (fun call ↦ call.Refused →
        g.capacity ≤ (Pool.ofMemory g config.shared).reserveTail) hcall ?_ ?_ call hmem
      · intro hrefused
        rcases hrefused.of_step with hbefore | hpassed
        · exact hfull stepped (List.mem_of_getElem? hcall) hbefore
        · exact hpassed
      · intro other call _ hother hrefused
        exact hfull call (List.mem_of_getElem? hother) hrefused

/-! ### The theorem -/

/-- The slots given out are exactly the first `given` ones, each to one append, and nothing else
moves the reserve tail. -/
structure SlotsExact (g : PoolGeometry) (config : Config Call Memory) (given : ℕ) : Prop where
  given_le : given ≤ g.capacity
  exclusive : ∀ index other slot, Holds config.threads index slot →
    Holds config.threads other slot → index = other
  exact_slots : ∀ slot, (∃ index, Holds config.threads index slot) ↔ slot < given
  reserveTail_eq :
    (Pool.ofMemory g config.shared).reserveTail = given + pendingUndos config.threads
  full_of_poolFull : ∀ (index : ℕ) (entry : Entry) (capacity slot : ℕ), config.threads[index]? =
    some (.append entry (.returned (.error (.poolFull capacity slot)))) → given = g.capacity

theorem Invariant.slotsExact {config : Config Call Memory} (hinvariant : Invariant g hasher config)
    (hfull : FullIfRefused g config) :
    SlotsExact g config (min (Pool.ofMemory g config.shared).reserveTail g.capacity) where
  given_le := Nat.min_le_right _ _
  exclusive := hinvariant.reserved.exclusive
  exact_slots := by
    intro slot
    constructor
    · rintro ⟨index, hholds⟩
      obtain ⟨-, hcapacity, htail⟩ := hinvariant.reserved.bounds index slot hholds
      omega
    · intro hslot
      exact hinvariant.reserved.covered slot (Nat.zero_le _) (by omega) (by omega)
  reserveTail_eq := by
    have hpending := hinvariant.reserved.pending
    rw [Nat.max_zero] at hpending
    omega
  full_of_poolFull := by
    intro index entry capacity slot hcall
    have := hfull _ (List.mem_of_getElem? hcall) trivial
    omega

/-- Slots given to calls that start later come later. -/
theorem Reserved.slot_lt_of_later {early late : Config Call Memory}
    (hearly : Reserved g.capacity 0 early.threads (Pool.ofMemory g early.shared).reserveTail)
    (hlate : Reserved g.capacity 0 late.threads (Pool.ofMemory g late.shared).reserveTail)
    (hholds : ∀ index slot, Holds early.threads index slot → Holds late.threads index slot)
    {index other slot later : ℕ} (hslot : Holds early.threads index slot)
    (hother : early.threads.length ≤ other) (hlater : Holds late.threads other later) :
    slot < later := by
  by_contra hle
  have hbounds := hearly.bounds index slot hslot
  obtain ⟨holder, hheld⟩ := hearly.covered later (Nat.zero_le _) (by omega) (by omega)
  obtain rfl := hlate.exclusive _ _ _ (hholds _ _ hheld) hlater
  obtain ⟨call, hcall, -⟩ := hheld
  obtain ⟨hold, -⟩ := List.getElem?_eq_some_iff.mp hcall
  omega

/-- Slot reservation is exact after every run in which the pending undos stay bounded, and an
append started after another returned gets a larger index. -/
theorem slot_reservation_exact {before after : List (Action Request Empty)}
    (hbounded : (runtimeMachine g hasher).Along (UndosBounded g hasher) (before ++ after)
      (freshConfig g)) :
    let early := (runtimeMachine g hasher).run before (freshConfig g)
    let late := (runtimeMachine g hasher).run (before ++ after) (freshConfig g)
    (∃ given, SlotsExact g late given) ∧
      ∀ (index other : ℕ) (entry written : Entry) (i j : ℕ),
        early.threads[index]? = some (.append entry (.returned (.ok i))) →
        early.threads.length ≤ other →
        late.threads[other]? = some (.append written (.returned (.ok j))) → i < j := by
  intro early late
  have hlate := invariant_of_run hbounded
  obtain ⟨hboundedEarly, hboundedLate⟩ := along_append.mp hbounded
  have hearly := invariant_of_run hboundedEarly
  have hfull : FullIfRefused g late :=
    (invariant_run (fun config ↦ Invariant g hasher config ∧ FullIfRefused g config)
      (fun _ _ hboth hcondition ↦
        ⟨hboth.1.apply hcondition, hboth.2.apply hboth.1 hcondition⟩) hbounded
      ⟨Invariant.fresh, fun call hmem ↦ by cases hmem⟩).2
  refine ⟨⟨_, hlate.slotsExact hfull⟩, ?_⟩
  intro index other entry written i j hindex hother hlater
  have hkept : ∀ index slot, Holds early.threads index slot → Holds late.threads index slot := by
    intro index slot hheld
    have hrun := hheld.run hearly hboundedLate
    rwa [← run_append] at hrun
  have hslots := hearly.reserved.slot_lt_of_later hlate.reserved hkept
    (holds_of_reservation hindex rfl) hother (holds_of_reservation hlater rfl)
  omega

/-- Two appends to a pool of one slot, the second one past capacity. -/
theorem slot_reservation_exact_onePool :
    ∃ given, SlotsExact onePool ((runtimeMachine onePool crc32fast).run
      (alone (.append ⟨0, 1, [7]⟩) 0 16 ++ alone (.append ⟨0, 2, [9]⟩) 1 2)
      (freshConfig onePool)) given :=
  (slot_reservation_exact (by decide +kernel)).1

end Fence
