import Fence.Protocol.Steps

/-!
# Which slots are handed out

`Reserved` says that the slots held by appends are exactly those between the first slot and the
reserve tail, cut off at the capacity, that no two appends hold the same slot, and that the
reserve tail lies past the capacity by the number of pending undos. What a step does to all this
is a `ReserveStep`, of one of three kinds.

The invariant needs that the reserve tail does not wrap. It is kept from wrapping by a bound on
the undos that are pending at once, which is a condition on runs and not something the code
checks.

The first slot is zero for a pool just created. It is the reserve tail found in the file for a
pool that was reopened.
-/

set_option autoImplicit false
set_option relaxedAutoImplicit false

namespace Fence

open ByteMemory Interleaving

/-- The slot a call holds. -/
def Call.reservedSlot (call : Call) : Option ℕ := call.reservation.map Reservation.slot

/-- The call at an index holds a slot. -/
def Holds (threads : List Call) (index slot : ℕ) : Prop :=
  ∃ call, threads[index]? = some call ∧ call.reservedSlot = some slot

/-- The call at an index holds a slot and writes an entry there. -/
def Writes (threads : List Call) (index slot : ℕ) (entry : Entry) : Prop :=
  ∃ call stage, threads[index]? = some call ∧ call.reservation = some ⟨slot, entry, stage⟩

/-- The number of appends that took a slot past capacity and have not given it back yet. -/
def pendingUndos (threads : List Call) : ℕ := threads.countP Call.pendingUndo

/-- What a step of a call does to the slots handed out. -/
inductive ReserveStep (capacity reserveTail : ℕ) : Call → Call → ℕ → Prop
  /-- The call keeps its slot, and nothing is handed out. -/
  | keep {before after : Call} (hslot : after.reservedSlot = before.reservedSlot)
    (hundo : after.pendingUndo = before.pendingUndo) :
    ReserveStep capacity reserveTail before after reserveTail
  /-- An append takes the slot at the reserve tail. -/
  | reserve (entry : Entry) :
    ReserveStep capacity reserveTail (.append entry (.running .reserve))
      (.append entry (if capacity ≤ reserveTail then .running (.undo reserveTail)
        else .running (.storeWriting reserveTail)))
      ((reserveTail + 1) % 2 ^ 64)
  /-- An append gives back a slot past capacity. -/
  | undo (entry : Entry) (slot : ℕ) :
    ReserveStep capacity reserveTail (.append entry (.running (.undo slot)))
      (.append entry (.running (.countFailed slot)))
      ((reserveTail + (2 ^ 64 - 1)) % 2 ^ 64)

/-- The slots handed out, from the first slot on. -/
structure Reserved (capacity first : ℕ) (threads : List Call) (reserveTail : ℕ) : Prop where
  first_le : first ≤ reserveTail
  bounds : ∀ index slot, Holds threads index slot →
    first ≤ slot ∧ slot < capacity ∧ slot < reserveTail
  exclusive : ∀ index other slot, Holds threads index slot → Holds threads other slot →
    index = other
  covered : ∀ slot, first ≤ slot → slot < capacity → slot < reserveTail →
    ∃ index, Holds threads index slot
  pending : pendingUndos threads = reserveTail - max capacity first

/-! ### Lists of calls -/

section Lists

variable {threads : List Call} {index : ℕ} {before after : Call}

theorem holds_set (hbefore : threads[index]? = some before) {other slot : ℕ} :
    Holds (threads.set index after) other slot ↔
      if other = index then after.reservedSlot = some slot else Holds threads other slot := by
  obtain ⟨hindex, -⟩ := List.getElem?_eq_some_iff.mp hbefore
  unfold Holds
  split_ifs with hsame
  · subst hsame
    simp [List.getElem?_set_self hindex]
  · rw [List.getElem?_set_ne (Ne.symm hsame)]

/-- A call that keeps its slot changes nothing. -/
theorem holds_set_keep (hbefore : threads[index]? = some before)
    (hslot : after.reservedSlot = before.reservedSlot) {other slot : ℕ} :
    Holds (threads.set index after) other slot ↔ Holds threads other slot := by
  rw [holds_set hbefore]
  split_ifs with hsame
  · subst hsame
    simp [Holds, hbefore, hslot]
  · exact Iff.rfl

theorem holds_append {call : Call} (hcall : call.reservedSlot = none) {other slot : ℕ} :
    Holds (threads ++ [call]) other slot ↔ Holds threads other slot := by
  constructor
  · rintro ⟨held, hheld, hslot⟩
    by_cases hold : other < threads.length
    · exact ⟨held, by rwa [List.getElem?_append_left hold] at hheld, hslot⟩
    · rw [List.getElem?_append_right (Nat.le_of_not_lt hold)] at hheld
      obtain rfl : held = call := by simpa using List.mem_of_getElem? hheld
      rw [hcall] at hslot
      cases hslot
  · rintro ⟨held, hheld, hslot⟩
    obtain ⟨hold, -⟩ := List.getElem?_eq_some_iff.mp hheld
    exact ⟨held, by rwa [List.getElem?_append_left hold], hslot⟩

/-- The pending undos after a step, in terms of those before. -/
theorem pendingUndos_set (after : Call) (hbefore : threads[index]? = some before) :
    pendingUndos (threads.set index after) + (if before.pendingUndo then 1 else 0) =
      pendingUndos threads + (if after.pendingUndo then 1 else 0) := by
  obtain ⟨hindex, hget⟩ := List.getElem?_eq_some_iff.mp hbefore
  have hcount : (if before.pendingUndo then 1 else 0) ≤ pendingUndos threads := by
    split_ifs with hundo
    · exact List.countP_pos_iff.mpr ⟨before, List.mem_of_getElem? hbefore, hundo⟩
    · exact Nat.zero_le _
  unfold pendingUndos at hcount ⊢
  rw [List.countP_set hindex, hget]
  omega

end Lists

/-! ### Steps -/

variable {capacity first reserveTail : ℕ} {threads : List Call}

/-- No call has started yet. -/
theorem Reserved.nil : Reserved capacity first [] first where
  first_le := Nat.le_refl _
  bounds := by rintro index slot ⟨call, hcall, -⟩; simp at hcall
  exclusive := by rintro index other slot ⟨call, hcall, -⟩; simp at hcall
  covered := by intro slot hlow _ hhigh; omega
  pending := (Nat.sub_eq_zero_of_le (Nat.le_max_right _ _)).symm

theorem Reserved.append (hreserved : Reserved capacity first threads reserveTail) {call : Call}
    (hslot : call.reservedSlot = none) (hundo : call.pendingUndo = false) :
    Reserved capacity first (threads ++ [call]) reserveTail where
  first_le := hreserved.first_le
  bounds := by
    intro index slot hholds
    exact hreserved.bounds index slot ((holds_append hslot).mp hholds)
  exclusive := by
    intro index other slot hfirst hsecond
    exact hreserved.exclusive index other slot ((holds_append hslot).mp hfirst)
      ((holds_append hslot).mp hsecond)
  covered := by
    intro slot hlow hcapacity hhigh
    obtain ⟨index, hholds⟩ := hreserved.covered slot hlow hcapacity hhigh
    exact ⟨index, (holds_append hslot).mpr hholds⟩
  pending := by
    rw [← hreserved.pending]
    simp [pendingUndos, List.countP_append, hundo]

section Step

variable {index : ℕ} {before after : Call}

theorem Reserved.keep (hreserved : Reserved capacity first threads reserveTail)
    (hbefore : threads[index]? = some before) (hslot : after.reservedSlot = before.reservedSlot)
    (hundo : after.pendingUndo = before.pendingUndo) :
    Reserved capacity first (threads.set index after) reserveTail := by
  have hholds : ∀ other slot, Holds (threads.set index after) other slot ↔
      Holds threads other slot := fun _ _ ↦ holds_set_keep hbefore hslot
  have hpending := pendingUndos_set after hbefore
  exact
    { first_le := hreserved.first_le
      bounds := fun index slot hheld ↦ hreserved.bounds index slot ((hholds _ _).mp hheld)
      exclusive := fun index other slot hfirst hsecond ↦
        hreserved.exclusive index other slot ((hholds _ _).mp hfirst) ((hholds _ _).mp hsecond)
      covered := fun slot hlow hcapacity hhigh ↦
        (hreserved.covered slot hlow hcapacity hhigh).imp fun _ ↦ (hholds _ _).mpr
      pending := by rw [← hreserved.pending]; rw [hundo] at hpending; omega }

theorem Reserved.reserve (hreserved : Reserved capacity first threads reserveTail)
    (hcapacity : capacity < 2 ^ 64) (htail : reserveTail < 2 ^ 64) {entry : Entry}
    (hbefore : threads[index]? = some (.append entry (.running .reserve)))
    (hafter : after = .append entry (if capacity ≤ reserveTail then .running (.undo reserveTail)
      else .running (.storeWriting reserveTail)))
    (hbounded : pendingUndos (threads.set index after) < 2 ^ 64 - max capacity first) :
    Reserved capacity first (threads.set index after) ((reserveTail + 1) % 2 ^ 64) := by
  have hpending := pendingUndos_set after hbefore
  have hfirst := hreserved.first_le
  have hcount := hreserved.pending
  by_cases hfull : capacity ≤ reserveTail
  · rw [if_pos hfull] at hafter
    have hslot : after.reservedSlot = none := by rw [hafter]; rfl
    have hundo : after.pendingUndo = true := by rw [hafter]; rfl
    have hholds : ∀ other slot, Holds (threads.set index after) other slot ↔
        Holds threads other slot := fun _ _ ↦ holds_set_keep hbefore hslot
    rw [hundo] at hpending
    have hsum : pendingUndos (threads.set index after) = pendingUndos threads + 1 := hpending
    have hnowrap : (reserveTail + 1) % 2 ^ 64 = reserveTail + 1 := Nat.mod_eq_of_lt (by omega)
    rw [hnowrap]
    exact
      { first_le := by omega
        bounds := by
          intro other slot hheld
          have := hreserved.bounds other slot ((hholds _ _).mp hheld)
          omega
        exclusive := fun index other slot hfirst hsecond ↦
          hreserved.exclusive index other slot ((hholds _ _).mp hfirst) ((hholds _ _).mp hsecond)
        covered := fun slot hlow hslotLt _ ↦
          (hreserved.covered slot hlow hslotLt (by omega)).imp fun _ ↦ (hholds _ _).mpr
        pending := by omega }
  · rw [if_neg hfull] at hafter
    have hslot : after.reservedSlot = some reserveTail := by rw [hafter]; rfl
    have hundo : after.pendingUndo = false := by rw [hafter]; rfl
    have hholds : ∀ other slot, Holds (threads.set index after) other slot ↔
        if other = index then reserveTail = slot else Holds threads other slot := by
      intro other slot
      rw [holds_set hbefore, hslot, Option.some.injEq]
    have hfresh : ∀ other, ¬ Holds threads other reserveTail := fun other hheld ↦
      Nat.lt_irrefl _ (hreserved.bounds other reserveTail hheld).2.2
    rw [hundo] at hpending
    have hsame : pendingUndos (threads.set index after) = pendingUndos threads := hpending
    have hnowrap : (reserveTail + 1) % 2 ^ 64 = reserveTail + 1 := Nat.mod_eq_of_lt (by omega)
    rw [hnowrap]
    exact
      { first_le := by omega
        bounds := by
          intro other slot hheld
          rw [hholds] at hheld
          split_ifs at hheld with hother
          · omega
          · have := hreserved.bounds other slot hheld
            omega
        exclusive := by
          intro left right slot hleft hright
          rw [hholds] at hleft hright
          split_ifs at hleft hright with hl hr hr
          · omega
          · exact absurd (hleft ▸ hright) (hfresh right)
          · exact absurd (hright ▸ hleft) (hfresh left)
          · exact hreserved.exclusive left right slot hleft hright
        covered := by
          intro slot hlow hslotLt hhigh
          by_cases hnew : slot = reserveTail
          · exact ⟨index, (hholds _ _).mpr (by rw [if_pos rfl, hnew])⟩
          · obtain ⟨other, hheld⟩ := hreserved.covered slot hlow hslotLt (by omega)
            refine ⟨other, (hholds _ _).mpr ?_⟩
            rw [if_neg]
            · exact hheld
            · rintro rfl
              simp [Holds, hbefore, Call.reservedSlot, Call.reservation,
                AppendPoint.progress] at hheld
        pending := by omega }

theorem Reserved.undo (hreserved : Reserved capacity first threads reserveTail)
    (htail : reserveTail < 2 ^ 64) {entry : Entry} {slot : ℕ}
    (hbefore : threads[index]? = some (.append entry (.running (.undo slot)))) :
    Reserved capacity first (threads.set index (.append entry (.running (.countFailed slot))))
      ((reserveTail + (2 ^ 64 - 1)) % 2 ^ 64) := by
  have hpending := pendingUndos_set (.append entry (.running (.countFailed slot))) hbefore
  have hcount := hreserved.pending
  have hfirst := hreserved.first_le
  have hsum : pendingUndos (threads.set index (.append entry (.running (.countFailed slot)))) + 1 =
      pendingUndos threads := hpending
  have hless : (reserveTail + (2 ^ 64 - 1)) % 2 ^ 64 = reserveTail - 1 := by omega
  have hholds : ∀ other held, Holds (threads.set index (.append entry (.running
      (.countFailed slot)))) other held ↔ Holds threads other held := by
    intro other held
    apply holds_set_keep hbefore
    rfl
  rw [hless]
  exact
    { first_le := by omega
      bounds := by
        intro other held hheld
        have := hreserved.bounds other held ((hholds _ _).mp hheld)
        omega
      exclusive := fun index other slot hfirst hsecond ↦
        hreserved.exclusive index other slot ((hholds _ _).mp hfirst) ((hholds _ _).mp hsecond)
      covered := fun slot hlow hcapacity hhigh ↦
        (hreserved.covered slot hlow hcapacity (by omega)).imp fun _ ↦ (hholds _ _).mpr
      pending := by omega }

/-- Every step keeps the slots handed out exact, as long as not too many undos are pending. -/
theorem Reserved.step {tail : ℕ} (hreserved : Reserved capacity first threads reserveTail)
    (hcapacity : capacity < 2 ^ 64) (htail : reserveTail < 2 ^ 64)
    (hbefore : threads[index]? = some before)
    (hstep : ReserveStep capacity reserveTail before after tail)
    (hbounded : pendingUndos (threads.set index after) < 2 ^ 64 - max capacity first) :
    Reserved capacity first (threads.set index after) tail := by
  cases hstep with
  | keep hslot hundo => exact hreserved.keep hbefore hslot hundo
  | reserve entry => exact hreserved.reserve hcapacity htail hbefore rfl hbounded
  | undo entry slot => exact hreserved.undo htail hbefore

end Step

/-! ### Steps of calls -/

variable {g : PoolGeometry} {hasher : Hasher} {memory : Memory}

theorem ReserveStep.of_eq {tail : ℕ} {before after : Call} (htail : tail = reserveTail)
    (hslot : after.reservedSlot = before.reservedSlot)
    (hundo : after.pendingUndo = before.pendingUndo) :
    ReserveStep capacity reserveTail before after tail := htail ▸ .keep hslot hundo

/-- A store behind the header leaves the reserve tail alone. -/
theorem reserveTail_store {offset : ℕ} {bytes : List UInt8} (hlow : headerSize ≤ offset) :
    (Pool.ofMemory g (store memory offset bytes)).reserveTail =
      (Pool.ofMemory g memory).reserveTail :=
  loadWord_store_outside (Or.inl (Nat.le_trans (by decide : hdrReserveTail + 8 ≤ headerSize) hlow))

theorem headerSize_le_appendOffset {slot offset : ℕ} :
    headerSize ≤ appendOffset g slot + offset :=
  Nat.le_trans (g.headerSize_le_recordOffset _) (Nat.le_add_right _ _)

theorem Recovery.advanceCommittedTail_reserveTail (point : SweepPoint) :
    (Pool.ofMemory g ((Recovery.advanceCommittedTail g point).exec memory).2).reserveTail =
      (Pool.ofMemory g memory).reserveTail := by
  cases point with
  | compareExchange currentTail newTail =>
    simp only [Recovery.advanceCommittedTail, BackendCall.exec]
    split_ifs
    · rw [Pool.ofMemory_storeWord_committedTail]
    · rfl
  | _ => rfl

/-- An append takes a slot, gives one back, or keeps what it has. -/
theorem Call.append_reserveStep (entry : Entry) (point : AppendPoint) :
    ReserveStep g.capacity (Pool.ofMemory g memory).reserveTail (.append entry (.running point))
      ((Call.append entry (.running point)).step g hasher memory).1
      (Pool.ofMemory g
        ((Call.append entry (.running point)).step g hasher memory).2).reserveTail := by
  rw [Call.step_append]
  cases point with
  | reserve =>
    simp only [FenceRuntime.append, BackendCall.exec]
    rw [Pool.ofMemory_storeWord_reserveTail, Nat.mod_mod]
    exact .reserve entry
  | undo slot =>
    simp only [FenceRuntime.append, BackendCall.exec]
    rw [Pool.ofMemory_storeWord_reserveTail, Nat.mod_mod]
    exact .undo entry slot
  | writeDataLen slot =>
    refine .of_eq (reserveTail_store headerSize_le_appendOffset) ?_ ?_ <;>
      simp only [FenceRuntime.append, BackendCall.exec] <;> split_ifs <;> rfl
  | sweep slot point =>
    simp only [FenceRuntime.append, BackendCall.exec_map]
    refine .of_eq (Recovery.advanceCommittedTail_reserveTail point) ?_ ?_ <;>
      cases ((Recovery.advanceCommittedTail g point).exec memory).1 <;> rfl
  | flushRecord slot => exact .keep rfl rfl
  | flushState slot => exact .keep rfl rfl
  | countFailed slot =>
    exact .of_eq (congrArg Pool.reserveTail ofMemory_exec_incrementCounter) rfl rfl
  | countAppends slot =>
    exact .of_eq (congrArg Pool.reserveTail ofMemory_exec_incrementCounter) rfl rfl
  | countBytes slot =>
    exact .of_eq (congrArg Pool.reserveTail ofMemory_exec_incrementCounter) rfl rfl
  | _ => exact .of_eq (reserveTail_store headerSize_le_appendOffset) rfl rfl

/-- A recovery leaves the reserve tail alone. -/
theorem FenceRuntime.recover_reserveTail (hostId : UInt16) (point : RuntimeRecoverPoint) :
    (Pool.ofMemory g ((FenceRuntime.recover g hasher hostId point).exec memory).2).reserveTail =
      (Pool.ofMemory g memory).reserveTail := by
  cases point with
  | countRuns report => exact congrArg Pool.reserveTail ofMemory_exec_incrementCounter
  | countAbandoned report => exact congrArg Pool.reserveTail ofMemory_exec_incrementCounter
  | recovery point =>
    simp only [FenceRuntime.recover, BackendCall.exec_map]
    cases point with
    | storeAbandoned scan =>
      exact reserveTail_store (Nat.le_trans (g.headerSize_le_recordOffset _)
        (Nat.le_add_right _ _))
    | sweep scan point =>
      simp only [Recovery.recover, BackendCall.exec_map]
      exact Recovery.advanceCommittedTail_reserveTail point
    | _ => rfl

/-- A trim leaves the reserve tail alone. -/
theorem Compaction.trim_reserveTail (upTo : ℕ) (point : TrimPoint) :
    (Pool.ofMemory g ((Compaction.trim g upTo point).exec memory).2).reserveTail =
      (Pool.ofMemory g memory).reserveTail := by
  cases point with
  | storeAbandoned slot trimmedCount =>
    exact reserveTail_store (Nat.le_trans (g.headerSize_le_recordOffset _) (Nat.le_add_right _ _))
  | _ => rfl

/-- What a step of a call does to the slots handed out, on any memory. -/
theorem Call.reserveStep (call : Call) :
    ReserveStep g.capacity (Pool.ofMemory g memory).reserveTail call
      (call.step g hasher memory).1
      (Pool.ofMemory g (call.step g hasher memory).2).reserveTail := by
  match call with
  | .append entry (.running point) => exact Call.append_reserveStep entry point
  | .read hostId index (.running point) =>
    rw [Call.step_read]
    exact .of_eq (congrArg Pool.reserveTail FenceRuntime.ofMemory_exec_read) rfl rfl
  | .trim upTo (.running point) =>
    rw [Call.step_trim]
    exact .of_eq (Compaction.trim_reserveTail upTo.toNat point) rfl rfl
  | .recover hostId (.running point) =>
    rw [Call.step_recover]
    exact .of_eq (FenceRuntime.recover_reserveTail hostId point) rfl rfl
  | .append _ (.returned _) => exact .keep rfl rfl
  | .read _ _ (.returned _) => exact .keep rfl rfl
  | .trim _ (.returned _) => exact .keep rfl rfl
  | .recover _ (.returned _) => exact .keep rfl rfl

/-- A call that was just started holds no slot. -/
theorem Request.call_reservation (request : Request) :
    (request.call g).reservation = none ∧ (request.call g).pendingUndo = false := by
  cases request with
  | append entry =>
    simp only [Request.call, startAppend]
    split_ifs <;> exact ⟨rfl, rfl⟩
  | read hostId index => exact ⟨rfl, rfl⟩
  | trim upTo => exact ⟨rfl, rfl⟩
  | recover hostId => exact ⟨rfl, rfl⟩

theorem Request.call_reservedSlot (request : Request) :
    (request.call g).reservedSlot = none := by
  rw [Call.reservedSlot, request.call_reservation.1]
  rfl

/-! ### Runs -/

section Run

variable {config : Config Call Memory} {action : Action Request Empty}

variable (g hasher first) in
/-- After the action fewer undos are pending than it takes to make the reserve tail wrap. -/
def TailBounded (config : Config Call Memory) (action : Action Request Empty) : Prop :=
  pendingUndos ((runtimeMachine g hasher).apply config action).threads <
    2 ^ 64 - max g.capacity first

instance (config : Config Call Memory) (action : Action Request Empty) :
    Decidable (TailBounded first g hasher config action) :=
  inferInstanceAs (Decidable (_ < _))

/-- Every action keeps the slots handed out exact, on any memory. -/
theorem Reserved.apply
    (hreserved : Reserved g.capacity first config.threads
      (Pool.ofMemory g config.shared).reserveTail)
    (hbounded : TailBounded first g hasher config action) :
    Reserved g.capacity first ((runtimeMachine g hasher).apply config action).threads
      (Pool.ofMemory g ((runtimeMachine g hasher).apply config action).shared).reserveTail := by
  cases action with
  | start request =>
    exact hreserved.append request.call_reservedSlot request.call_reservation.2
  | env event => exact event.elim
  | step index =>
    cases hcall : config.threads[index]? with
    | none => rwa [apply_step_of_none _ hcall]
    | some call =>
      rw [TailBounded, apply_step_of_getElem? _ hcall] at hbounded
      rw [apply_step_of_getElem? _ hcall]
      have hcapacity := g.capacity_lt
      exact hreserved.step (by omega) Pool.reserveTail_lt hcall call.reserveStep hbounded

/-- The slots handed out are exact in every run on any memory, from the reserve tail found
there on. -/
theorem reserved_of_run {memory : Memory} {schedule : List (Action Request Empty)}
    (hbounded : (runtimeMachine g hasher).Along
      (TailBounded (Pool.ofMemory g memory).reserveTail g hasher) schedule ⟨memory, []⟩) :
    Reserved g.capacity (Pool.ofMemory g memory).reserveTail
      ((runtimeMachine g hasher).run schedule ⟨memory, []⟩).threads
      (Pool.ofMemory g ((runtimeMachine g hasher).run schedule ⟨memory, []⟩).shared).reserveTail :=
  invariant_run (fun config ↦ Reserved g.capacity (Pool.ofMemory g memory).reserveTail
      config.threads (Pool.ofMemory g config.shared).reserveTail)
    (fun _ _ hreserved hcondition ↦ hreserved.apply hcondition) hbounded Reserved.nil

end Run

end Fence
