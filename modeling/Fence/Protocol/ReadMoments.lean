import Fence.Library.Moments
import Fence.Protocol.Published

/-!
# The moment a read decides

A read decides when it loads the state of its slot, or the tail if its index is out of bounds. From
then on its outcome is fixed, however long it takes to load the fields and whatever happens to the
slot meanwhile: a read that found its record committed returns that record, and a read that did not
has returned. So the outcome of every read is what the published log answers at the step in which it
decides (`Invariant.outcome_eq_of_decides`).
-/

set_option autoImplicit false
set_option relaxedAutoImplicit false

namespace Fence

open ByteMemory Interleaving

variable {g : PoolGeometry} {hasher : Hasher}

/-- A read that has found the record of its slot committed. -/
def Call.Found : Call → Prop
  | .read _ _ (.running .loadTailOfZero) => False
  | .read _ _ (.running .loadTail) => False
  | .read _ _ (.running (.loadState _)) => False
  | .read _ _ (.running _) => True
  | .read _ _ (.returned (.ok (some _))) => True
  | .read _ _ (.returned (.error (.checksumMismatch _))) => True
  | _ => False

/-- A read whose outcome is fixed. -/
def Call.Decided : Call → Prop
  | .read _ _ (.running .loadTailOfZero) => False
  | .read _ _ (.running .loadTail) => False
  | .read _ _ (.running (.loadState _)) => False
  | .read _ _ _ => True
  | _ => False

/-- No call has decided when it starts. -/
theorem Request.not_decided (request : Request) : ¬ (request.call g).Decided := by
  cases request with
  | read hostId index =>
    rw [Request.call, startRead]
    split_ifs <;> exact id
  | _ => exact id

theorem checkRead_found {hostId : UInt16} {index : UInt64} {term storedIndex writerId : ℕ}
    {data : List UInt8} {storedChecksum : ℕ} :
    (Call.read hostId index
      (checkRead hasher term storedIndex writerId data storedChecksum)).Found := by
  rw [checkRead]
  split_ifs <;> trivial

/-- A read that found its record goes on to it. -/
theorem Call.Found.step {call : Call} (hfound : call.Found) (memory : Memory) :
    (call.step g hasher memory).1.Found := by
  match call with
  | .read _ _ (.running (.loadTerm _)) => rw [Call.step_read]; trivial
  | .read _ _ (.running (.loadIndex _ _)) => rw [Call.step_read]; trivial
  | .read _ _ (.running (.loadWriterId _ _ _)) => rw [Call.step_read]; trivial
  | .read _ _ (.running (.readDataLen _ _ _ _)) => rw [Call.step_read]; trivial
  | .read _ _ (.running (.loadChecksum _ _ _ _ _)) =>
    rw [Call.step_read]
    simp only [FenceRuntime.read, BackendCall.exec]
    split_ifs
    · trivial
    · exact checkRead_found
  | .read _ _ (.running (.readPayload _ _ _ _ _ _)) =>
    rw [Call.step_read]
    exact checkRead_found
  | .read _ _ (.running .countMismatch) => rw [Call.step_read]; trivial
  | .read _ _ (.running (.countRead _)) => rw [Call.step_read]; trivial
  | .read _ _ (.returned (.ok (some _))) => trivial
  | .read _ _ (.returned (.error (.checksumMismatch _))) => trivial

/-! ### What others do -/

/-- What was reached in a configuration stays reached. -/
theorem Invariant.run_extends {config : Config Call Memory} (hinvariant : Invariant g hasher config)
    {schedule : List (Action Request Empty)}
    (hbounded : (runtimeMachine g hasher).Along (UndosBounded g hasher) schedule config) :
    Invariant g hasher ((runtimeMachine g hasher).run schedule config) ∧
      Extends config.threads ((runtimeMachine g hasher).run schedule config).threads := by
  refine invariant_run (fun reached ↦ Invariant g hasher reached ∧
    Extends config.threads reached.threads) ?_ hbounded
    ⟨hinvariant, fun _ _ _ hreached ↦ hreached⟩
  rintro reached action ⟨hreached, hextends⟩ haction
  refine ⟨hreached.apply haction, fun slot entry stage hheld ↦ ?_⟩
  have hstill := hextends slot entry stage hheld
  cases action with
  | start request => exact hstill.append _
  | env event => exact event.elim
  | step index =>
    cases hcall : reached.threads[index]? with
    | none => rwa [apply_step_of_none _ hcall]
    | some call =>
      rw [apply_step_of_getElem? _ hcall]
      exact hstill.set hcall (hreached.stepSpec hcall).1.advances

/-- One slot holds one entry. -/
theorem Reserved.entry_unique {threads : List Call} {reserveTail slot : ℕ} {entry other : Entry}
    {stage reached : ℕ} (hreserved : Reserved g.capacity 0 threads reserveTail)
    (hentry : Reached threads slot entry stage) (hother : Reached threads slot other reached) :
    entry = other := by
  obtain ⟨call, hmem, later, -, hreservation⟩ := hother
  obtain ⟨index, hindex⟩ := List.mem_iff_getElem?.mp hmem
  exact (hreserved.reached_eq hindex hreservation hentry).1

/-! ### Deciding -/

section Decide

variable {threads : List Call} {memory : Memory}
  (hrely : Rely g hasher threads (Pool.ofMemory g memory))

include hrely

/-- The view of a slot below the tail that an append holds. -/
theorem Rely.read_publishedLog {slot : ℕ} (hslot : slot < (Pool.ofMemory g memory).committedTail)
    {entry : Entry} (hstored : Stored threads slot entry) :
    (publishedLog g memory).read (slot + 1) =
      .ok (if (Pool.ofMemory g memory).state slot = stateCommitted then
        some (entry.record slot) else none) := by
  refine Log.read_eq_ok_iff.mpr ⟨Nat.succ_pos slot, _, Pool.getElem?_publishedLog _ hslot, ?_⟩
  rw [Nat.add_sub_cancel, hrely.item_eq hstored, LogEntry.view]
  by_cases hstate : (Pool.ofMemory g memory).state slot = stateCommitted
  · simp [hstate, Entry.record]
  · simp [hstate]

/-- A step in which a read decides: it has its outcome, or has found its record. Either is what the
published log answers. -/
theorem Rely.decides {call : Call}
    (hsound : call.Sound g hasher (Pool.ofMemory g memory).committedTail threads)
    (hbefore : ¬ call.Decided) (hafter : (call.step g hasher memory).1.Decided) :
    ∃ hostId readIndex point, call = .read hostId readIndex (.running point) ∧
      ((call.step g hasher memory).1 = .read hostId readIndex
          (.returned ((publishedLog g memory).read readIndex.toNat)) ∨
        (call.step g hasher memory).1.Found ∧ ∃ slot entry, slot + 1 = readIndex.toNat ∧
          Stored threads slot entry ∧
          (publishedLog g memory).read readIndex.toNat = .ok (some (entry.record slot))) := by
  match call with
  | .read hostId readIndex (.running .loadTailOfZero) =>
    refine ⟨hostId, readIndex, _, rfl, Or.inl ?_⟩
    have hzero : readIndex.toNat = 0 := hsound
    rw [Call.step_read, Log.read_eq_error (Or.inl hzero), publishedLog, Pool.length_publishedLog]
    rfl
  | .read hostId readIndex (.running .loadTail) =>
    refine ⟨hostId, readIndex, _, rfl, Or.inl ?_⟩
    rw [Call.step_read] at hafter ⊢
    simp only [FenceRuntime.read, BackendCall.exec] at hafter ⊢
    by_cases hbeyond : loadWord memory hdrCommittedTail 8 < readIndex.toNat
    · rw [if_pos hbeyond, Log.read_eq_error (Or.inr (by
        rw [publishedLog, Pool.length_publishedLog]
        exact hbeyond)), publishedLog, Pool.length_publishedLog]
      rfl
    · rw [if_neg hbeyond] at hafter
      exact hafter.elim
  | .read hostId readIndex (.running (.loadState slot)) =>
    refine ⟨hostId, readIndex, _, rfl, ?_⟩
    obtain ⟨hindex, htail⟩ := hsound
    obtain ⟨entry, hstored⟩ := hrely.stored_of_lt_tail slot htail
    have hslot := (hrely.complete_of_stored slot entry hstored).1
    have hview := hrely.read_publishedLog htail hstored
    rw [hindex] at hview
    rw [Call.step_read, hview]
    simp only [FenceRuntime.read, BackendCall.exec, load_state hslot]
    split_ifs with hstate
    · exact Or.inr ⟨trivial, slot, entry, hindex, hstored, rfl⟩
    · exact Or.inl rfl
  | .read _ _ (.running (.loadTerm _)) => exact (hbefore trivial).elim
  | .read _ _ (.running (.loadIndex _ _)) => exact (hbefore trivial).elim
  | .read _ _ (.running (.loadWriterId _ _ _)) => exact (hbefore trivial).elim
  | .read _ _ (.running (.readDataLen _ _ _ _)) => exact (hbefore trivial).elim
  | .read _ _ (.running (.loadChecksum _ _ _ _ _)) => exact (hbefore trivial).elim
  | .read _ _ (.running (.readPayload _ _ _ _ _ _)) => exact (hbefore trivial).elim
  | .read _ _ (.running .countMismatch) => exact (hbefore trivial).elim
  | .read _ _ (.running (.countRead _)) => exact (hbefore trivial).elim
  | .read _ _ (.returned _) => exact (hbefore trivial).elim
  | .append entry (.running point) => rw [Call.step_append] at hafter; exact hafter.elim
  | .append _ (.returned _) => exact hafter.elim
  | .trim upTo (.running point) => rw [Call.step_trim] at hafter; exact hafter.elim
  | .trim _ (.returned _) => exact hafter.elim
  | .recover hostId (.running point) => rw [Call.step_recover] at hafter; exact hafter.elim
  | .recover _ (.returned _) => exact hafter.elim

/-- What a read returns is what the published log answered when it decided, on any machine whose
calls step as those of the runtime on a view of its shared state. At the end of the run no slot
holds two entries. -/
theorem Rely.outcome_eq_of_decides {Shared Event : Type}
    {machine : Machine Request Call Shared Event}
    {view : Shared → Memory}
    (hstep : ∀ call shared, (machine.step call shared).1 = (call.step g hasher (view shared)).1)
    {config : Config Call Shared} (hview : view config.shared = memory) {index : ℕ} {call : Call}
    (hcall : config.threads[index]? = some call)
    (hsound : call.Sound g hasher (Pool.ofMemory g memory).committedTail threads)
    (hbefore : ¬ call.Decided) (hdecided : (machine.step call config.shared).1.Decided)
    {after : List (Action Request Event)} {hostId : UInt16} {readIndex : UInt64}
    {outcome : Except FenceError (Option Record)}
    (hreturned : (machine.run (.step index :: after) config).threads[index]? =
      some (.read hostId readIndex (.returned outcome)))
    {ended : List Call} {tail : ℕ} (hextends : Extends threads ended)
    (hended : (Call.read hostId readIndex (.returned outcome)).Sound g hasher tail ended)
    (hunique : ∀ slot entry other, Stored ended slot entry → Stored ended slot other →
      entry = other) :
    (∃ point, call = .read hostId readIndex (.running point)) ∧
      outcome = (publishedLog g memory).read readIndex.toNat := by
  subst hview
  rw [hstep] at hdecided
  obtain ⟨host, made, point, rfl, hcases⟩ := hrely.decides hsound hbefore hdecided
  obtain ⟨hplace, -⟩ := List.getElem?_eq_some_iff.mp hcall
  have hmoved : (machine.apply config (.step index)).threads[index]? =
      some ((Call.read host made (.running point)).step g hasher (view config.shared)).1 := by
    rw [apply_step_of_getElem? _ hcall, ← hstep]
    exact List.getElem?_set_self hplace
  rw [run_cons] at hreturned
  rcases hcases with hdone | ⟨hfound, slot, entry, hslot, hstored, hlog⟩
  · -- a returned call stays as it is
    rw [hdone] at hmoved
    obtain ⟨last, hlast, rfl⟩ := exists_of_stable machine (fun thread ↦ thread = _)
      (fun _ _ hsame ↦ by rw [hsame, hstep]; rfl) after hmoved rfl
    rw [hlast, Option.some.injEq] at hreturned
    cases hreturned
    exact ⟨⟨point, rfl⟩, rfl⟩
  · obtain ⟨last, hlast, hlastFound, hrequest⟩ := exists_of_stable
      machine (fun thread ↦ thread.Found ∧ thread.request = .read host made)
      (fun thread shared hboth ↦ by
        rw [hstep]
        exact ⟨hboth.1.step _, (thread.request_step _).trans hboth.2⟩)
      after hmoved ⟨hfound, Call.request_step _ _⟩
    obtain rfl := Option.some.inj (hlast.symm.trans hreturned)
    cases hrequest
    refine ⟨⟨point, rfl⟩, ?_⟩
    match outcome with
    | .error (.checksumMismatch _) => exact hended.elim
    | .ok (some record) =>
      obtain ⟨place, hplaced, other, hother, rfl⟩ := hended
      obtain rfl : place = slot := by omega
      rw [hlog, hunique place other entry hother (hextends _ _ _ hstored)]

end Decide

/-- What a read returns is what the published log answered when it decided. -/
theorem Invariant.outcome_eq_of_decides {config : Config Call Memory}
    (hinvariant : Invariant g hasher config) {index : ℕ} {after : List (Action Request Empty)}
    (hbounded : (runtimeMachine g hasher).Along (UndosBounded g hasher) (.step index :: after)
      config)
    {call : Call} (hcall : config.threads[index]? = some call) (hbefore : ¬ call.Decided)
    (hdecided : (call.step g hasher config.shared).1.Decided) {hostId : UInt16}
    {readIndex : UInt64} {outcome : Except FenceError (Option Record)}
    (hreturned : ((runtimeMachine g hasher).run (.step index :: after) config).threads[index]? =
      some (.read hostId readIndex (.returned outcome))) :
    (∃ point, call = .read hostId readIndex (.running point)) ∧
      outcome = (publishedLog g config.shared).read readIndex.toNat := by
  obtain ⟨hend, hextends⟩ := hinvariant.run_extends hbounded
  exact hinvariant.rely.outcome_eq_of_decides
    (fun _ _ ↦ rfl) rfl hcall (hinvariant.contents.sound call (List.mem_of_getElem? hcall))
    hbefore hdecided hreturned hextends
    (hend.contents.sound _ (List.mem_of_getElem? hreturned))
    fun _ _ _ ↦ hend.reserved.entry_unique

end Fence
