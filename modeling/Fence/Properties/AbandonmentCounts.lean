import Fence.Properties.ReserveWrap
import Fence.Protocol.Marking
import Fence.Protocol.Quiescence

/-!
# Abandonments are counted once

`TrimResult` documents its count as the records actually transitioned, and the report of a recovery
feeds a counter that all hosts share. `CountsOnce` says that all trims and recoveries of a run
together have counted every slot once whose state they changed. They load a state and store it in
two steps, though, so two of them can claim the same slot. The counts are right when no step marks a
slot again that has been marked meanwhile, and only then (`countsOnce_iff`).
-/

set_option autoImplicit false
set_option relaxedAutoImplicit false

namespace Fence

open ByteMemory Interleaving

variable {g : PoolGeometry} {hasher : Hasher}

/-- The count a trim or a recovery has returned. -/
def Call.returnedCount : Call → ℕ
  | .trim _ (.returned (.ok result)) => result.trimmedCount
  | .recover _ (.returned report) => report.abandonedCount
  | _ => 0

/-- The counts returned add up to the number of slots whose state has changed. -/
def CountsOnce (g : PoolGeometry) (start : Memory) (config : Config Call Memory) : Prop :=
  totalWeight Call.returnedCount config.threads = changedSlots g start config.shared

/-- No trim or recovery marks a slot that is abandoned already. -/
def MarksOnce (g : PoolGeometry) (config : Config Call Memory) (action : Action Request Empty) :
    Prop :=
  ∀ index call slot, action = .step index → config.threads[index]? = some call →
    call.abandoning = some slot → stateByte g config.shared slot ≠ stateAbandoned

/-- A call that has returned has returned what it counted. -/
theorem Call.returnedCount_eq {call : Call} (hreturned : call.isReturned = true) :
    call.returnedCount = call.marked := by
  match call, hreturned with
  | .append _ (.returned _), _ => rfl
  | .read _ _ (.returned _), _ => rfl
  | .trim _ (.returned (.ok result)), _ => rfl
  | .trim _ (.returned (.error error)), _ => rfl
  | .recover _ (.returned report), _ => rfl

/-- Nothing is marked again when nothing is spilled. -/
theorem spill_remarks_eq_zero_iff (config : Config Call Memory) (action : Action Request Empty) :
    config.spill (Call.remarks g) action = 0 ↔ MarksOnce g config action := by
  cases action with
  | start request => exact ⟨(fun _ index call slot hstep ↦ by cases hstep), fun _ ↦ rfl⟩
  | env event => exact event.elim
  | step index =>
    have hspill : config.spill (Call.remarks g) (.step index : Action Request Empty) =
      config.threads[index]?.elim 0 fun call ↦ call.remarks g config.shared := rfl
    rw [hspill]
    constructor
    · rintro hzero other call slot hstep hcall hslot hmarked
      obtain rfl := Action.step.inj hstep
      rw [hcall, Option.elim_some, Call.remarks, hslot, Option.elim_some, if_pos hmarked] at hzero
      cases hzero
    · intro honce
      cases hcall : config.threads[index]? with
      | none => rfl
      | some call =>
        rw [Option.elim_some, Call.remarks]
        cases hslot : call.abandoning with
        | none => rfl
        | some slot => exact if_neg (honce index call slot rfl hcall hslot)

instance (config : Config Call Memory) (action : Action Request Empty) :
    Decidable (MarksOnce g config action) :=
  decidable_of_iff _ (spill_remarks_eq_zero_iff config action)

/-- Trims and recoveries count every slot once when none is marked again, and only then. -/
theorem countsOnce_iff {start : Memory} (htail : loadWord start hdrCommittedTail 8 ≤ g.capacity)
    {schedule : List (Action Request Empty)} (hcalls : ∀ action ∈ schedule, TrimsOrRecovers action)
    (hreturned : AllReturned ((runtimeMachine g hasher).run schedule ⟨start, []⟩).threads) :
    CountsOnce g start ((runtimeMachine g hasher).run schedule ⟨start, []⟩) ↔
      (runtimeMachine g hasher).Along (MarksOnce g) schedule ⟨start, []⟩ := by
  have hweight := @totalWeight_marked_run g hasher start htail schedule hcalls
  have hcounts : totalWeight Call.returnedCount
      ((runtimeMachine g hasher).run schedule ⟨start, []⟩).threads = _ :=
    totalWeight_congr fun call hmem ↦ Call.returnedCount_eq (hreturned call hmem)
  have halong : (runtimeMachine g hasher).Along (MarksOnce g) schedule ⟨start, []⟩ ↔
      (runtimeMachine g hasher).spilled (Call.remarks g) schedule ⟨start, []⟩ = 0 := by
    rw [spilled_eq_zero_iff]
    constructor
    · exact fun h ↦ h.mono fun config action ↦ (spill_remarks_eq_zero_iff config action).mpr
    · exact fun h ↦ h.mono fun config action ↦ (spill_remarks_eq_zero_iff config action).mp
  rw [CountsOnce, hcounts, hweight, halong]
  omega

/-- Two trims of one record, one after another. -/
def trimTwice : List (Action Request Empty) :=
  .start (.trim 1) :: .start (.trim 1) ::
    (List.replicate 4 (.step 0) ++ List.replicate 2 (.step 1))

theorem countsOnce_iff_onePool :
    CountsOnce onePool singleRecord
      ((runtimeMachine onePool crc32fast).run trimTwice ⟨singleRecord, []⟩) := by
  have hcalls : ∀ action ∈ trimTwice, TrimsOrRecovers action := by
    simp [trimTwice, TrimsOrRecovers]
  exact (countsOnce_iff (by decide +kernel) hcalls (by decide +kernel)).mpr (by decide +kernel)

/-- Two trims of one record that both load its state before either stores. -/
def trimTogether : List (Action Request Empty) :=
  .start (.trim 1) :: .start (.trim 1) ::
    (List.replicate 2 (.step 0) ++ List.replicate 4 (.step 1) ++ List.replicate 2 (.step 0))

/-- Both count it. -/
theorem not_countsOnce_of_together :
    AllReturned ((runtimeMachine onePool crc32fast).run trimTogether ⟨singleRecord, []⟩).threads ∧
      ¬ CountsOnce onePool singleRecord
        ((runtimeMachine onePool crc32fast).run trimTogether ⟨singleRecord, []⟩) := by
  refine ⟨by decide +kernel, ?_⟩
  show ¬ _ = _
  decide +kernel

end Fence
