import Fence.Core.Access

/-!
# A routine inside another one

A routine is a step function over its program points. `routineMachine` runs it on its own, and
`routine_ends_inside` carries such a run over to any machine that calls the routine: it is enough
that the machine makes the same backend calls at the points of the routine.
-/

set_option autoImplicit false
set_option relaxedAutoImplicit false

namespace Fence

open ByteMemory Interleaving

/-! ### Calls that only load -/

section Load

variable {Next Other : Type}

/-- Whether a call only loads. -/
def BackendCall.isLoad : BackendCall Next → Bool
  | .read _ _ _ => true
  | .loadU64 _ _ => true
  | .loadU8 _ _ => true
  | _ => false

@[simp] theorem BackendCall.isLoad_map (f : Next → Other) (call : BackendCall Next) :
    (call.map f).isLoad = call.isLoad := by
  cases call <;> rfl

/-- A call that only loads leaves the memory. -/
theorem BackendCall.exec_of_isLoad {call : BackendCall Next} (hload : call.isLoad = true)
    (memory : Memory) : (call.exec memory).2 = memory := by
  cases call <;> first | rfl | cases hload

end Load

/-! ### Routines -/

variable {Point Result : Type}

/-- A routine on its own. -/
def routineMachine (next : Point → BackendCall (Task Point Result)) :
    Machine (Task Point Result) (Task Point Result) Memory Empty where
  start := id
  step := fun task memory ↦
    match task with
    | .running point => (next point).exec memory
    | .returned result => (.returned result, memory)
  env := fun event _ ↦ event.elim

variable {next : Point → BackendCall (Task Point Result)}

theorem routineMachine_step_running (point : Point) (memory : Memory) :
    (routineMachine next).step (.running point) memory = (next point).exec memory := rfl

/-- What a routine does on its own, it does inside any machine that makes its backend calls. -/
theorem routine_ends_inside {Request Thread Event : Type*}
    {machine : Machine Request Thread Memory Event}
    (inside : Task Point Result → Thread)
    (hstep : ∀ point memory, machine.step (inside (.running point)) memory =
      (inside ((next point).exec memory).1, ((next point).exec memory).2))
    {task : Task Point Result} {result : Result} {memory later : Memory}
    (hends : (routineMachine next).Ends task memory (.returned result) later) :
    machine.Ends (inside task) memory (inside (.returned result)) later := by
  refine hends.embed machine inside (fun task ↦ ∃ result, task = .returned result) ?_ ?_
  · rintro task ⟨result, rfl⟩ memory
    rfl
  · rintro (point | result) memory hrunning
    · exact hstep point memory
    · exact absurd ⟨result, rfl⟩ hrunning

end Fence
