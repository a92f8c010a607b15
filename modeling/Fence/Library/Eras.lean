import Fence.Library.Interleaving

/-!
# Runs cut off by crashes

An era is a run that starts with no thread and is cut off by a crash, which takes all threads with
it and keeps of the shared state what `crash` says. `Machine.survives` is what is left after a
number of eras, each of them any schedule whatever, and `survives_invariant` is the induction
rule.
-/

set_option autoImplicit false
set_option relaxedAutoImplicit false

namespace Interleaving

variable {Request Thread Shared Event : Type*}

/-- What is left of the shared state after a number of eras. -/
def Machine.survives (machine : Machine Request Thread Shared Event) (crash : Shared → Shared)
    (eras : List (List (Action Request Event))) (shared : Shared) : Shared :=
  eras.foldl (fun shared schedule ↦ crash (machine.run schedule ⟨shared, []⟩).shared) shared

variable {machine : Machine Request Thread Shared Event} {crash : Shared → Shared}

/-- What every era keeps is left after all of them. -/
theorem survives_invariant (invariant : Shared → Prop)
    (hera : ∀ shared schedule, invariant shared →
      invariant (crash (machine.run schedule ⟨shared, []⟩).shared))
    (eras : List (List (Action Request Event))) {shared : Shared} (hinit : invariant shared) :
    invariant (machine.survives crash eras shared) := by
  induction eras generalizing shared with
  | nil => exact hinit
  | cons schedule rest ih => exact ih (hera shared schedule hinit)

end Interleaving
