import Fence.Library.Interleaving

/-!
# Two machines side by side

The threads of two machines take turns on one shared state (`Machine.sum`). Seen by the first
machine alone, an action of its own is its action, and a step of a thread of the second is a change
of the shared state that nobody of its own has made (`sum_apply_lefts`).
-/

set_option autoImplicit false
set_option relaxedAutoImplicit false

namespace Interleaving

variable {Request Thread Shared Event Request' Thread' : Type*}

/-- The threads of the first machine. -/
def Config.lefts (config : Config (Thread ⊕ Thread') Shared) : Config Thread Shared where
  shared := config.shared
  threads := config.threads.filterMap Sum.getLeft?

section Threads

variable {threads : List (Thread ⊕ Thread')} {index : ℕ}

/-- A thread of the first machine has a place among the threads of the first machine. -/
theorem exists_filterMap_set_inl {thread : Thread}
    (hthread : threads[index]? = some (.inl thread)) :
    ∃ place, (threads.filterMap Sum.getLeft?)[place]? = some thread ∧ ∀ later,
      (threads.set index (.inl later)).filterMap Sum.getLeft? =
        (threads.filterMap Sum.getLeft?).set place later := by
  induction threads generalizing index with
  | nil => cases hthread
  | cons head rest ih =>
    cases index with
    | zero =>
      obtain rfl := Option.some.inj hthread
      exact ⟨0, rfl, fun _ ↦ rfl⟩
    | succ index =>
      obtain ⟨place, hplace, hset⟩ := ih hthread
      cases head with
      | inl other => exact ⟨place + 1, hplace, fun later ↦ congrArg (other :: ·) (hset later)⟩
      | inr other => exact ⟨place, hplace, hset⟩

/-- A thread of the second machine is none of the first. -/
theorem filterMap_set_inr {thread later : Thread'}
    (hthread : threads[index]? = some (.inr thread)) :
    (threads.set index (.inr later)).filterMap Sum.getLeft? =
      threads.filterMap Sum.getLeft? := by
  induction threads generalizing index with
  | nil => cases hthread
  | cons head rest ih =>
    cases index with
    | zero =>
      obtain rfl := Option.some.inj hthread
      rfl
    | succ index =>
      cases head with
      | inl other => exact congrArg (other :: ·) (ih hthread)
      | inr other => exact ih hthread

end Threads

variable {first : Machine Request Thread Shared Event}
  {second : Machine Request' Thread' Shared Empty}

/-- What an action of two machines is to the first of them: nothing, an action of its own, or a
change of the shared state. -/
theorem sum_apply_lefts (config : Config (Thread ⊕ Thread') Shared)
    (action : Action (Request ⊕ Request') Event) :
    ((first.sum second).apply config action).lefts = config.lefts ∨
      (∃ own, ((first.sum second).apply config action).lefts = first.apply config.lefts own) ∨
      ∃ index thread, action = .step index ∧ config.threads[index]? = some (.inr thread) ∧
        ((first.sum second).apply config action).lefts =
          { config.lefts with shared := (second.step thread config.shared).2 } := by
  cases action with
  | env event => exact Or.inr (Or.inl ⟨.env event, rfl⟩)
  | start request =>
    cases request with
    | inl request =>
      refine Or.inr (Or.inl ⟨.start request, ?_⟩)
      simp [Machine.apply, Machine.sum, Config.lefts, List.filterMap_append]
    | inr request =>
      refine Or.inl ?_
      simp [Machine.apply, Machine.sum, Config.lefts, List.filterMap_append]
  | step index =>
    cases hthread : config.threads[index]? with
    | none => exact Or.inl (by rw [apply_step_of_none _ hthread])
    | some thread =>
      rw [apply_step_of_getElem? _ hthread]
      cases thread with
      | inl thread =>
        obtain ⟨place, hplace, hset⟩ := exists_filterMap_set_inl hthread
        refine Or.inr (Or.inl ⟨.step place, ?_⟩)
        rw [apply_step_of_getElem? _ hplace]
        exact congrArg (Config.mk _) (hset _)
      | inr thread =>
        refine Or.inr (Or.inr ⟨index, thread, rfl, hthread, ?_⟩)
        exact congrArg (Config.mk _) (filterMap_set_inr hthread)

end Interleaving
