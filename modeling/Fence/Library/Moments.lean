import Fence.Library.Interleaving

/-!
# The moment a thread learns something

A thread that has a property at the end of a run, and did not have it when the run began, came to it
by a step of its own (`exists_entering_step`). The rule splits the schedule at that step, so that
what the step needed of the shared state is known of one moment of the run. A thread that was
started in the second half of a run came to it there (`exists_entering_step_after`): this is what
puts the moments of calls that do not overlap in order. What the steps of a thread preserve it keeps
for the rest of the run (`exists_of_stable`).
-/

set_option autoImplicit false
set_option relaxedAutoImplicit false

namespace Interleaving

variable {Request Thread Shared Event : Type*} {machine : Machine Request Thread Shared Event}

/-- What an action can do to the thread at an index: nothing, bring it about, or move it. -/
theorem getElem?_apply_cases (config : Config Thread Shared) (action : Action Request Event)
    (index : ℕ) :
    (machine.apply config action).threads[index]? = config.threads[index]? ∨
      (∃ request, config.threads[index]? = none ∧
        (machine.apply config action).threads[index]? = some (machine.start request)) ∨
      ∃ thread, action = .step index ∧ config.threads[index]? = some thread ∧
        (machine.apply config action).threads[index]? =
          some (machine.step thread config.shared).1 := by
  cases action with
  | env event => exact Or.inl rfl
  | start request =>
    rcases Nat.lt_trichotomy index config.threads.length with hlt | heq | hgt
    · exact Or.inl (List.getElem?_append_left hlt)
    · refine Or.inr (Or.inl ⟨request, List.getElem?_eq_none (Nat.le_of_eq heq.symm), ?_⟩)
      rw [heq]
      exact List.getElem?_concat_length
    · refine Or.inl ?_
      rw [List.getElem?_eq_none (Nat.le_of_lt hgt), List.getElem?_eq_none]
      simp only [Machine.apply, List.length_append, List.length_singleton]
      omega
  | step place =>
    cases hthread : config.threads[place]? with
    | none => exact Or.inl (by rw [apply_step_of_none _ hthread])
    | some thread =>
      rw [apply_step_of_getElem? _ hthread]
      by_cases hsame : place = index
      · subst hsame
        obtain ⟨hplace, -⟩ := List.getElem?_eq_some_iff.mp hthread
        exact Or.inr (Or.inr ⟨thread, rfl, hthread, List.getElem?_set_self hplace⟩)
      · exact Or.inl (List.getElem?_set_ne hsame)

/-- No action takes a thread away. -/
theorem length_threads_le_apply (machine : Machine Request Thread Shared Event)
    (config : Config Thread Shared) (action : Action Request Event) :
    config.threads.length ≤ (machine.apply config action).threads.length := by
  cases action with
  | env event => exact Nat.le_refl _
  | start request =>
    rw [Machine.apply, List.length_append]
    exact Nat.le_add_right _ _
  | step index =>
    cases hthread : config.threads[index]? with
    | none => rw [apply_step_of_none _ hthread]
    | some thread => rw [apply_step_of_getElem? _ hthread, List.length_set]

theorem length_threads_le_run (machine : Machine Request Thread Shared Event)
    (schedule : List (Action Request Event)) (config : Config Thread Shared) :
    config.threads.length ≤ (machine.run schedule config).threads.length := by
  induction schedule generalizing config with
  | nil => exact Nat.le_refl _
  | cons action rest ih =>
    exact (length_threads_le_apply machine config action).trans (ih _)

/-- A thread comes to a property that no start has by a step of its own. -/
theorem exists_entering_step (machine : Machine Request Thread Shared Event)
    (property : Thread → Prop)
    (hstart : ∀ request, ¬ property (machine.start request))
    {schedule : List (Action Request Event)} {config : Config Thread Shared} {index : ℕ}
    (hinit : ∀ thread, config.threads[index]? = some thread → ¬ property thread) {last : Thread}
    (hlast : (machine.run schedule config).threads[index]? = some last)
    (hproperty : property last) :
    ∃ before after thread, schedule = before ++ .step index :: after ∧
      (machine.run before config).threads[index]? = some thread ∧ ¬ property thread ∧
      property (machine.step thread (machine.run before config).shared).1 := by
  induction schedule generalizing config with
  | nil => exact absurd hproperty (hinit last hlast)
  | cons action rest ih =>
    by_cases hnext : ∀ thread, (machine.apply config action).threads[index]? = some thread →
        ¬ property thread
    · obtain ⟨before, after, thread, rfl, hthread, hbefore, hafter⟩ := ih hnext hlast
      exact ⟨action :: before, after, thread, rfl, hthread, hbefore, hafter⟩
    · push Not at hnext
      obtain ⟨next, hnext, hholds⟩ := hnext
      rcases getElem?_apply_cases config action index with
        hsame | ⟨request, -, hstarted⟩ | ⟨thread, rfl, hthread, hmoved⟩
      · exact absurd hholds (hinit next (hsame.symm.trans hnext))
      · rw [hstarted, Option.some.injEq] at hnext
        exact absurd (hnext ▸ hholds) (hstart request)
      · rw [hmoved, Option.some.injEq] at hnext
        exact ⟨[], rest, thread, rfl, hthread, hinit thread hthread, hnext ▸ hholds⟩

/-- A thread started in the second half of a run comes to a property there. -/
theorem exists_entering_step_after (machine : Machine Request Thread Shared Event)
    (property : Thread → Prop)
    (hstart : ∀ request, ¬ property (machine.start request))
    {first second : List (Action Request Event)} {config : Config Thread Shared} {index : ℕ}
    (hinit : (machine.run first config).threads.length ≤ index) {last : Thread}
    (hlast : (machine.run (first ++ second) config).threads[index]? = some last)
    (hproperty : property last) :
    ∃ before after thread, second = before ++ .step index :: after ∧
      (machine.run (first ++ before) config).threads[index]? = some thread ∧ ¬ property thread ∧
      property (machine.step thread (machine.run (first ++ before) config).shared).1 := by
  rw [run_append] at hlast
  have hnone : ∀ thread, (machine.run first config).threads[index]? = some thread →
      ¬ property thread := fun thread hthread ↦ by
    rw [List.getElem?_eq_none hinit] at hthread
    cases hthread
  obtain ⟨before, after, thread, hsplit, hthread, hbefore, hafter⟩ :=
    exists_entering_step machine property hstart hnone hlast hproperty
  rw [← run_append] at hthread hafter
  exact ⟨before, after, thread, hsplit, hthread, hbefore, hafter⟩

/-- A thread keeps what its own steps preserve, whatever the others do. -/
theorem exists_of_stable (machine : Machine Request Thread Shared Event)
    (property : Thread → Prop)
    (hstep : ∀ thread shared, property thread → property (machine.step thread shared).1)
    (schedule : List (Action Request Event)) {config : Config Thread Shared} {index : ℕ}
    {thread : Thread} (hthread : config.threads[index]? = some thread)
    (hproperty : property thread) :
    ∃ later, (machine.run schedule config).threads[index]? = some later ∧ property later := by
  induction schedule generalizing config thread with
  | nil => exact ⟨thread, hthread, hproperty⟩
  | cons action rest ih =>
    rw [run_cons]
    rcases getElem?_apply_cases config action index with
      hsame | ⟨request, hnone, -⟩ | ⟨moved, -, hmoved, hafter⟩
    · exact ih (hsame.trans hthread) hproperty
    · rw [hthread] at hnone
      cases hnone
    · obtain rfl : moved = thread := Option.some.inj (hmoved.symm.trans hthread)
      exact ih hafter (hstep moved config.shared hproperty)

end Interleaving
