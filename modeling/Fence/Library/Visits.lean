import Fence.Library.Moments

/-!
# The steps of one thread along a schedule

`visits` lists the thread and the shared state before every step one thread takes along a schedule.
`countP_visits_le` bounds how many of them are of a kind by a potential: every step of the thread
pays for itself out of it, and no other action adds to it. `exists_finished` is the rule that such a
thread is done in the end, however it is interleaved with others.
-/

set_option autoImplicit false
set_option relaxedAutoImplicit false

namespace Interleaving

variable {Request Thread Shared Event : Type*}

/-- The step a thread takes in an action, if it is one of its own. -/
def Config.visit (config : Config Thread Shared) (index : ℕ) :
    Action Request Event → List (Thread × Shared)
  | .step other =>
    if other = index then (config.threads[index]?).toList.map fun thread ↦ (thread, config.shared)
    else []
  | _ => []

/-- The steps a thread takes along a schedule: the thread and the shared state before each. -/
def Machine.visits (machine : Machine Request Thread Shared Event) (index : ℕ) :
    List (Action Request Event) → Config Thread Shared → List (Thread × Shared)
  | [], _ => []
  | action :: rest, config =>
    config.visit index action ++ machine.visits index rest (machine.apply config action)

variable {machine : Machine Request Thread Shared Event} {index : ℕ}

/-- A thread stays as it is while others act. -/
theorem getElem?_apply_of_ne {config : Config Thread Shared} {action : Action Request Event}
    {thread : Thread} (hthread : config.threads[index]? = some thread)
    (hother : ∀ other, action = .step other → other ≠ index) :
    (machine.apply config action).threads[index]? = some thread := by
  obtain ⟨hindex, -⟩ := List.getElem?_eq_some_iff.mp hthread
  cases action with
  | start request => exact (List.getElem?_append_left hindex).trans hthread
  | env event => exact hthread
  | step other =>
    cases hstepped : config.threads[other]? with
    | none => rwa [apply_step_of_none _ hstepped]
    | some stepped =>
      rw [apply_step_of_getElem? _ hstepped]
      exact (List.getElem?_set_ne (hother other rfl)).trans hthread

/-- A thread takes its own step. -/
theorem getElem?_apply_self {config : Config Thread Shared} {thread : Thread}
    (hthread : config.threads[index]? = some thread) :
    (machine.apply config (.step index)).threads[index]? =
      some (machine.step thread config.shared).1 := by
  obtain ⟨hindex, -⟩ := List.getElem?_eq_some_iff.mp hthread
  rw [apply_step_of_getElem? _ hthread]
  exact List.getElem?_set_self hindex

theorem visit_self {config : Config Thread Shared} {thread : Thread}
    (hthread : config.threads[index]? = some thread) :
    config.visit index (.step index : Action Request Event) = [(thread, config.shared)] := by
  rw [Config.visit, if_pos rfl, hthread]
  rfl

theorem visit_of_ne (config : Config Thread Shared) {action : Action Request Event}
    (hother : ∀ other, action = .step other → other ≠ index) : config.visit index action = [] := by
  cases action with
  | step other => exact if_neg (hother other rfl)
  | _ => rfl

/-- The potential rule: a thread takes no more steps of a kind than its potential allows, when every
step pays for itself and no other action adds to the potential. What is left of it is that of the
thread at the end. -/
theorem countP_visits_le (kind : Thread → Bool) (potential : Thread → Shared → ℕ)
    (invariant : Config Thread Shared → Prop)
    (hinvariant : ∀ config action, invariant config → invariant (machine.apply config action))
    (hown : ∀ config thread, invariant config → config.threads[index]? = some thread →
      (if kind thread then 1 else 0) +
          potential (machine.step thread config.shared).1 (machine.step thread config.shared).2 ≤
        potential thread config.shared)
    (hother : ∀ config action thread, invariant config → config.threads[index]? = some thread →
      (∀ other, action = .step other → other ≠ index) →
        potential thread (machine.apply config action).shared ≤ potential thread config.shared)
    (schedule : List (Action Request Event)) {config : Config Thread Shared} {thread : Thread}
    (hinit : invariant config) (hthread : config.threads[index]? = some thread) :
    ∃ last, (machine.run schedule config).threads[index]? = some last ∧
      (machine.visits index schedule config).countP (fun visit ↦ kind visit.1) +
          potential last (machine.run schedule config).shared ≤
        potential thread config.shared := by
  induction schedule generalizing config thread with
  | nil => exact ⟨thread, hthread, by simp [Machine.visits]⟩
  | cons action rest ih =>
    rw [Machine.visits, List.countP_append, run_cons]
    by_cases hself : action = .step index
    · subst hself
      obtain ⟨last, hlast, hle⟩ := ih (hinvariant _ _ hinit) (getElem?_apply_self hthread)
      have hpays := hown config thread hinit hthread
      have hshared : (machine.apply config (.step index)).shared =
          (machine.step thread config.shared).2 := by
        rw [apply_step_of_getElem? _ hthread]
      rw [hshared] at hle
      refine ⟨last, hlast, ?_⟩
      rw [visit_self hthread, List.countP_singleton]
      show (if kind thread = true then 1 else 0) + _ + _ ≤ _
      omega
    · have hne : ∀ other, action = .step other → other ≠ index :=
        fun other hstep hsame ↦ hself (hstep.trans (congrArg _ hsame))
      obtain ⟨last, hlast, hle⟩ :=
        ih (hinvariant _ _ hinit) (getElem?_apply_of_ne hthread hne)
      have hkept := hother config action thread hinit hthread hne
      refine ⟨last, hlast, ?_⟩
      rw [visit_of_ne config hne, List.countP_nil]
      omega

/-- What a thread has, and keeps in each of its steps along a schedule, it has before each of them
and at the end. -/
theorem forall_visits (property : Thread → Prop) {schedule : List (Action Request Event)}
    {config : Config Thread Shared} {thread : Thread}
    (hstep : ∀ visit ∈ machine.visits index schedule config, property visit.1 →
      property (machine.step visit.1 visit.2).1)
    (hthread : config.threads[index]? = some thread) (hinit : property thread) :
    (∀ visit ∈ machine.visits index schedule config, property visit.1) ∧
      ∃ last, (machine.run schedule config).threads[index]? = some last ∧ property last := by
  induction schedule generalizing config thread with
  | nil => exact ⟨(fun visit hvisit ↦ by cases hvisit), thread, hthread, hinit⟩
  | cons action rest ih =>
    have hrest : ∀ visit ∈ machine.visits index rest (machine.apply config action),
        property visit.1 → property (machine.step visit.1 visit.2).1 :=
      fun visit hvisit ↦ hstep visit (List.mem_append_right _ hvisit)
    rw [Machine.visits]
    by_cases hself : action = .step index
    · subst hself
      have hhere : (thread, config.shared) ∈ config.visit index
        (.step index : Action Request Event) := by
        rw [visit_self hthread]
        exact List.mem_singleton_self _
      obtain ⟨hall, hlast⟩ := ih hrest (getElem?_apply_self hthread)
        (hstep _ (List.mem_append_left _ hhere) hinit)
      refine ⟨fun visit hvisit ↦ ?_, hlast⟩
      rcases List.mem_append.mp hvisit with hfirst | hlater
      · rw [visit_self hthread, List.mem_singleton] at hfirst
        rw [hfirst]
        exact hinit
      · exact hall visit hlater
    · have hne : ∀ other, action = .step other → other ≠ index :=
        fun other hother hsame ↦ hself (hother.trans (congrArg _ hsame))
      rw [visit_of_ne config hne, List.nil_append]
      exact ih hrest (getElem?_apply_of_ne hthread hne) hinit

/-- The action lets the thread at an index take a step. -/
def Action.isStep (index : ℕ) : Action Request Event → Bool
  | .step other => other == index
  | _ => false

/-- The rule for threads that finish whatever the others do: a thread that pays for every step out
of a potential to which no other action adds is done after as many steps of its own. -/
theorem exists_finished (machine : Machine Request Thread Shared Event)
    (working : Thread → Bool) (potential : Thread → Shared → ℕ)
    (invariant : Config Thread Shared → Prop)
    (hinvariant : ∀ config action, invariant config → invariant (machine.apply config action))
    (hstays : ∀ thread shared, working thread = false →
      working (machine.step thread shared).1 = false)
    (hown : ∀ config thread, invariant config → config.threads[index]? = some thread →
      working thread = true →
        potential (machine.step thread config.shared).1 (machine.step thread config.shared).2 <
          potential thread config.shared)
    (hother : ∀ config action thread, invariant config → config.threads[index]? = some thread →
      (∀ other, action = .step other → other ≠ index) →
        potential thread (machine.apply config action).shared ≤ potential thread config.shared)
    (schedule : List (Action Request Event)) {config : Config Thread Shared} {thread : Thread}
    (hinit : invariant config) (hthread : config.threads[index]? = some thread)
    (hsteps : potential thread config.shared ≤ schedule.countP (Action.isStep index)) :
    ∃ last, (machine.run schedule config).threads[index]? = some last ∧ working last = false := by
  induction schedule generalizing config thread with
  | nil =>
    refine ⟨thread, hthread, ?_⟩
    by_contra hworking
    have hpaid := hown config thread hinit hthread (Bool.eq_true_of_not_eq_false hworking)
    exact absurd (Nat.lt_of_lt_of_le hpaid hsteps) (Nat.not_lt_zero _)
  | cons action rest ih =>
    cases hworking : working thread with
    | false =>
      exact exists_of_stable machine (working · = false) hstays (action :: rest) hthread hworking
    | true =>
      rw [List.countP_cons] at hsteps
      rw [run_cons]
      by_cases hself : action = .step index
      · subst hself
        have hpaid := hown config thread hinit hthread hworking
        have hshared : (machine.apply config (.step index)).shared =
            (machine.step thread config.shared).2 := by
          rw [apply_step_of_getElem? _ hthread]
        have hcounted : Action.isStep index (.step index : Action Request Event) = true :=
          beq_self_eq_true index
        rw [if_pos hcounted] at hsteps
        refine ih (hinvariant _ _ hinit) (getElem?_apply_self hthread) ?_
        rw [hshared]
        omega
      · have hne : ∀ other, action = .step other → other ≠ index :=
          fun other hstep hsame ↦ hself (hstep.trans (congrArg _ hsame))
        have hnot : ¬ Action.isStep index action = true := by
          cases action with
          | step other => exact fun hsame ↦ hne other rfl (eq_of_beq hsame)
          | _ => exact Bool.false_ne_true
        have hkept := hother config action thread hinit hthread hne
        rw [if_neg hnot] at hsteps
        exact ih (hinvariant _ _ hinit) (getElem?_apply_of_ne hthread hne) (hkept.trans hsteps)

end Interleaving
