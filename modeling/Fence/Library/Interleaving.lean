import Mathlib.Algebra.Order.Ring.Nat
import Mathlib.Data.List.Basic
import Mathlib.Tactic.Common

/-!
# Threads that interleave on a shared state

A machine says what thread a request starts, what one step of a thread does to the thread and to
the shared state, and what the environment may do to the shared state on its own. A
configuration is a shared state with a growing list of threads, and a schedule is a list of
actions: start a thread, let a thread take one step, let the environment act. A thread that is
never scheduled again has stopped for good, so quantifying over schedules quantifies over every
interleaving and over every way threads may stop.

`invariant_run` is the induction rule: what every action preserves under a side condition holds
after every schedule whose actions meet the condition (`Along`). `run_project` relates two
machines whose shared states differ by a projection. `solo` runs one thread alone, and `Ends` says
where such a run leads; `run_replicate_step` and `run_alone` embed it in a schedule, and
`exists_halted_solo` is the termination rule, an invariant with a measure that decreases until the
thread halts.
`run_flood` and `run_drain` compute runs of many threads alike, however many they are.
-/

set_option autoImplicit false
set_option relaxedAutoImplicit false

namespace Interleaving

/-- What a request starts, what one step of a thread does, and what the environment may do to
the shared state. -/
structure Machine (Request Thread Shared Event : Type*) where
  /-- The thread a request starts. -/
  start : Request → Thread
  /-- One step of a thread, on the thread and on the shared state. -/
  step : Thread → Shared → Thread × Shared
  /-- What an event of the environment does to the shared state. -/
  env : Event → Shared → Shared

/-- A shared state and the threads started so far. -/
@[ext] structure Config (Thread Shared : Type*) where
  shared : Shared
  threads : List Thread

/-- One action of a schedule. -/
inductive Action (Request Event : Type*)
  | start (request : Request)
  | step (index : ℕ)
  | env (event : Event)

/-- A routine that is still at a program point, or has returned. -/
inductive Task (Point Result : Type*)
  | running (point : Point)
  | returned (result : Result)
  deriving DecidableEq, Repr

/-- A property of the program point, for as long as the routine has not returned. -/
def Task.Holds {Point Result : Type*} (property : Point → Prop) : Task Point Result → Prop
  | .running point => property point
  | .returned _ => True

/-- A routine inside another one, which says where its program points are and how it goes on. -/
def Task.fold {Point Result Outer : Type*} (running : Point → Outer) (returned : Result → Outer) :
    Task Point Result → Outer
  | .running point => running point
  | .returned result => returned result

variable {Request Thread Shared Event : Type*}

/-- What an action does. Scheduling a thread that was never started does nothing. -/
def Machine.apply (machine : Machine Request Thread Shared Event)
    (config : Config Thread Shared) : Action Request Event → Config Thread Shared
  | .start request => { config with threads := config.threads ++ [machine.start request] }
  | .step index =>
    match config.threads[index]? with
    | none => config
    | some thread =>
      { shared := (machine.step thread config.shared).2
        threads := config.threads.set index (machine.step thread config.shared).1 }
  | .env event => { config with shared := machine.env event config.shared }

/-- The configuration a schedule leads to. -/
def Machine.run (machine : Machine Request Thread Shared Event)
    (schedule : List (Action Request Event)) (config : Config Thread Shared) :
    Config Thread Shared :=
  schedule.foldl machine.apply config

/-- Every action of a schedule meets a condition on the configuration it is taken in. -/
def Machine.Along (machine : Machine Request Thread Shared Event)
    (condition : Config Thread Shared → Action Request Event → Prop) :
    List (Action Request Event) → Config Thread Shared → Prop
  | [], _ => True
  | action :: rest, config =>
    condition config action ∧ machine.Along condition rest (machine.apply config action)

variable (machine : Machine Request Thread Shared Event)

@[simp] theorem run_nil (config : Config Thread Shared) : machine.run [] config = config := rfl

@[simp] theorem run_cons (action : Action Request Event) (rest : List (Action Request Event))
    (config : Config Thread Shared) :
    machine.run (action :: rest) config = machine.run rest (machine.apply config action) := rfl

theorem run_append (first second : List (Action Request Event)) (config : Config Thread Shared) :
    machine.run (first ++ second) config = machine.run second (machine.run first config) :=
  List.foldl_append

theorem apply_step_of_getElem? {config : Config Thread Shared} {index : ℕ} {thread : Thread}
    (hthread : config.threads[index]? = some thread) :
    machine.apply config (.step index) =
      { shared := (machine.step thread config.shared).2
        threads := config.threads.set index (machine.step thread config.shared).1 } := by
  simp only [Machine.apply, hthread]

theorem apply_step_of_none {config : Config Thread Shared} {index : ℕ}
    (hthread : config.threads[index]? = none) :
    machine.apply config (.step index) = config := by
  simp only [Machine.apply, hthread]

/-- What all threads have after one was replaced: the new one, and all others. -/
theorem forall_mem_set (property : Thread → Prop) {threads : List Thread} {index : ℕ}
    {before after : Thread} (hbefore : threads[index]? = some before) (hafter : property after)
    (hothers : ∀ other thread, other ≠ index → threads[other]? = some thread →
      property thread) : ∀ thread ∈ threads.set index after, property thread := by
  obtain ⟨hindex, -⟩ := List.getElem?_eq_some_iff.mp hbefore
  intro thread hmem
  obtain ⟨other, hother⟩ := List.mem_iff_getElem?.mp hmem
  by_cases hsame : other = index
  · subst hsame
    rw [List.getElem?_set_self hindex, Option.some.injEq] at hother
    exact hother ▸ hafter
  · rw [List.getElem?_set_ne (Ne.symm hsame)] at hother
    exact hothers other thread hsame hother

/-- What some thread has is still there after one was replaced, when the replacement keeps it. -/
theorem exists_mem_set {property later : Thread → Prop} {threads : List Thread} {index : ℕ}
    {before after : Thread} (hbefore : threads[index]? = some before)
    (hafter : property before → later after)
    (hothers : ∀ thread ∈ threads, property thread → later thread)
    (hexists : ∃ thread ∈ threads, property thread) :
    ∃ thread ∈ threads.set index after, later thread := by
  obtain ⟨thread, hmem, hproperty⟩ := hexists
  obtain ⟨other, hother⟩ := List.mem_iff_getElem?.mp hmem
  obtain ⟨hindex, -⟩ := List.getElem?_eq_some_iff.mp hbefore
  by_cases hsame : index = other
  · subst hsame
    obtain rfl : before = thread := Option.some.inj (hbefore.symm.trans hother)
    exact ⟨after, List.mem_set hindex after, hafter hproperty⟩
  · refine ⟨thread, List.mem_iff_getElem?.mpr ⟨other, ?_⟩, hothers thread hmem hproperty⟩
    rw [List.getElem?_set_ne hsame, hother]

/-! ### Conditions along a schedule -/

variable {machine}

theorem along_append {condition : Config Thread Shared → Action Request Event → Prop}
    {first second : List (Action Request Event)} {config : Config Thread Shared} :
    machine.Along condition (first ++ second) config ↔
      machine.Along condition first config ∧
        machine.Along condition second (machine.run first config) := by
  induction first generalizing config with
  | nil => simp [Machine.Along]
  | cons action rest ih => simp [Machine.Along, ih, and_assoc]

theorem Machine.Along.mono {condition weaker : Config Thread Shared → Action Request Event → Prop}
    (hweaker : ∀ config action, condition config action → weaker config action)
    {schedule : List (Action Request Event)} {config : Config Thread Shared}
    (halong : machine.Along condition schedule config) :
    machine.Along weaker schedule config := by
  induction schedule generalizing config with
  | nil => trivial
  | cons action rest ih => exact ⟨hweaker _ _ halong.1, ih halong.2⟩

theorem along_and {first second : Config Thread Shared → Action Request Event → Prop}
    {schedule : List (Action Request Event)} {config : Config Thread Shared} :
    machine.Along (fun config action ↦ first config action ∧ second config action) schedule
        config ↔
      machine.Along first schedule config ∧ machine.Along second schedule config := by
  induction schedule generalizing config with
  | nil => simp [Machine.Along]
  | cons action rest ih =>
    simp only [Machine.Along, ih]
    exact and_and_and_comm

/-- What every action preserves, under a side condition, holds after every schedule whose
actions meet the side condition. -/
theorem invariant_run {condition : Config Thread Shared → Action Request Event → Prop}
    (invariant : Config Thread Shared → Prop)
    (hstep : ∀ config action, invariant config → condition config action →
      invariant (machine.apply config action))
    {schedule : List (Action Request Event)} {config : Config Thread Shared}
    (halong : machine.Along condition schedule config) (hinit : invariant config) :
    invariant (machine.run schedule config) := by
  induction schedule generalizing config with
  | nil => exact hinit
  | cons action rest ih => exact ih halong.2 (hstep _ _ hinit halong.1)

/-- A property of actions that every action of a schedule has holds along the schedule. -/
theorem along_of_forall_mem (property : Action Request Event → Prop)
    {schedule : List (Action Request Event)} (hall : ∀ action ∈ schedule, property action)
    (config : Config Thread Shared) :
    machine.Along (fun _ action ↦ property action) schedule config := by
  induction schedule generalizing config with
  | nil => trivial
  | cons action rest ih =>
    exact ⟨hall action List.mem_cons_self,
      ih (fun other hother ↦ hall other (List.mem_cons_of_mem _ hother)) _⟩

/-- A condition along a schedule is a condition on every action with what comes before it. -/
theorem along_iff_forall_split {condition : Config Thread Shared → Action Request Event → Prop}
    {schedule : List (Action Request Event)} {config : Config Thread Shared} :
    machine.Along condition schedule config ↔
      ∀ before action after, schedule = before ++ action :: after →
        condition (machine.run before config) action := by
  constructor
  · rintro halong before action after rfl
    exact (along_append.mp halong).2.1
  · intro hall
    induction schedule generalizing config with
    | nil => trivial
    | cons action rest ih =>
      refine ⟨hall [] action rest rfl, ih fun before other after hsplit ↦ ?_⟩
      exact hall (action :: before) other after (by rw [hsplit, List.cons_append])

/-- What every action preserves holds after every schedule. -/
theorem invariant_run_always (invariant : Config Thread Shared → Prop)
    (hstep : ∀ config action, invariant config → invariant (machine.apply config action))
    (schedule : List (Action Request Event)) {config : Config Thread Shared}
    (hinit : invariant config) : invariant (machine.run schedule config) :=
  invariant_run invariant (fun config action hinvariant _ ↦ hstep config action hinvariant)
    (along_of_forall_mem (fun _ ↦ True) (fun _ _ ↦ trivial) config) hinit

/-- What an invariant says about the next action holds along every schedule. -/
theorem along_of_invariant
    {condition guarantee : Config Thread Shared → Action Request Event → Prop}
    (invariant : Config Thread Shared → Prop)
    (hstep : ∀ config action, invariant config → condition config action →
      guarantee config action ∧ invariant (machine.apply config action))
    {schedule : List (Action Request Event)} {config : Config Thread Shared}
    (halong : machine.Along condition schedule config) (hinit : invariant config) :
    machine.Along guarantee schedule config := by
  induction schedule generalizing config with
  | nil => trivial
  | cons action rest ih =>
    obtain ⟨hguarantee, hnext⟩ := hstep config action hinit halong.1
    exact ⟨hguarantee, ih halong.2 hnext⟩

/-- Whether every action meets a decidable condition can be computed. -/
instance decidableAlong (machine : Machine Request Thread Shared Event)
    (condition : Config Thread Shared → Action Request Event → Prop)
    [∀ config action, Decidable (condition config action)] :
    ∀ schedule config, Decidable (machine.Along condition schedule config)
  | [], _ => .isTrue trivial
  | action :: rest, config =>
    have := decidableAlong machine condition rest (machine.apply config action)
    inferInstanceAs (Decidable (_ ∧ _))

/-- The request an action starts, if it does. -/
def Action.request : Action Request Event → Option Request
  | .start request => some request
  | _ => none

/-- When steps keep the request a thread was started with, the threads of a run are those of its
requests, one after another. -/
theorem map_request_run (request : Thread → Request)
    (hstart : ∀ made, request (machine.start made) = made)
    (hstep : ∀ thread shared, request (machine.step thread shared).1 = request thread)
    (schedule : List (Action Request Event)) (config : Config Thread Shared) :
    (machine.run schedule config).threads.map request =
      config.threads.map request ++ schedule.filterMap Action.request := by
  induction schedule generalizing config with
  | nil => simp
  | cons action rest ih =>
    rw [run_cons, ih]
    cases action with
    | start made => simp [Machine.apply, Action.request, hstart]
    | env event => rfl
    | step index =>
      refine congrArg (· ++ rest.filterMap Action.request) ?_
      cases hthread : config.threads[index]? with
      | none => rw [apply_step_of_none _ hthread]
      | some thread =>
        obtain ⟨hindex, rfl⟩ := List.getElem?_eq_some_iff.mp hthread
        have hmapped : index < (config.threads.map request).length := by rwa [List.length_map]
        have hsame : (config.threads.map request)[index] = request config.threads[index] :=
          List.getElem_map request
        rw [apply_step_of_getElem? _ hthread, List.map_set, hstep, ← hsame, List.set_getElem_self]

/-- Every thread of a run that started with none was started by the schedule. -/
theorem start_mem_of_mem_run (request : Thread → Request)
    (hstart : ∀ made, request (machine.start made) = made)
    (hstep : ∀ thread shared, request (machine.step thread shared).1 = request thread)
    {schedule : List (Action Request Event)} {config : Config Thread Shared}
    (hinit : config.threads = []) :
    ∀ thread ∈ (machine.run schedule config).threads, .start (request thread) ∈ schedule := by
  intro thread hmem
  have hrequest := List.mem_map_of_mem (f := request) hmem
  rw [map_request_run request hstart hstep, hinit, List.map_nil, List.nil_append,
    List.mem_filterMap] at hrequest
  obtain ⟨action, haction, hmade⟩ := hrequest
  cases action with
  | start made => exact Option.some.inj hmade ▸ haction
  | step index => cases hmade
  | env event => cases hmade

/-! ### Projections of the shared state -/

section Projection

variable {Shared' Event' : Type*} {machine' : Machine Request Thread Shared' Event'}

/-- A configuration with its shared state projected. -/
def Config.project (project : Shared → Shared') (config : Config Thread Shared) :
    Config Thread Shared' :=
  { shared := project config.shared, threads := config.threads }

/-- An action without the environment, which the projected machine does not have. -/
def Action.erase : Action Request Event → Option (Action Request Event')
  | .start request => some (.start request)
  | .step index => some (.step index)
  | .env _ => none

section Run

variable {project : Shared → Shared'} (hstart : machine'.start = machine.start)
  (hstep : ∀ thread shared, machine'.step thread (project shared) =
    ((machine.step thread shared).1, project (machine.step thread shared).2))
  (henv : ∀ event shared, project (machine.env event shared) = project shared)

include hstart in
theorem apply_start_project (request : Request) (config : Config Thread Shared) :
    (machine.apply config (.start request)).project project =
      machine'.apply (config.project project) (.start request) := by
  simp only [Machine.apply, Config.project, hstart]

include hstep in
theorem apply_step_project (index : ℕ) (config : Config Thread Shared) :
    (machine.apply config (.step index)).project project =
      machine'.apply (config.project project) (.step index) := by
  cases hthread : config.threads[index]? with
  | none =>
    rw [apply_step_of_none machine hthread,
      apply_step_of_none machine' (by simpa [Config.project] using hthread)]
  | some thread =>
    rw [apply_step_of_getElem? machine hthread,
      apply_step_of_getElem? machine' (by simpa [Config.project] using hthread)]
    simp [Config.project, hstep]

include henv in
theorem apply_env_project (event : Event) (config : Config Thread Shared) :
    (machine.apply config (.env event)).project project = config.project project := by
  simp only [Machine.apply, Config.project, henv]

include hstart hstep henv in
/-- When a projection of the shared state commutes with the steps of threads and hides the
environment, it maps runs to runs. -/
theorem run_project (schedule : List (Action Request Event)) (config : Config Thread Shared) :
    (machine.run schedule config).project project =
      machine'.run (schedule.filterMap Action.erase) (config.project project) := by
  induction schedule generalizing config with
  | nil => rfl
  | cons action rest ih =>
    rw [run_cons, ih]
    cases action with
    | start request => rw [apply_start_project hstart]; rfl
    | step index => rw [apply_step_project hstep]; rfl
    | env event => rw [apply_env_project henv]; rfl

end Run

end Projection

/-! ### Two machines on one shared state -/

/-- The threads of two machines on one shared state, which only the first lets its environment
change. -/
def Machine.sum {Request' Thread' : Type*} (first : Machine Request Thread Shared Event)
    (second : Machine Request' Thread' Shared Empty) :
    Machine (Request ⊕ Request') (Thread ⊕ Thread') Shared Event where
  start := Sum.map first.start second.start
  step := fun thread shared ↦
    match thread with
    | .inl thread => ((first.step thread shared).map .inl id)
    | .inr thread => ((second.step thread shared).map .inr id)
  env := first.env

/-! ### One thread alone -/

/-- A thread after taking a number of steps alone, with the shared state it leaves. -/
def Machine.solo (machine : Machine Request Thread Shared Event) :
    ℕ → Thread → Shared → Thread × Shared
  | 0, thread, shared => (thread, shared)
  | count + 1, thread, shared =>
    machine.solo count (machine.step thread shared).1 (machine.step thread shared).2

theorem solo_add (first second : ℕ) (thread : Thread) (shared : Shared) :
    machine.solo (first + second) thread shared =
      machine.solo second (machine.solo first thread shared).1
        (machine.solo first thread shared).2 := by
  induction first generalizing thread shared with
  | zero => simp [Machine.solo]
  | succ first ih => rw [Nat.succ_add, Machine.solo, Machine.solo, ih]

/-- Scheduling one thread again and again runs it alone. -/
theorem run_replicate_step (count : ℕ) {config : Config Thread Shared} {index : ℕ}
    {thread : Thread} (hthread : config.threads[index]? = some thread) :
    machine.run (List.replicate count (.step index)) config =
      { shared := (machine.solo count thread config.shared).2
        threads := config.threads.set index (machine.solo count thread config.shared).1 } := by
  induction count generalizing config thread with
  | zero =>
    obtain ⟨hindex, rfl⟩ := List.getElem?_eq_some_iff.mp hthread
    simp [Machine.solo]
  | succ count ih =>
    obtain ⟨hindex, -⟩ := List.getElem?_eq_some_iff.mp hthread
    rw [List.replicate_succ, run_cons, apply_step_of_getElem? machine hthread,
      ih (List.getElem?_set_self hindex), List.set_set]
    rfl

/-- Running alone, a thread ends up as another. -/
def Machine.Leads (machine : Machine Request Thread Shared Event) (thread : Thread)
    (shared : Shared) (result : Thread) : Prop :=
  ∃ count, (machine.solo count thread shared).1 = result

/-- A thread is at its end already. -/
theorem Machine.Leads.refl (thread : Thread) (shared : Shared) :
    machine.Leads thread shared thread := ⟨0, rfl⟩

/-- A thread takes a step on its way. -/
theorem Machine.Leads.step {thread result : Thread} {shared : Shared}
    (hleads : machine.Leads (machine.step thread shared).1 (machine.step thread shared).2 result) :
    machine.Leads thread shared result := by
  obtain ⟨count, hcount⟩ := hleads
  exact ⟨count + 1, hcount⟩

/-- A halted thread stays as it is. -/
theorem solo_of_halted {thread : Thread}
    (hhalted : ∀ shared, machine.step thread shared = (thread, shared)) (count : ℕ)
    (shared : Shared) : machine.solo count thread shared = (thread, shared) := by
  induction count with
  | zero => rfl
  | succ count ih => rw [Machine.solo, hhalted, ih]

/-- A thread that runs alone until it halts ends up in one way only. -/
theorem solo_halted_unique {count other : ℕ} {thread : Thread} {shared : Shared}
    (hfirst : ∀ shared', machine.step (machine.solo count thread shared).1 shared' =
      ((machine.solo count thread shared).1, shared'))
    (hsecond : ∀ shared', machine.step (machine.solo other thread shared).1 shared' =
      ((machine.solo other thread shared).1, shared')) :
    machine.solo count thread shared = machine.solo other thread shared := by
  have hleft : machine.solo (count + other) thread shared = _ :=
    solo_add count other thread shared
  have hright : machine.solo (other + count) thread shared = _ :=
    solo_add other count thread shared
  rw [solo_of_halted hfirst] at hleft
  rw [solo_of_halted hsecond, Nat.add_comm] at hright
  exact hleft.symm.trans hright

theorem Machine.Leads.unique {thread first second : Thread} {shared : Shared}
    (hfirst : machine.Leads thread shared first) (hsecond : machine.Leads thread shared second)
    (hfirstHalted : ∀ shared, machine.step first shared = (first, shared))
    (hsecondHalted : ∀ shared, machine.step second shared = (second, shared)) :
    first = second := by
  obtain ⟨count, rfl⟩ := hfirst
  obtain ⟨other, rfl⟩ := hsecond
  exact congrArg Prod.fst (solo_halted_unique hfirstHalted hsecondHalted)

/-- Running alone, a thread ends up as another and leaves a shared state. -/
def Machine.Ends (machine : Machine Request Thread Shared Event) (thread : Thread)
    (shared : Shared) (result : Thread) (later : Shared) : Prop :=
  ∃ count, machine.solo count thread shared = (result, later)

theorem Machine.Ends.refl (thread : Thread) (shared : Shared) :
    machine.Ends thread shared thread shared := ⟨0, rfl⟩

theorem Machine.Ends.step {thread result : Thread} {shared later : Shared}
    (hends : machine.Ends (machine.step thread shared).1 (machine.step thread shared).2 result
      later) : machine.Ends thread shared result later := by
  obtain ⟨count, hcount⟩ := hends
  exact ⟨count + 1, hcount⟩

theorem Machine.Ends.of_step {thread next result : Thread} {shared between later : Shared}
    (hstep : machine.step thread shared = (next, between))
    (hends : machine.Ends next between result later) : machine.Ends thread shared result later := by
  refine .step ?_
  rwa [hstep]

theorem Machine.Ends.trans {thread between result : Thread} {shared middle later : Shared}
    (hfirst : machine.Ends thread shared between middle)
    (hsecond : machine.Ends between middle result later) :
    machine.Ends thread shared result later := by
  obtain ⟨count, hcount⟩ := hfirst
  obtain ⟨other, hother⟩ := hsecond
  refine ⟨count + other, ?_⟩
  rw [solo_add, hcount]
  exact hother

theorem Machine.Ends.leads {thread result : Thread} {shared later : Shared}
    (hends : machine.Ends thread shared result later) : machine.Leads thread shared result := by
  obtain ⟨count, hcount⟩ := hends
  exact ⟨count, by rw [hcount]⟩

/-- A thread that runs alone until it halts ends up in one way and leaves one shared state. -/
theorem Machine.Ends.unique {thread first second : Thread} {shared firstLater secondLater : Shared}
    (hfirst : machine.Ends thread shared first firstLater)
    (hsecond : machine.Ends thread shared second secondLater)
    (hfirstHalted : ∀ shared, machine.step first shared = (first, shared))
    (hsecondHalted : ∀ shared, machine.step second shared = (second, shared)) :
    first = second ∧ firstLater = secondLater := by
  obtain ⟨count, hcount⟩ := hfirst
  obtain ⟨other, hother⟩ := hsecond
  have hsame : machine.solo count thread shared = machine.solo other thread shared :=
    solo_halted_unique (by rw [hcount]; exact hfirstHalted) (by rw [hother]; exact hsecondHalted)
  rw [hcount, hother, Prod.mk.injEq] at hsame
  exact hsame

/-- What every step of a thread preserves holds where it ends up. -/
theorem Machine.Ends.preserves (invariant : Thread → Shared → Prop)
    (hstep : ∀ thread shared, invariant thread shared →
      invariant (machine.step thread shared).1 (machine.step thread shared).2)
    {thread result : Thread} {shared later : Shared}
    (hends : machine.Ends thread shared result later) (hinit : invariant thread shared) :
    invariant result later := by
  obtain ⟨count, hcount⟩ := hends
  induction count generalizing thread shared with
  | zero =>
    cases hcount
    exact hinit
  | succ count ih => exact ih (hstep thread shared hinit) hcount

/-- A routine inside another one: where the inner thread runs alone to, the outer one runs to as
well, when every step of the inner thread that is not halted is a step of the outer one. -/
theorem Machine.Ends.embed {Request' Thread' Event' : Type*}
    (outer : Machine Request' Thread' Shared Event') (inside : Thread → Thread')
    (halted : Thread → Prop)
    (hhalted : ∀ thread, halted thread → ∀ shared, machine.step thread shared = (thread, shared))
    (hstep : ∀ thread shared, ¬ halted thread → outer.step (inside thread) shared =
      (inside (machine.step thread shared).1, (machine.step thread shared).2))
    {thread result : Thread} {shared later : Shared}
    (hends : machine.Ends thread shared result later) :
    outer.Ends (inside thread) shared (inside result) later := by
  obtain ⟨count, hcount⟩ := hends
  induction count generalizing thread shared with
  | zero =>
    cases hcount
    exact .refl _ _
  | succ count ih =>
    by_cases hdone : halted thread
    · rw [solo_of_halted (hhalted thread hdone)] at hcount
      cases hcount
      exact .refl _ _
    · refine .step ?_
      rw [hstep thread shared hdone]
      exact ih hcount

/-- The termination rule: an invariant of one thread running alone, with a measure that every
step before the thread halts decreases. -/
theorem exists_halted_solo (halted : Thread → Prop) (invariant : Thread → Shared → Prop)
    (measure : Thread → Shared → ℕ)
    (hstep : ∀ thread shared, invariant thread shared → ¬ halted thread →
      invariant (machine.step thread shared).1 (machine.step thread shared).2 ∧
        measure (machine.step thread shared).1 (machine.step thread shared).2 <
          measure thread shared)
    {thread : Thread} {shared : Shared} (hinit : invariant thread shared) :
    ∃ count, halted (machine.solo count thread shared).1 ∧
      invariant (machine.solo count thread shared).1 (machine.solo count thread shared).2 := by
  induction hsize : measure thread shared using Nat.strongRecOn
    generalizing thread shared with
  | _ size ih =>
    by_cases hhalted : halted thread
    · exact ⟨0, hhalted, hinit⟩
    · obtain ⟨hinvariant, hless⟩ := hstep thread shared hinit hhalted
      obtain ⟨count, hcount⟩ := ih _ (hsize ▸ hless) hinvariant rfl
      exact ⟨count + 1, hcount⟩

/-- A request is made and its thread runs alone for a number of steps. -/
def alone (request : Request) (index count : ℕ) : List (Action Request Event) :=
  .start request :: List.replicate count (.step index)

theorem run_alone (request : Request) (count : ℕ) (config : Config Thread Shared) :
    machine.run (alone request config.threads.length count) config =
      { shared := (machine.solo count (machine.start request) config.shared).2
        threads := config.threads ++
          [(machine.solo count (machine.start request) config.shared).1] } := by
  have hstarted : (machine.apply config (.start request)).threads[config.threads.length]? =
      some (machine.start request) := by simp [Machine.apply]
  rw [alone, run_cons, run_replicate_step count hstarted]
  simp [Machine.apply]

/-- A thread that is started and runs alone to where it ends up. -/
theorem run_alone_of_solo {request : Request} {count : ℕ} {config : Config Thread Shared}
    {result : Thread} {later : Shared}
    (hsolo : machine.solo count (machine.start request) config.shared = (result, later)) :
    machine.run (alone request config.threads.length count) config =
      { shared := later, threads := config.threads ++ [result] } := by
  rw [run_alone, hsolo]

/-- A thread that runs alone from where it is to where it ends up. -/
theorem run_replicate_of_solo {index count : ℕ} {config : Config Thread Shared}
    {thread result : Thread} {later : Shared} (hthread : config.threads[index]? = some thread)
    (hsolo : machine.solo count thread config.shared = (result, later)) :
    machine.run (List.replicate count (.step index)) config =
      { shared := later, threads := config.threads.set index result } := by
  rw [run_replicate_step count hthread, hsolo]

/-! ### Many threads alike -/

/-- A schedule that makes one request `count` times, each thread taking one step. -/
def flood (request : Request) (first : ℕ) : ℕ → List (Action Request Event)
  | 0 => []
  | count + 1 => .start request :: .step first :: flood request (first + 1) count

theorem eq_of_mem_alone {request : Request} {index count : ℕ} {action : Action Request Event}
    (hmem : action ∈ alone request index count) :
    action = .start request ∨ ∃ index, action = .step index := by
  rcases List.mem_cons.mp hmem with hstart | hstep
  · exact Or.inl hstart
  · exact Or.inr ⟨index, List.eq_of_mem_replicate hstep⟩

theorem eq_of_mem_flood {request : Request} {first count : ℕ} {action : Action Request Event}
    (hmem : action ∈ flood request first count) :
    action = .start request ∨ ∃ index, action = .step index := by
  induction count generalizing first with
  | zero => cases hmem
  | succ count ih =>
    rcases List.mem_cons.mp hmem with hstart | hrest
    · exact Or.inl hstart
    · rcases List.mem_cons.mp hrest with hstep | hlater
      · exact Or.inr ⟨first, hstep⟩
      · exact ih hlater

theorem filterMap_erase_replicate {Event' : Type*} (index count : ℕ) :
    (List.replicate count (.step index) : List (Action Request Event)).filterMap Action.erase =
      (List.replicate count (.step index) : List (Action Request Event')) := by
  induction count with
  | zero => rfl
  | succ count ih =>
    rw [List.replicate_succ, List.filterMap_cons, ih]
    rfl

theorem filterMap_erase_alone {Event' : Type*} (request : Request) (index count : ℕ) :
    (alone request index count : List (Action Request Event)).filterMap Action.erase =
      (alone request index count : List (Action Request Event')) := by
  rw [alone, List.filterMap_cons, filterMap_erase_replicate]
  rfl

theorem filterMap_erase_flood {Event' : Type*} (request : Request) (first count : ℕ) :
    (flood request first count : List (Action Request Event)).filterMap Action.erase =
      (flood request first count : List (Action Request Event')) := by
  induction count generalizing first with
  | zero => rfl
  | succ count ih =>
    rw [flood, List.filterMap_cons, List.filterMap_cons, ih]
    rfl

/-- When the one step of each thread takes the shared state along a sequence, the threads end up
where their steps take them. -/
theorem run_flood {request : Request} (after : ℕ → Thread) (states : ℕ → Shared) (count : ℕ)
    (hstep : ∀ i < count, machine.step (machine.start request) (states i) =
      (after i, states (i + 1)))
    (threads : List Thread) :
    machine.run (flood request threads.length count) ⟨states 0, threads⟩ =
      ⟨states count, threads ++ (List.range count).map after⟩ := by
  induction count generalizing after states threads with
  | zero => simp [flood]
  | succ count ih =>
    have hfirst : machine.apply (machine.apply ⟨states 0, threads⟩ (.start request))
        (.step threads.length) = ⟨states 1, threads ++ [after 0]⟩ := by
      have hstarted : (machine.apply ⟨states 0, threads⟩
        (.start request)).threads[threads.length]? =
          some (machine.start request) := by simp [Machine.apply]
      rw [apply_step_of_getElem? machine hstarted]
      simp [Machine.apply, hstep 0 (Nat.succ_pos _)]
    have hrest := ih (fun i ↦ after (i + 1)) (fun i ↦ states (i + 1))
      (fun i hi ↦ hstep (i + 1) (by omega)) (threads ++ [after 0])
    rw [List.length_append, List.length_singleton] at hrest
    rw [flood, run_cons, run_cons, hfirst, hrest, List.range_succ_eq_map]
    simp [Function.comp_def]

/-- A schedule in which each of `count` threads in a row takes a number of steps. -/
def drain (steps first : ℕ) : ℕ → List (Action Request Event)
  | 0 => []
  | count + 1 => List.replicate steps (.step first) ++ drain steps (first + 1) count

theorem eq_of_mem_drain {steps first count : ℕ} {action : Action Request Event}
    (hmem : action ∈ drain steps first count) : ∃ index, action = .step index := by
  induction count generalizing first with
  | zero => cases hmem
  | succ count ih =>
    rcases List.mem_append.mp hmem with hstep | hlater
    · exact ⟨first, List.eq_of_mem_replicate hstep⟩
    · exact ih hlater

/-- Threads that end up in the same place whatever the shared state is, one after the other. -/
theorem run_drain {steps : ℕ} (before after : ℕ → Thread) (count : ℕ)
    (hsolo : ∀ i < count, ∀ shared, (machine.solo steps (before i) shared).1 = after i)
    (shared : Shared) (front back : List Thread) :
    ∃ shared', machine.run (drain steps front.length count)
        ⟨shared, front ++ (List.range count).map before ++ back⟩ =
      ⟨shared', front ++ (List.range count).map after ++ back⟩ := by
  induction count generalizing before after shared front with
  | zero => exact ⟨shared, by simp [drain]⟩
  | succ count ih =>
    have hthread : (front ++ (List.range (count + 1)).map before ++ back)[front.length]? =
        some (before 0) := by
      simp [List.range_succ_eq_map]
    obtain ⟨shared', hrest⟩ := ih (fun i ↦ before (i + 1)) (fun i ↦ after (i + 1))
      (fun i hi ↦ hsolo (i + 1) (by omega)) (machine.solo steps (before 0) shared).2
      (front ++ [after 0])
    rw [List.length_append, List.length_singleton] at hrest
    refine ⟨shared', ?_⟩
    rw [drain, run_append, run_replicate_step steps hthread, hsolo 0 (Nat.succ_pos _)]
    simpa [List.range_succ_eq_map, Function.comp_def] using hrest

end Interleaving
