import Fence.Library.Session

/-!
# A thread alone with its environment

A thread runs while nothing else acts but the environment (`Reaches`): any state it passes through
is one it may be stopped in. `Completes` is a session in which the environment acts at any time.
`Reaches.invariant` is the induction rule. When the environment is hidden by a projection of the
shared state, what a thread will end up with does not depend on it (`Reaches.ends_project`).
-/

set_option autoImplicit false
set_option relaxedAutoImplicit false

namespace Interleaving

variable {Request Thread Shared Event Answer : Type*}

/-- A thread gets from one place to another while nothing else acts but the environment. -/
inductive Machine.Reaches (machine : Machine Request Thread Shared Event) :
    Thread → Shared → Thread → Shared → Prop
  | refl (thread : Thread) (shared : Shared) : machine.Reaches thread shared thread shared
  | step {thread between : Thread} {shared middle : Shared}
      (hreaches : machine.Reaches thread shared between middle) :
      machine.Reaches thread shared (machine.step between middle).1 (machine.step between middle).2
  | env (event : Event) {thread between : Thread} {shared middle : Shared}
      (hreaches : machine.Reaches thread shared between middle) :
      machine.Reaches thread shared between (machine.env event middle)

/-- Requests completed one after another, with the environment acting at any time. -/
inductive Machine.Completes (machine : Machine Request Thread Shared Event)
    (answer : Thread → Option Answer) : List Request → Shared → Shared → Prop
  | nil (shared : Shared) : machine.Completes answer [] shared shared
  | env (event : Event) {requests : List Request} {shared later : Shared}
      (hcompletes : machine.Completes answer requests shared later) :
      machine.Completes answer requests shared (machine.env event later)
  | snoc {requests : List Request} {request : Request} {shared middle later : Shared}
      {thread : Thread} {given : Answer}
      (hcompletes : machine.Completes answer requests shared middle)
      (hreaches : machine.Reaches (machine.start request) middle thread later)
      (hgiven : answer thread = some given) :
      machine.Completes answer (requests ++ [request]) shared later

variable {machine : Machine Request Thread Shared Event} {answer : Thread → Option Answer}

/-- What every step of a thread and every event preserve holds wherever the thread gets to. -/
theorem Machine.Reaches.invariant (invariant : Thread → Shared → Prop)
    (hstep : ∀ thread shared, invariant thread shared →
      invariant (machine.step thread shared).1 (machine.step thread shared).2)
    (henv : ∀ event thread shared, invariant thread shared →
      invariant thread (machine.env event shared))
    {thread result : Thread} {shared later : Shared}
    (hreaches : machine.Reaches thread shared result later) (hinit : invariant thread shared) :
    invariant result later := by
  induction hreaches with
  | refl => exact hinit
  | step _ ih => exact hstep _ _ (ih hinit)
  | env event _ ih => exact henv event _ _ (ih hinit)

/-- What every completed request and every event preserve holds after all of them. -/
theorem Machine.Completes.invariant (invariant : Shared → Prop) {requests : List Request}
    (hserve : ∀ request ∈ requests, ∀ shared thread given later, invariant shared →
      machine.Reaches (machine.start request) shared thread later → answer thread = some given →
      invariant later)
    (henv : ∀ event shared, invariant shared → invariant (machine.env event shared))
    {shared later : Shared} (hcompletes : machine.Completes answer requests shared later)
    (hinit : invariant shared) : invariant later := by
  induction hcompletes with
  | nil => exact hinit
  | env event _ ih => exact henv event _ (ih hserve hinit)
  | snoc _ hreaches hgiven ih =>
    refine hserve _ (by simp) _ _ _ _ (ih (fun request hmem ↦ ?_) hinit) hreaches hgiven
    exact hserve request (List.mem_append_left _ hmem)

/-- A step on the way to a halt. -/
theorem Machine.Ends.next {thread result : Thread} {shared later : Shared}
    (hends : machine.Ends thread shared result later)
    (hhalted : ∀ shared, machine.step result shared = (result, shared)) :
    machine.Ends (machine.step thread shared).1 (machine.step thread shared).2 result later := by
  obtain ⟨count, hcount⟩ := hends
  cases count with
  | zero =>
    cases hcount
    rw [hhalted]
    exact .refl _ _
  | succ count => exact ⟨count, hcount⟩

theorem Machine.Reaches.trans {thread between result : Thread} {shared middle later : Shared}
    (hfirst : machine.Reaches thread shared between middle)
    (hsecond : machine.Reaches between middle result later) :
    machine.Reaches thread shared result later := by
  induction hsecond with
  | refl => exact hfirst
  | step _ ih => exact (ih hfirst).step
  | env event _ ih => exact (ih hfirst).env event

/-- A thread may do what it does on a projection of the shared state. -/
theorem Machine.Ends.reaches_of_project {Shared' Event' : Type*}
    {machine' : Machine Request Thread Shared' Event'} {project : Shared → Shared'}
    (hstep : ∀ thread shared, machine'.step thread (project shared) =
      ((machine.step thread shared).1, project (machine.step thread shared).2))
    {thread result : Thread} {shared : Shared} {later : Shared'}
    (hends : machine'.Ends thread (project shared) result later) :
    ∃ middle, machine.Reaches thread shared result middle ∧ project middle = later := by
  obtain ⟨count, hcount⟩ := hends
  induction count generalizing thread shared with
  | zero =>
    cases hcount
    exact ⟨shared, .refl _ _, rfl⟩
  | succ count ih =>
    rw [Machine.solo, hstep] at hcount
    obtain ⟨middle, hreaches, hmiddle⟩ := ih hcount
    exact ⟨middle, (Machine.Reaches.refl thread shared).step.trans hreaches, hmiddle⟩

/-- A thread may do what it does alone. -/
theorem Machine.Ends.reaches {thread result : Thread} {shared later : Shared}
    (hends : machine.Ends thread shared result later) :
    machine.Reaches thread shared result later := by
  obtain ⟨middle, hreaches, rfl⟩ :=
    @Machine.Ends.reaches_of_project _ _ _ _ machine _ _ machine id
      (fun _ _ ↦ rfl) _ _ shared _ hends
  exact hreaches

/-- Wherever a thread gets to, it still ends up where it would have from the start, when a
projection of the shared state hides the environment. -/
theorem Machine.Reaches.ends_project {Shared' Event' : Type*}
    {machine' : Machine Request Thread Shared' Event'} {project : Shared → Shared'}
    (hstep : ∀ thread shared, machine'.step thread (project shared) =
      ((machine.step thread shared).1, project (machine.step thread shared).2))
    (henv : ∀ event shared, project (machine.env event shared) = project shared)
    {thread between result : Thread} {shared middle : Shared} {later : Shared'}
    (hreaches : machine.Reaches thread shared between middle)
    (hhalted : ∀ shared, machine'.step result shared = (result, shared))
    (hends : machine'.Ends thread (project shared) result later) :
    machine'.Ends between (project middle) result later := by
  refine hreaches.invariant (fun thread shared ↦ machine'.Ends thread (project shared) result later)
    ?_ ?_ hends
  · intro thread shared hends
    have hnext := hends.next hhalted
    rwa [hstep] at hnext
  · intro event thread shared hends
    rwa [henv]

end Interleaving
