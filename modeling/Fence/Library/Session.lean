import Fence.Library.Interleaving
import Mathlib.Data.List.Induction

/-!
# Requests served one after another

In a session the threads do not interleave: each is started, runs alone until it gives its answer,
and leaves the shared state to the next. `refines` is the simulation rule. When every single
request, from a shared state that represents an abstract one, gives the abstract answer and leaves a
state that represents the abstract next one, then so does every session. `unique` says that the
answers of a session are determined, and `answers_iff` joins the two.
-/

set_option autoImplicit false
set_option relaxedAutoImplicit false

namespace Interleaving

variable {Request Thread Shared Event Answer State : Type*}

/-- Requests served one after another, with their answers and the shared state they leave. -/
inductive Machine.Session (machine : Machine Request Thread Shared Event)
    (answer : Thread → Option Answer) : List Request → Shared → List Answer → Shared → Prop
  | nil (shared : Shared) : machine.Session answer [] shared [] shared
  | cons {request : Request} {rest : List Request} {shared between later : Shared}
      {thread : Thread} {given : Answer} {answers : List Answer}
      (hends : machine.Ends (machine.start request) shared thread between)
      (hgiven : answer thread = some given)
      (hrest : machine.Session answer rest between answers later) :
      machine.Session answer (request :: rest) shared (given :: answers) later

/-- The answers of an abstract service, and the state it ends up in. -/
def serveAll (serve : Request → State → Answer × State) :
    List Request → State → List Answer × State
  | [], state => ([], state)
  | request :: rest, state =>
    ((serve request state).1 :: (serveAll serve rest (serve request state).2).1,
      (serveAll serve rest (serve request state).2).2)

/-! ### The abstract service -/

section ServeAll

variable {serve : Request → State → Answer × State}

theorem serveAll_append (first second : List Request) (state : State) :
    serveAll serve (first ++ second) state =
      ((serveAll serve first state).1 ++ (serveAll serve second (serveAll serve first state).2).1,
        (serveAll serve second (serveAll serve first state).2).2) := by
  induction first generalizing state with
  | nil => rfl
  | cons request rest ih =>
    rw [List.cons_append, serveAll, ih]
    rfl

/-- What every request preserves, given the requests before it, holds after all of them. -/
theorem serveAll_invariant (invariant : List Request → State → Prop)
    (hstep : ∀ before request state, invariant before state →
      invariant (before ++ [request]) (serve request state).2)
    (requests : List Request) {state : State} (hinit : invariant [] state) :
    invariant requests (serveAll serve requests state).2 := by
  induction requests using List.reverseRecOn with
  | nil => exact hinit
  | append_singleton before request ih =>
    rw [serveAll_append]
    exact hstep before request _ ih

end ServeAll

/-! ### Sessions -/

variable {machine : Machine Request Thread Shared Event} {answer : Thread → Option Answer}

theorem Machine.Session.append {first second : List Request} {shared between later : Shared}
    {answers others : List Answer} (hfirst : machine.Session answer first shared answers between)
    (hsecond : machine.Session answer second between others later) :
    machine.Session answer (first ++ second) shared (answers ++ others) later := by
  induction hfirst with
  | nil => exact hsecond
  | cons hends hgiven _ ih => exact .cons hends hgiven (ih hsecond)

/-- A session determines its answers and the shared state it leaves. -/
theorem Machine.Session.unique
    (hhalted : ∀ thread given, answer thread = some given →
      ∀ shared, machine.step thread shared = (thread, shared))
    {requests : List Request} {shared firstLater secondLater : Shared}
    {firstAnswers secondAnswers : List Answer}
    (hfirst : machine.Session answer requests shared firstAnswers firstLater)
    (hsecond : machine.Session answer requests shared secondAnswers secondLater) :
    firstAnswers = secondAnswers ∧ firstLater = secondLater := by
  induction hfirst generalizing secondAnswers with
  | nil =>
    cases hsecond
    exact ⟨rfl, rfl⟩
  | cons hends hgiven _ ih =>
    cases hsecond with
    | cons hends' hgiven' hrest' =>
      obtain ⟨rfl, rfl⟩ := hends.unique hends' (hhalted _ _ hgiven) (hhalted _ _ hgiven')
      obtain rfl := Option.some.inj (hgiven.symm.trans hgiven')
      obtain ⟨rfl, rfl⟩ := ih hrest'
      exact ⟨rfl, rfl⟩

/-- The simulation rule: a session does what the abstract service does, when every request does. -/
theorem Machine.Session.refines (serve : Request → State → Answer × State)
    (represents : State → Shared → Prop)
    (hserve : ∀ request state shared, represents state shared → ∃ thread later,
      machine.Ends (machine.start request) shared thread later ∧
        answer thread = some (serve request state).1 ∧ represents (serve request state).2 later)
    (requests : List Request) {state : State} {shared : Shared}
    (hrepresents : represents state shared) :
    ∃ later, machine.Session answer requests shared (serveAll serve requests state).1 later ∧
      represents (serveAll serve requests state).2 later := by
  induction requests generalizing state shared with
  | nil => exact ⟨shared, .nil shared, hrepresents⟩
  | cons request rest ih =>
    obtain ⟨thread, between, hends, hgiven, hbetween⟩ := hserve request state shared hrepresents
    obtain ⟨later, hsession, hlater⟩ := ih hbetween
    exact ⟨later, .cons hends hgiven hsession, hlater⟩

/-- The answers of a session are those of the abstract service, and no others. -/
theorem Machine.Session.answers_iff (serve : Request → State → Answer × State)
    (represents : State → Shared → Prop)
    (hhalted : ∀ thread given, answer thread = some given →
      ∀ shared, machine.step thread shared = (thread, shared))
    (hserve : ∀ request state shared, represents state shared → ∃ thread later,
      machine.Ends (machine.start request) shared thread later ∧
        answer thread = some (serve request state).1 ∧ represents (serve request state).2 later)
    (requests : List Request) {state : State} {shared : Shared}
    (hrepresents : represents state shared) (answers : List Answer) :
    (∃ later, machine.Session answer requests shared answers later) ↔
      answers = (serveAll serve requests state).1 := by
  obtain ⟨later, hsession, -⟩ :=
    Machine.Session.refines serve represents hserve requests hrepresents
  constructor
  · rintro ⟨other, hother⟩
    exact (hother.unique hhalted hsession).1
  · rintro rfl
    exact ⟨later, hsession⟩

/-- What every request preserves is preserved by a session. -/
theorem Machine.Session.preserves (property : Shared → Prop) {requests : List Request}
    (hserve : ∀ request ∈ requests, ∀ shared thread later, property shared →
      machine.Ends (machine.start request) shared thread later → property later)
    {shared later : Shared} {answers : List Answer}
    (hsession : machine.Session answer requests shared answers later)
    (hinit : property shared) : property later := by
  induction hsession with
  | nil => exact hinit
  | cons hends _ _ ih =>
    exact ih (fun request hmem ↦ hserve request (List.mem_cons_of_mem _ hmem))
      (hserve _ List.mem_cons_self _ _ _ hinit hends)

/-- Every request of a session has a property of the shared state it is made in. -/
def Machine.AtEach (machine : Machine Request Thread Shared Event)
    (answer : Thread → Option Answer) (property : Request → Shared → Prop)
    (requests : List Request) (shared : Shared) : Prop :=
  ∀ before request after given between, requests = before ++ request :: after →
    machine.Session answer before shared given between → property request between

theorem Machine.AtEach.head {property : Request → Shared → Prop} {request : Request}
    {rest : List Request} {shared : Shared}
    (hall : machine.AtEach answer property (request :: rest) shared) : property request shared :=
  hall [] request rest [] shared rfl (.nil shared)

theorem Machine.AtEach.tail {property : Request → Shared → Prop} {request : Request}
    {rest : List Request} {shared between : Shared} {thread : Thread} {given : Answer}
    (hall : machine.AtEach answer property (request :: rest) shared)
    (hends : machine.Ends (machine.start request) shared thread between)
    (hgiven : answer thread = some given) : machine.AtEach answer property rest between :=
  fun before other after answers later hsplit hsession ↦
    hall (request :: before) other after (given :: answers) later
      (by rw [hsplit, List.cons_append]) (.cons hends hgiven hsession)

/-- What every request preserves, given the requests before it with their answers, holds after a
session. -/
theorem Machine.Session.invariant (property : Request → Shared → Prop)
    (invariant : List (Request × Answer) → Shared → Prop)
    (hserve : ∀ history request shared thread given later, invariant history shared →
      property request shared → machine.Ends (machine.start request) shared thread later →
      answer thread = some given → invariant (history ++ [(request, given)]) later)
    {requests : List Request} {shared later : Shared} {answers : List Answer}
    (hsession : machine.Session answer requests shared answers later)
    (hall : machine.AtEach answer property requests shared)
    {history : List (Request × Answer)} (hinit : invariant history shared) :
    invariant (history ++ requests.zip answers) later := by
  induction hsession generalizing history with
  | nil => simpa using hinit
  | cons hends hgiven _ ih =>
    have hnext := hserve history _ _ _ _ _ hinit hall.head hends hgiven
    simpa using ih (hall.tail hends hgiven) hnext

/-- What holds of the requests alone holds of each. -/
theorem Machine.AtEach.and {property : Request → Shared → Prop} {allowed : Request → Prop}
    {requests : List Request} {shared : Shared} (hallowed : ∀ request ∈ requests, allowed request)
    (hall : machine.AtEach answer property requests shared) :
    machine.AtEach answer (fun request shared ↦ allowed request ∧ property request shared) requests
      shared := by
  intro before request after given between hsplit hbefore
  refine ⟨hallowed request ?_, hall before request after given between hsplit hbefore⟩
  rw [hsplit]
  exact List.mem_append_right _ List.mem_cons_self

theorem Machine.AtEach.of_append {property : Request → Shared → Prop} {before after : List Request}
    {shared : Shared} (hall : machine.AtEach answer property (before ++ after) shared) :
    machine.AtEach answer property before shared :=
  fun first request rest given between hsplit hfirst ↦
    hall first request (rest ++ after) given between
      (by rw [hsplit, List.append_assoc, List.cons_append]) hfirst

/-- A property that follows from another one and from what the requests before it preserve. -/
theorem Machine.AtEach.imp {property other : Request → Shared → Prop}
    (invariant : List (Request × Answer) → Shared → Prop)
    (hserve : ∀ history request shared thread given later, invariant history shared →
      property request shared → machine.Ends (machine.start request) shared thread later →
      answer thread = some given → invariant (history ++ [(request, given)]) later)
    (himp : ∀ history request shared, invariant history shared →
      property request shared → other request shared)
    {requests : List Request} {shared : Shared}
    (hall : machine.AtEach answer property requests shared) (hinit : invariant [] shared) :
    machine.AtEach answer other requests shared := by
  intro before request after given between hsplit hsession
  have hbefore : machine.AtEach answer property before shared := (hsplit ▸ hall).of_append
  exact himp _ request between (hsession.invariant property invariant hserve hbefore hinit)
    (hall before request after given between hsplit hsession)

end Interleaving
