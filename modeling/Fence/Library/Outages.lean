import Fence.Library.Crash

/-!
# Requests cut off by crashes

Requests are served one after another on a shared state. A crash takes the thread of the request it
falls into along, and keeps of the shared state what `crash` says. `Machine.Endures` is any run of
this kind, with the environment acting at any time. `Durably` is what an abstract object may do
meanwhile: it serves every request that was answered, and of those that were cut off it serves some
and drops the others. `Endures.durably` is the simulation rule.
-/

set_option autoImplicit false
set_option relaxedAutoImplicit false

namespace Interleaving

variable {Request Thread Shared Event Answer State : Type*}

/-- What became of a request. -/
inductive Outcome (Request Answer : Type*)
  | answered (request : Request) (given : Answer)
  | cutOff (request : Request)

/-- The request it became of. -/
def Outcome.request : Outcome Request Answer → Request
  | .answered request _ => request
  | .cutOff request => request

/-- Requests served one after another, each answered or cut off by a crash. -/
inductive Machine.Endures (machine : Machine Request Thread Shared Event)
    (answer : Thread → Option Answer) (crash : Shared → Shared) :
    List (Outcome Request Answer) → Shared → Shared → Prop
  | nil (shared : Shared) : machine.Endures answer crash [] shared shared
  | env (event : Event) {outcomes : List (Outcome Request Answer)} {shared later : Shared}
      (hendures : machine.Endures answer crash outcomes shared later) :
      machine.Endures answer crash outcomes shared (machine.env event later)
  | answered {outcomes : List (Outcome Request Answer)} {request : Request}
      {shared middle later : Shared} {thread : Thread} {given : Answer}
      (hendures : machine.Endures answer crash outcomes shared middle)
      (hreaches : machine.Reaches (machine.start request) middle thread later)
      (hgiven : answer thread = some given) :
      machine.Endures answer crash (outcomes ++ [.answered request given]) shared later
  | cutOff {outcomes : List (Outcome Request Answer)} {request : Request}
      {shared middle later : Shared} {thread : Thread}
      (hendures : machine.Endures answer crash outcomes shared middle)
      (hreaches : machine.Reaches (machine.start request) middle thread later) :
      machine.Endures answer crash (outcomes ++ [.cutOff request]) shared (crash later)

/-- An abstract object serves the requests that were answered, and some of those that were cut
off. -/
inductive Durably (serves : State → Request → Answer → State → Prop) (start : State) :
    List (Outcome Request Answer) → State → Prop
  | nil : Durably serves start [] start
  | answered {outcomes : List (Outcome Request Answer)} {request : Request} {given : Answer}
      {state next : State} (hdurably : Durably serves start outcomes state)
      (hserves : serves state request given next) :
      Durably serves start (outcomes ++ [.answered request given]) next
  | kept {outcomes : List (Outcome Request Answer)} {request : Request} {given : Answer}
      {state next : State} (hdurably : Durably serves start outcomes state)
      (hserves : serves state request given next) :
      Durably serves start (outcomes ++ [.cutOff request]) next
  | dropped {outcomes : List (Outcome Request Answer)} {request : Request} {state : State}
      (hdurably : Durably serves start outcomes state) :
      Durably serves start (outcomes ++ [.cutOff request]) state

/-- Every request was allowed after what became of those before it. -/
def Admits (allowed : List (Outcome Request Answer) → Request → Prop)
    (outcomes : List (Outcome Request Answer)) : Prop :=
  ∀ before outcome, before ++ [outcome] <+: outcomes → allowed before outcome.request

section Admits

variable {allowed : List (Outcome Request Answer) → Request → Prop}
  {outcomes : List (Outcome Request Answer)}

theorem Admits.of_concat {outcome : Outcome Request Answer}
    (hadmits : Admits allowed (outcomes ++ [outcome])) :
    Admits allowed outcomes ∧ allowed outcomes outcome.request :=
  ⟨fun before other hleading ↦ hadmits before other (hleading.trans (List.prefix_append _ _)),
    hadmits outcomes outcome (List.prefix_refl _)⟩

theorem Admits.concat (hadmits : Admits allowed outcomes) {outcome : Outcome Request Answer}
    (hallowed : allowed outcomes outcome.request) : Admits allowed (outcomes ++ [outcome]) := by
  intro before other hprefix
  rcases List.prefix_concat_iff.mp hprefix with hsame | hshorter
  · obtain ⟨rfl, hother⟩ := List.append_inj' hsame rfl
    obtain rfl : other = outcome := List.singleton_inj.mp hother
    exact hallowed
  · exact hadmits before other hshorter

theorem Admits.nil : Admits allowed [] :=
  fun _ _ hprefix ↦ absurd (List.prefix_nil.mp hprefix) (by simp)

end Admits

/-- The simulation rule: a run with crashes does what the abstract object may do, when every request
that is answered does, and every request that is cut off leaves what it found or what it was going
to leave. -/
theorem Machine.Endures.durably {machine : Machine Request Thread Shared Event}
    {answer : Thread → Option Answer} {crash : Shared → Shared}
    (serves : State → Request → Answer → State → Prop)
    (allowed : List (Outcome Request Answer) → Request → Prop)
    (represents : List (Outcome Request Answer) → State → Shared → Prop)
    (henv : ∀ event outcomes state shared, represents outcomes state shared →
      represents outcomes state (machine.env event shared))
    (hanswered : ∀ outcomes state shared request thread given later,
      represents outcomes state shared → allowed outcomes request →
      machine.Reaches (machine.start request) shared thread later → answer thread = some given →
      ∃ next, serves state request given next ∧
        represents (outcomes ++ [.answered request given]) next later)
    (hcutOff : ∀ outcomes state shared request thread later,
      represents outcomes state shared → allowed outcomes request →
      machine.Reaches (machine.start request) shared thread later →
      ∃ next, (next = state ∨ ∃ given, serves state request given next) ∧
        represents (outcomes ++ [.cutOff request]) next (crash later))
    {outcomes : List (Outcome Request Answer)} {shared later : Shared} {start : State}
    (hendures : machine.Endures answer crash outcomes shared later)
    (hadmits : Admits allowed outcomes) (hinit : represents [] start shared) :
    ∃ state, Durably serves start outcomes state ∧ represents outcomes state later := by
  induction hendures with
  | nil => exact ⟨start, .nil, hinit⟩
  | env event _ ih =>
    obtain ⟨state, hdurably, hrepresents⟩ := ih hadmits hinit
    exact ⟨state, hdurably, henv event _ _ _ hrepresents⟩
  | answered _ hreaches hgiven ih =>
    obtain ⟨hbefore, hallowed⟩ := hadmits.of_concat
    obtain ⟨state, hdurably, hrepresents⟩ := ih hbefore hinit
    obtain ⟨next, hserves, hnext⟩ :=
      hanswered _ _ _ _ _ _ _ hrepresents hallowed hreaches hgiven
    exact ⟨next, hdurably.answered hserves, hnext⟩
  | cutOff _ hreaches ih =>
    obtain ⟨hbefore, hallowed⟩ := hadmits.of_concat
    obtain ⟨state, hdurably, hrepresents⟩ := ih hbefore hinit
    obtain ⟨next, hserves, hnext⟩ := hcutOff _ _ _ _ _ _ hrepresents hallowed hreaches
    rcases hserves with rfl | ⟨given, hserves⟩
    · exact ⟨next, hdurably.dropped, hnext⟩
    · exact ⟨next, hdurably.kept hserves, hnext⟩

end Interleaving
