import Fence.Alloc.Updates
import Fence.Library.Crash
import Fence.Runtime.CachedEngine

/-!
# The allocator on a cached memory

The same calls on a memory with a volatile cache of cachelines in front of the media. Forgetting the
media gives the calls on a plain memory (`AllocCall.stepCached_eq`), so a call that is interrupted
by write-backs returns what it returns alone (`AllocCall.ends_of_reaches`).
-/

set_option autoImplicit false
set_option relaxedAutoImplicit false

namespace Fence

open ByteMemory Interleaving

variable (base poolSize : ℕ)

/-- One step of a call on a cached memory. -/
def AllocCall.stepCached (call : AllocCall) (memory : CachedMemory) : AllocCall × CachedMemory :=
  match call.next base poolSize with
  | some next => next.execCached memory
  | none => (call, memory)

/-- Any number of calls on one cached memory. The environment writes back lines. -/
def cachedAllocator : Machine AllocRequest AllocCall CachedMemory ℕ where
  start := AllocRequest.call poolSize
  step := AllocCall.stepCached base poolSize
  env := fun line memory ↦ memory.writeBack cacheline line

variable {base poolSize}

theorem AllocCall.stepCached_eq (call : AllocCall) (memory : CachedMemory) :
    (allocatorMachine base poolSize).step call memory.cached =
      (((cachedAllocator base poolSize).step call memory).1,
        ((cachedAllocator base poolSize).step call memory).2.cached) := by
  show call.step base poolSize memory.cached =
    ((call.stepCached base poolSize memory).1, (call.stepCached base poolSize memory).2.cached)
  unfold AllocCall.step AllocCall.stepCached
  cases call.next base poolSize with
  | none => rfl
  | some next =>
    obtain ⟨hnext, hcached⟩ := next.execCached_eq memory
    exact Prod.ext hnext.symm hcached.symm

/-- A call that is interrupted by write-backs ends up as it does alone. -/
theorem AllocCall.ends_of_reaches {call between result : AllocCall} {given : AllocAnswer}
    {memory middle : CachedMemory} {later : Memory}
    (hreaches : (cachedAllocator base poolSize).Reaches call memory between middle)
    (hgiven : result.answer = some given)
    (hends : (allocatorMachine base poolSize).Ends call memory.cached result later) :
    (allocatorMachine base poolSize).Ends between middle.cached result later :=
  hreaches.ends_project AllocCall.stepCached_eq (fun _ _ ↦ rfl) (AllocCall.step_of_answer hgiven)
    hends

/-! ### Steps -/

section Exec

variable {Next Other : Type}

/-- A caller that continues inside another routine leaves the same cached memory. -/
theorem BackendCall.execCached_map (f : Next → Other) (call : BackendCall Next)
    (memory : CachedMemory) :
    (call.map f).execCached memory =
    (f (call.execCached memory).1, (call.execCached memory).2) := by
  cases call with
  | compareExchangeU64 offset expected desired next =>
    simp only [BackendCall.map, BackendCall.execCached, BackendCall.exec]
    split_ifs <;> rfl
  | _ => rfl

/-- A call that only loads leaves the memory. -/
theorem BackendCall.execCached_of_isLoad {call : BackendCall Next} (hload : call.isLoad = true)
    (memory : CachedMemory) : (call.execCached memory).2 = memory := by
  cases call <;> first | rfl | cases hload

end Exec

theorem EntryVisitor.execCached_next_map {Gathered Result Next : Type}
    (visitor : EntryVisitor Gathered Result) (base : ℕ) (loop : EntryLoop Gathered)
    (next : Task (EntryLoop Gathered) Result → Next) (memory : CachedMemory) :
    ((visitor.next base loop).map next).execCached memory =
      (next ((visitor.next base loop).execCached memory).1, memory) := by
  rw [BackendCall.execCached_map, BackendCall.execCached_of_isLoad (visitor.isLoad_next base loop)]

/-! ### Calls that are interrupted -/

/-- What every step and every write-back preserves holds wherever a call gets to. The steps may use
what the call will return. -/
theorem AllocCall.Runs.reaches_cached {Point Result : Type} {inside : Task Point Result → AllocCall}
    {routine : Point → BackendCall (Task Point Result)}
    (hruns : AllocCall.Runs base poolSize inside routine) {task : Task Point Result}
    {call result : AllocCall} {given : AllocAnswer} {before shared : CachedMemory} {later : Memory}
    (hreaches : (cachedAllocator base poolSize).Reaches (inside task) before call shared)
    (hends : (allocatorMachine base poolSize).Ends (inside task) before.cached result later)
    (hgiven : result.answer = some given)
    (safe : Task Point Result → CachedMemory → Prop) (hinit : safe task before)
    (hstep : ∀ point shared, safe (.running point) shared →
      (allocatorMachine base poolSize).Ends (inside ((routine point).execCached shared).1)
        ((routine point).execCached shared).2.cached result later →
      safe ((routine point).execCached shared).1 ((routine point).execCached shared).2)
    (hsettles : ∀ task line shared, safe task shared →
      safe task (shared.writeBack cacheline line)) :
    (∃ task, call = inside task ∧ safe task shared) ∧
      (allocatorMachine base poolSize).Ends call shared.cached result later := by
  refine hreaches.invariant (fun call shared ↦ (∃ task, call = inside task ∧ safe task shared) ∧
    (allocatorMachine base poolSize).Ends call shared.cached result later) ?_ ?_
    ⟨⟨task, rfl, hinit⟩, hends⟩
  · rintro call shared ⟨⟨task, rfl, hsafe⟩, hends⟩
    have hnext := hends.next (AllocCall.step_of_answer hgiven)
    rw [AllocCall.stepCached_eq] at hnext
    refine ⟨?_, hnext⟩
    cases task with
    | returned done =>
      have hhalted : (cachedAllocator base poolSize).step (inside (.returned done)) shared =
          (inside (.returned done), shared) := by
        show AllocCall.stepCached base poolSize _ shared = _
        rw [AllocCall.stepCached, hruns.returned]
      rw [hhalted]
      exact ⟨.returned done, rfl, hsafe⟩
    | running point =>
      have hone : (cachedAllocator base poolSize).step (inside (.running point)) shared =
          (inside ((routine point).execCached shared).1,
            ((routine point).execCached shared).2) := by
        show AllocCall.stepCached base poolSize _ shared = _
        rw [AllocCall.stepCached, hruns.running]
        exact BackendCall.execCached_map inside (routine point) shared
      rw [hone] at hnext ⊢
      exact ⟨_, rfl, hstep point shared hsafe hnext⟩
  · rintro line call shared ⟨⟨task, rfl, hsafe⟩, hends⟩
    exact ⟨⟨task, rfl, hsettles task line shared hsafe⟩, hends⟩

end Fence
