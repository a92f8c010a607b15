import Fence.Library.CachedMemory
import Fence.Runtime.Engine

/-!
# The runtime on a cached memory

The same calls on a memory with a volatile cache of cachelines in front of the media. A flush
writes the lines it covers, as `flush_range` of `persistence.rs` does; every other backend call
works on the cache. The environment may write back any line at any moment. Forgetting the media
gives a run of `runtimeMachine` (`cachedMachine_run_cached`). A crash leaves the media, and a pool
is reopened by running `recover` on it.
-/

set_option autoImplicit false
set_option relaxedAutoImplicit false

namespace Fence

open ByteMemory Interleaving

/-! ### Backend calls -/

section Exec

variable {Next : Type}

/-- A backend call performed on a cached memory. -/
def BackendCall.execCached (call : BackendCall Next) (memory : CachedMemory) :
    Next × CachedMemory :=
  match call with
  | .flush offset length next => (next, memory.flush cacheline offset length)
  | call => ((call.exec memory.cached).1, { memory with cached := (call.exec memory.cached).2 })

/-- On the cache, a call does what it does on a plain memory. -/
theorem BackendCall.execCached_eq (call : BackendCall Next) (memory : CachedMemory) :
    (call.execCached memory).1 = (call.exec memory.cached).1 ∧
      (call.execCached memory).2.cached = (call.exec memory.cached).2 := by
  cases call <;> exact ⟨rfl, rfl⟩

/-- Only a flush reaches the media. -/
theorem BackendCall.execCached_media (call : BackendCall Next) (memory : CachedMemory) :
    (call.execCached memory).2.media = memory.media ∨ ∃ offset length next,
      call = .flush offset length next ∧
        (call.execCached memory).2 = memory.flush cacheline offset length := by
  cases call with
  | flush offset length next => exact Or.inr ⟨offset, length, next, rfl, rfl⟩
  | _ => exact Or.inl rfl

end Exec

variable (g : PoolGeometry) (hasher : Hasher)

/-! ### Calls -/

/-- One step of a call on a cached memory. -/
def Call.stepCached (call : Call) (memory : CachedMemory) : Call × CachedMemory :=
  match call.next g hasher with
  | some next => next.execCached memory
  | none => (call, memory)

/-- Any number of calls on one cached memory. The environment writes back lines. -/
def cachedMachine : Machine Request Call CachedMemory ℕ where
  start := Request.call g
  step := Call.stepCached g hasher
  env := fun line memory ↦ memory.writeBack cacheline line

/-- A pool just created on an all-zero file: the header was stored and flushed. -/
def freshCached : Config Call CachedMemory where
  shared := CachedMemory.flush cacheline 0 headerSize ⟨freshMemory g, fun _ ↦ 0⟩
  threads := []

/-- The configuration without its media. -/
abbrev withoutMedia (config : Config Call CachedMemory) : Config Call Memory :=
  config.project CachedMemory.cached

/-! ### The cache behaves like a plain memory -/

section Project

variable {g hasher}

theorem Call.stepCached_eq (call : Call) (memory : CachedMemory) :
    (call.stepCached g hasher memory).1 = (call.step g hasher memory.cached).1 ∧
      (call.stepCached g hasher memory).2.cached = (call.step g hasher memory.cached).2 := by
  unfold Call.stepCached Call.step
  cases call.next g hasher with
  | none => exact ⟨rfl, rfl⟩
  | some next => exact next.execCached_eq memory

theorem runtimeMachine_start_cached :
    (runtimeMachine g hasher).start = (cachedMachine g hasher).start := rfl

theorem runtimeMachine_step_cached (call : Call) (memory : CachedMemory) :
    (runtimeMachine g hasher).step call memory.cached =
      (((cachedMachine g hasher).step call memory).1,
        ((cachedMachine g hasher).step call memory).2.cached) :=
  Prod.ext (call.stepCached_eq memory).1.symm (call.stepCached_eq memory).2.symm

theorem cachedMachine_apply_start (request : Request) (config : Config Call CachedMemory) :
    withoutMedia ((cachedMachine g hasher).apply config (.start request)) =
      (runtimeMachine g hasher).apply (withoutMedia config) (.start request) :=
  apply_start_project runtimeMachine_start_cached request config

theorem cachedMachine_apply_step (index : ℕ) (config : Config Call CachedMemory) :
    withoutMedia ((cachedMachine g hasher).apply config (.step index)) =
      (runtimeMachine g hasher).apply (withoutMedia config) (.step index) :=
  apply_step_project runtimeMachine_step_cached index config

theorem cachedMachine_apply_env (line : ℕ) (config : Config Call CachedMemory) :
    withoutMedia ((cachedMachine g hasher).apply config (.env line)) = withoutMedia config :=
  apply_env_project (fun _ _ ↦ rfl) line config

/-- What the actions on the cache preserve is preserved on a cached memory. -/
theorem cachedMachine_apply_keeps {property : Config Call Memory → Prop}
    {config : Config Call CachedMemory} (hproperty : property (withoutMedia config))
    {action : Action Request ℕ}
    (happly : ∀ erased, action.erase = some erased →
      property ((runtimeMachine g hasher).apply (withoutMedia config) erased)) :
    property (withoutMedia ((cachedMachine g hasher).apply config action)) := by
  cases action with
  | start request =>
    rw [cachedMachine_apply_start]
    exact happly _ rfl
  | step index =>
    rw [cachedMachine_apply_step]
    exact happly _ rfl
  | env line =>
    rw [cachedMachine_apply_env]
    exact hproperty

/-- A run on a cached memory is a run on its cache. -/
theorem cachedMachine_run_cached (schedule : List (Action Request ℕ))
    (config : Config Call CachedMemory) :
    withoutMedia ((cachedMachine g hasher).run schedule config) =
      (runtimeMachine g hasher).run (schedule.filterMap Action.erase) (withoutMedia config) :=
  run_project runtimeMachine_start_cached runtimeMachine_step_cached (fun _ _ ↦ rfl) schedule config

/-- The media after a step of a call, byte by byte. -/
theorem Call.stepCached_media (call : Call) (memory : CachedMemory) (address : ℕ) :
    (call.stepCached g hasher memory).2.media address = memory.media address ∨
      (call.stepCached g hasher memory).2.media address = memory.cached address := by
  unfold Call.stepCached
  cases call.next g hasher with
  | none => exact Or.inl rfl
  | some next =>
    rcases next.execCached_media memory with hsame | ⟨offset, length, rest, -, hflush⟩
    · exact Or.inl (congrFun hsame address)
    · rw [hflush]
      exact memory.flush_media offset length address

/-- Every flush of a call lies behind the header. -/
theorem Call.headerSize_le_of_flush {call : Call} {offset length : ℕ} {rest : Call}
    (hflush : call.next g hasher = some (.flush offset length rest)) : headerSize ≤ offset := by
  match call with
  | .append entry (.running point) =>
    cases point with
    | flushRecord slot => cases hflush; exact g.headerSize_le_recordOffset _
    | flushState slot => cases hflush; exact g.headerSize_le_recordOffset _
    | sweep slot point => cases point <;> cases hflush
    | _ => cases hflush
  | .read hostId index (.running point) => cases point <;> cases hflush
  | .trim upTo (.running point) =>
    cases point with
    | flushAbandoned slot count => cases hflush; exact g.headerSize_le_recordOffset _
    | _ => cases hflush
  | .recover hostId (.running (.recovery point)) =>
    cases point with
    | flushAbandoned scan => cases hflush; exact g.headerSize_le_recordOffset _
    | sweep scan point => cases point <;> cases hflush
    | _ => cases hflush
  | .recover hostId (.running (.countRuns report)) => cases hflush
  | .recover hostId (.running (.countAbandoned report)) => cases hflush

/-- No step of a call brings the header to the media. -/
theorem Call.stepCached_media_header (call : Call) (memory : CachedMemory) {address : ℕ}
    (hheader : address < headerSize) :
    (call.stepCached g hasher memory).2.media address = memory.media address := by
  unfold Call.stepCached
  cases hnext : call.next g hasher with
  | none => rfl
  | some next =>
    rcases next.execCached_media memory with hsame | ⟨offset, length, rest, hcall, hflush⟩
    · exact congrFun hsame address
    · have hoffset := call.headerSize_le_of_flush (hnext.trans (congrArg some hcall))
      simp only [hflush]
      refine CachedMemory.flush_media_before ?_
      unfold headerSize cacheline at *
      omega

/-- An action leaves the header on the media alone, or writes back nothing else. -/
theorem media_apply_cases (config : Config Call CachedMemory) (action : Action Request ℕ) :
    (∀ address < headerSize, ((cachedMachine g hasher).apply config action).shared.media address =
      config.shared.media address) ∨
    (∀ address < headerSize, ((cachedMachine g hasher).apply config action).shared.media address =
      config.shared.cached address) ∧
    ∀ address, headerSize ≤ address →
      ((cachedMachine g hasher).apply config action).shared.media address =
        config.shared.media address := by
  cases action with
  | start request => exact Or.inl fun _ _ ↦ rfl
  | step index =>
    refine Or.inl fun address hheader ↦ ?_
    cases hcall : config.threads[index]? with
    | none => rw [apply_step_of_none _ hcall]
    | some call =>
      rw [apply_step_of_getElem? _ hcall]
      exact call.stepCached_media_header config.shared hheader
  | env line =>
    have hline : ∀ address, address < headerSize ↔ address / cacheline = 0 := by
      intro address
      unfold headerSize cacheline
      omega
    by_cases hzero : line = 0
    · subst hzero
      refine Or.inr ⟨fun address hheader ↦ ?_, fun address hbehind ↦ ?_⟩
      · exact CachedMemory.writeBack_media_of_eq ((hline address).mp hheader)
      · refine CachedMemory.writeBack_media_of_ne fun hsame ↦ ?_
        exact absurd ((hline address).mpr hsame) (Nat.not_lt.mpr hbehind)
    · refine Or.inl fun address hheader ↦ CachedMemory.writeBack_media_of_ne ?_
      rw [(hline address).mp hheader]
      exact Ne.symm hzero

/-- The media of a pool just created is what its cache holds. -/
theorem freshCached_shared : (freshCached g).shared = CachedMemory.clean (freshMemory g) := by
  refine CachedMemory.ext rfl ?_
  funext address
  by_cases hheader : address < headerSize
  · exact CachedMemory.flush_media_inside (Nat.zero_le _) (by omega)
  · have hzero : freshMemory g address = 0 := by
      have hsize : headerSize = 64 := rfl
      simp only [freshMemory, createHeader, storeWord]
      iterate 7 rw [store_apply_outside (by
        simp only [length_leBytes, hdrMagic, hdrCapacity, hdrRecordSize, hdrMaxHosts,
          hdrCommittedTail, hdrReserveTail, hdrEpoch]
        omega)]
    refine Eq.trans ?_ hzero.symm
    refine if_neg fun hcovers ↦ hheader ?_
    have hline := hcovers.2.2
    unfold cacheline headerSize at *
    omega

theorem withoutMedia_freshCached : withoutMedia (freshCached g) = freshConfig g := rfl

end Project

end Fence
