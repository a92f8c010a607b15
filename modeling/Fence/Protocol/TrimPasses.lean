import Fence.Protocol.Published

/-!
# What a trim leaves behind

A trim walks over the slots below its bound and leaves every one of them marked: those it found
committed it marks itself, and those it found in another state are marked already, since they lie
below the tail. `Call.Passed` is what a trim has done so far. Nothing ever commits a slot below the
tail again, so what a trim has passed stays marked while others run (`Passing.apply`).
-/

set_option autoImplicit false
set_option relaxedAutoImplicit false

namespace Fence

open ByteMemory Interleaving

variable {g : PoolGeometry} {hasher : Hasher}

/-- The entries a trim has passed are marked. -/
def Call.Passed (log : Log) : Call → Prop
  | .trim _ (.running (.loadState slot _)) => log.MarkedTo slot
  | .trim _ (.running (.storeAbandoned slot _)) => log.MarkedTo slot
  | .trim _ (.running (.flushAbandoned slot _)) => log.MarkedTo (slot + 1)
  | .trim upTo (.returned (.ok _)) => log.MarkedTo upTo.toNat
  | _ => True

theorem Call.Passed.grows {log later : Log} {call : Call} (hpassed : call.Passed log)
    (hgrows : log.Grows later) : call.Passed later := by
  match call with
  | .trim _ (.running .loadTail) => trivial
  | .trim _ (.running (.loadState _ _)) => exact Log.MarkedTo.grows hpassed hgrows
  | .trim _ (.running (.storeAbandoned _ _)) => exact Log.MarkedTo.grows hpassed hgrows
  | .trim _ (.running (.flushAbandoned _ _)) => exact Log.MarkedTo.grows hpassed hgrows
  | .trim _ (.returned (.ok _)) => exact Log.MarkedTo.grows hpassed hgrows
  | .trim _ (.returned (.error _)) => trivial
  | .append _ _ => trivial
  | .read _ _ _ => trivial
  | .recover _ _ => trivial

/-- A call that was just started has passed nothing. -/
theorem Request.call_passed (request : Request) (log : Log) : (request.call g).Passed log := by
  cases request <;> trivial

/-- At the head of its loop a trim has passed the slots before. -/
theorem TrimPoint.head_passed {log : Log} {upTo : UInt64} {slot trimmedCount : ℕ}
    (hupTo : asU32 upTo.toNat = upTo.toNat) (hmarked : log.MarkedTo slot) :
    (Call.trim upTo (TrimPoint.head upTo.toNat slot trimmedCount)).Passed log := by
  rw [TrimPoint.head, hupTo]
  split_ifs with hslot
  · exact hmarked
  · exact hmarked.mono (Nat.le_of_not_lt hslot)

/-- A published slot whose state is not committed is marked. -/
theorem Pool.markedTo_succ {pool : Pool} {slot : ℕ} (hslot : slot < pool.committedTail)
    (hstate : pool.state slot ≠ stateCommitted) (hmarked : pool.publishedLog.MarkedTo slot) :
    pool.publishedLog.MarkedTo (slot + 1) :=
  hmarked.succ (pool.getElem?_publishedLog hslot) (decide_eq_true hstate)

section Step

variable {config : Config Call Memory} (hinvariant : Invariant g hasher config)

include hinvariant

/-- A trim within the tail has a bound that fits a `u32`. -/
theorem Invariant.asU32_of_le_tail {upTo : ℕ}
    (hupTo : upTo ≤ (Pool.ofMemory g config.shared).committedTail) : asU32 upTo = upTo := by
  have hcapacity := hinvariant.rely.committedTail_le
  have hlt := g.capacity_lt
  exact asU32_of_lt (by omega) (Nat.le_refl _)

/-- A step of a trim keeps what it has passed marked, the slot it stands at included. -/
theorem Invariant.passed_step {index : ℕ} {call : Call}
    (hcall : config.threads[index]? = some call)
    (hpassed : call.Passed (publishedLog g config.shared)) :
    (call.step g hasher config.shared).1.Passed
      (publishedLog g (call.step g hasher config.shared).2) := by
  have hsound := hinvariant.contents.sound call (List.mem_of_getElem? hcall)
  match call with
  | .trim upTo (.running .loadTail) =>
    rw [Call.step_trim]
    simp only [Compaction.trim, BackendCall.exec]
    split_ifs with hbeyond
    · trivial
    · exact TrimPoint.head_passed (hinvariant.asU32_of_le_tail (Nat.le_of_not_lt hbeyond))
        fun slot hslot ↦ absurd hslot (Nat.not_lt_zero _)
  | .trim upTo (.running (.loadState slot trimmedCount)) =>
    obtain ⟨hbound, htail⟩ := hsound
    have hcapacity := hinvariant.rely.committedTail_le
    have hslot : slot < g.capacity := by omega
    rw [Call.step_trim]
    simp only [Compaction.trim, BackendCall.exec, load_state hslot]
    split_ifs with hstate
    · exact hpassed
    · exact TrimPoint.head_passed (hinvariant.asU32_of_le_tail htail)
        (Pool.markedTo_succ (by omega) hstate hpassed)
  | .trim upTo (.running (.storeAbandoned slot trimmedCount)) =>
    obtain ⟨hbound, htail, -⟩ := hsound
    have hcapacity := hinvariant.rely.committedTail_le
    have hslot : slot < g.capacity := by omega
    have hchange : (publishedLog g config.shared).Grows _ := Log.Change.grows (.mark slot)
    rw [Call.step_trim]
    simp only [Compaction.trim, BackendCall.exec]
    have hpool : Pool.ofMemory g (store config.shared (g.recordOffset slot + recState)
        [stateAbandoned]) = _ := ofMemory_store_state hslot stateAbandoned
    rw [publishedLog, hpool]
    rw [publishedLog, ← Pool.publishedLog_abandon] at hchange
    have hpast : slot < ((Pool.ofMemory g config.shared).storeSlot slot recState
        [stateAbandoned]).committedTail := Nat.lt_of_lt_of_le hbound htail
    refine Pool.markedTo_succ hpast ?_ (Log.MarkedTo.grows hpassed hchange)
    rw [Pool.state_storeSlot_self]
    decide
  | .trim upTo (.running (.flushAbandoned slot trimmedCount)) =>
    obtain ⟨hbound, htail⟩ := hsound
    rw [Call.step_trim]
    exact TrimPoint.head_passed (hinvariant.asU32_of_le_tail htail) hpassed
  | .trim upTo (.returned _) => exact hpassed
  | .append entry (.running point) => rw [Call.step_append]; trivial
  | .append _ (.returned _) => trivial
  | .read hostId index (.running point) => rw [Call.step_read]; trivial
  | .read _ _ (.returned _) => trivial
  | .recover hostId (.running point) => rw [Call.step_recover]; trivial
  | .recover _ (.returned _) => trivial

end Step

/-! ### Runs -/

variable (g hasher) in
/-- Every trim has left what it passed marked. -/
structure Passing (config : Config Call Memory) : Prop where
  invariant : Invariant g hasher config
  passed : ∀ call ∈ config.threads, call.Passed (publishedLog g config.shared)

/-- Every action keeps what trims have passed marked. -/
theorem Passing.apply {config : Config Call Memory} {action : Action Request Empty}
    (hpassing : Passing g hasher config) (hbounded : UndosBounded g hasher config action) :
    Passing g hasher ((runtimeMachine g hasher).apply config action) where
  invariant := hpassing.invariant.apply hbounded
  passed := by
    have hgrows := (hpassing.invariant.publishedLog_change action).grows
    cases action with
    | start request =>
      intro call hmem
      rcases List.mem_append.mp hmem with hold | hnew
      · exact hpassing.passed call hold
      · rw [List.mem_singleton.mp hnew]
        exact request.call_passed _
    | env event => exact event.elim
    | step index =>
      cases hcall : config.threads[index]? with
      | none =>
        rw [apply_step_of_none _ hcall]
        exact hpassing.passed
      | some call =>
        rw [apply_step_of_getElem? _ hcall] at hgrows ⊢
        exact forall_mem_set _ hcall
          (hpassing.invariant.passed_step hcall (hpassing.passed call (List.mem_of_getElem? hcall)))
          fun _ other _ hother ↦ (hpassing.passed other (List.mem_of_getElem? hother)).grows hgrows

/-- In a run from a pool just created every trim has left what it passed marked. -/
theorem passing_of_run {schedule : List (Action Request Empty)}
    (hbounded : (runtimeMachine g hasher).Along (UndosBounded g hasher) schedule
      (freshConfig g)) :
    Passing g hasher ((runtimeMachine g hasher).run schedule (freshConfig g)) :=
  invariant_run (Passing g hasher) (fun _ _ hpassing hcondition ↦ hpassing.apply hcondition)
    hbounded ⟨Invariant.fresh, fun call hmem ↦ by cases hmem⟩

end Fence
