import Fence.Protocol.Invariant

/-!
# Abandoned slots were trimmed

Without recoveries only trims mark slots abandoned. `Trimming` is the invariant of such runs: a
slot whose state is abandoned lies below the committed tail, and some trim in flight or returned
has a bound above it.
-/

set_option autoImplicit false
set_option relaxedAutoImplicit false

namespace Fence

open ByteMemory Interleaving

variable {g : PoolGeometry} {hasher : Hasher}

/-- A trim that passed its check has a bound above the slot. -/
def Call.Trims (slot : ℕ) : Call → Prop
  | .trim _ (.running .loadTail) => False
  | .trim upTo (.running _) => slot < upTo.toNat
  | .trim upTo (.returned (.ok _)) => slot < upTo.toNat
  | _ => False

/-- The action starts a recovery. -/
def startsRecover {Event : Type} : Action Request Event → Bool
  | .start (.recover _) => true
  | _ => false

/-- The action starts a trim. -/
def startsTrim {Event : Type} : Action Request Event → Bool
  | .start (.trim _) => true
  | _ => false

/-- Only a trim trims. -/
theorem Call.Trims.request {call : Call} {slot : ℕ} (htrims : call.Trims slot) :
    ∃ upTo, call.request = .trim upTo ∧ slot < upTo.toNat := by
  match call with
  | .trim upTo (.running (.loadState _ _)) => exact ⟨upTo, rfl, htrims⟩
  | .trim upTo (.running (.storeAbandoned _ _)) => exact ⟨upTo, rfl, htrims⟩
  | .trim upTo (.running (.flushAbandoned _ _)) => exact ⟨upTo, rfl, htrims⟩
  | .trim upTo (.returned (.ok _)) => exact ⟨upTo, rfl, htrims⟩

variable (g hasher) in
/-- The invariant of runs without recoveries. -/
structure Trimming (config : Config Call Memory) : Prop where
  invariant : Invariant g hasher config
  no_recover : ∀ call ∈ config.threads, ∀ hostId, call.request ≠ .recover hostId
  trimmed : ∀ slot < g.capacity, (Pool.ofMemory g config.shared).state slot = stateAbandoned →
    slot < (Pool.ofMemory g config.shared).committedTail ∧
      ∃ call ∈ config.threads, call.Trims slot

/-! ### Steps -/

/-- A trim with a bound above a slot keeps it. -/
theorem Call.Trims.step {call : Call} {slot : ℕ} (htrims : call.Trims slot) (memory : Memory) :
    (call.step g hasher memory).1.Trims slot := by
  have hhead : ∀ {upTo : UInt64} {next count : ℕ}, slot < upTo.toNat →
      (Call.trim upTo (TrimPoint.head upTo.toNat next count)).Trims slot := by
    intro upTo next count hslot
    unfold TrimPoint.head
    split_ifs <;> exact hslot
  match call with
  | .trim upTo (.running (.loadState held count)) =>
    rw [Call.step_trim]
    simp only [Compaction.trim, BackendCall.exec]
    split_ifs
    · exact htrims
    · exact hhead htrims
  | .trim upTo (.running (.storeAbandoned held count)) =>
    rw [Call.step_trim]
    exact htrims
  | .trim upTo (.running (.flushAbandoned held count)) =>
    rw [Call.step_trim]
    exact hhead htrims
  | .trim upTo (.returned _) => exact htrims

section Step

variable {config : Config Call Memory} {action : Action Request Empty} {index : ℕ} {call : Call}

/-- A start adds a call that has trimmed nothing. -/
theorem Trimming.start (htrimming : Trimming g hasher config) {request : Request}
    (hrecover : ∀ hostId, request ≠ .recover hostId) :
    Trimming g hasher { config with threads := config.threads ++ [request.call g] } where
  invariant := htrimming.invariant.start request
  no_recover := by
    intro call hmem
    rcases List.mem_append.mp hmem with hold | hnew
    · exact htrimming.no_recover call hold
    · rwa [List.mem_singleton.mp hnew, request.request_call]
  trimmed := by
    intro slot hslot hstate
    obtain ⟨hbelow, call, hmem, htrims⟩ := htrimming.trimmed slot hslot hstate
    exact ⟨hbelow, call, List.mem_append_left _ hmem, htrims⟩

/-- A slot that is abandoned after a step was trimmed, and lies below the tail. -/
theorem Trimming.trimmed_step (htrimming : Trimming g hasher config)
    (hcall : config.threads[index]? = some call) {slot : ℕ} (hslot : slot < g.capacity)
    (hstate : (Pool.ofMemory g (call.step g hasher config.shared).2).state slot =
      stateAbandoned) :
    slot < (Pool.ofMemory g (call.step g hasher config.shared).2).committedTail ∧
      ∃ held ∈ config.threads.set index (call.step g hasher config.shared).1,
        held.Trims slot := by
  obtain ⟨heffect, -⟩ := htrimming.invariant.stepSpec hcall
  have hmem := List.mem_of_getElem? hcall
  have htail := heffect.committedTail_le
  have htrims : slot < (Pool.ofMemory g config.shared).committedTail ∧
      ∃ held ∈ config.threads, held.Trims slot := by
    rcases heffect.state_cases slot with hsame | ⟨hwriting, -⟩ | ⟨hcommitted, -⟩ |
      ⟨-, habandoning, -⟩
    · exact htrimming.trimmed slot hslot (hsame.symm.trans hstate)
    · rw [hwriting] at hstate
      exact absurd hstate (by decide)
    · rw [hcommitted] at hstate
      exact absurd hstate (by decide)
    · have hsound := htrimming.invariant.contents.sound call hmem
      have hrecover := htrimming.no_recover call hmem
      match call, habandoning with
      | .trim upTo (.running (.storeAbandoned held count)), habandoning =>
        obtain rfl : held = slot := Option.some.inj habandoning
        obtain ⟨hbound, hreached, -⟩ := hsound
        exact ⟨Nat.lt_of_lt_of_le hbound hreached, _, hmem, hbound⟩
      | .recover hostId (.running (.recovery (.storeAbandoned scan))), habandoning =>
        exact (hrecover hostId rfl).elim
  exact ⟨Nat.lt_of_lt_of_le htrims.1 htail, exists_mem_set hcall
    (fun hheld ↦ hheld.step config.shared) (fun _ _ hheld ↦ hheld) htrims.2⟩

/-- Every action that starts no recovery keeps the invariant. -/
theorem Trimming.apply (htrimming : Trimming g hasher config)
    (hbounded : UndosBounded g hasher config action) (hrecover : startsRecover action = false) :
    Trimming g hasher ((runtimeMachine g hasher).apply config action) := by
  cases action with
  | start request =>
    refine htrimming.start ?_
    rintro hostId rfl
    cases hrecover
  | env event => exact event.elim
  | step index =>
    have hinvariant := htrimming.invariant.apply hbounded
    cases hcall : config.threads[index]? with
    | none => rwa [apply_step_of_none _ hcall]
    | some call =>
      rw [apply_step_of_getElem? _ hcall] at hinvariant ⊢
      exact
        { invariant := hinvariant
          no_recover := by
            refine forall_mem_set (fun held ↦ ∀ hostId, held.request ≠ .recover hostId) hcall ?_
              fun _ held _ hheld ↦ htrimming.no_recover held (List.mem_of_getElem? hheld)
            show ∀ hostId, (call.step g hasher config.shared).1.request ≠ .recover hostId
            rw [call.request_step]
            exact htrimming.no_recover call (List.mem_of_getElem? hcall)
          trimmed := fun slot ↦ htrimming.trimmed_step hcall }

/-- A pool just created has no abandoned slot. -/
theorem Trimming.fresh : Trimming g hasher (freshConfig g) where
  invariant := Invariant.fresh
  no_recover := by intro call hmem; cases hmem
  trimmed := by
    intro slot hslot hstate
    rw [freshConfig, ofMemory_freshMemory] at hstate
    exact absurd hstate (by decide : (0 : UInt8) ≠ stateAbandoned)

end Step

end Fence
