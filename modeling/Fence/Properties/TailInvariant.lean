import Fence.Properties.ReserveWrap

/-!
# The committed tail

The committed tail stays below the reserve tail and the capacity, everything below it was fully
written and is committed or abandoned, and no step takes it back. This needs the bound on
pending undos: without it the reserve tail wraps to zero behind a committed record
(`not_tailInvariant_of_wrap`).
-/

set_option autoImplicit false
set_option relaxedAutoImplicit false

namespace Fence

open ByteMemory Interleaving

variable {g : PoolGeometry} {hasher : Hasher}

/-- What holds of the committed tail and of the slots below it. -/
structure TailInvariant (g : PoolGeometry) (hasher : Hasher) (config : Config Call Memory) :
    Prop where
  tail_le : (Pool.ofMemory g config.shared).committedTail ≤
    min (Pool.ofMemory g config.shared).reserveTail g.capacity
  states : ∀ slot < (Pool.ofMemory g config.shared).committedTail,
    (Pool.ofMemory g config.shared).state slot = stateCommitted ∨
      (Pool.ofMemory g config.shared).state slot = stateAbandoned
  written : ∀ slot < (Pool.ofMemory g config.shared).committedTail, ∃ entry,
    Stored config.threads slot entry ∧
      Complete hasher entry slot ((Pool.ofMemory g config.shared).slot slot)

theorem Invariant.tailInvariant {config : Config Call Memory}
    (hinvariant : Invariant g hasher config) : TailInvariant g hasher config where
  tail_le := by
    by_contra hgt
    have hcapacity := hinvariant.rely.committedTail_le
    obtain ⟨entry, hstored⟩ := hinvariant.contents.published
      (Pool.ofMemory g config.shared).reserveTail (by omega)
    exact Nat.lt_irrefl _ (hinvariant.reserved.slot_bounds hstored).2
  states := by
    intro slot hslot
    obtain ⟨entry, hstored⟩ := hinvariant.contents.published slot hslot
    exact hinvariant.contents.state_of_stored hstored
  written := by
    intro slot hslot
    obtain ⟨entry, hstored⟩ := hinvariant.contents.published slot hslot
    exact ⟨entry, hstored, (hinvariant.rely.complete_of_stored slot entry hstored).2.2⟩

/-- No action takes the committed tail back. -/
theorem Invariant.committedTail_le_apply {config : Config Call Memory}
    (hinvariant : Invariant g hasher config) (action : Action Request Empty) :
    (Pool.ofMemory g config.shared).committedTail ≤
      (Pool.ofMemory g ((runtimeMachine g hasher).apply config action).shared).committedTail := by
  cases action with
  | start request => exact Nat.le_refl _
  | env event => exact event.elim
  | step index =>
    cases hcall : config.threads[index]? with
    | none => exact Nat.le_of_eq (by rw [apply_step_of_none _ hcall])
    | some call =>
      rw [apply_step_of_getElem? _ hcall]
      exact (hinvariant.stepSpec hcall).1.committedTail_le

/-- The tail invariant holds after every run in which the pending undos stay bounded, and the
next step, whatever it is, leaves the committed tail equal or larger. -/
theorem tail_invariant {schedule : List (Action Request Empty)}
    (hbounded : (runtimeMachine g hasher).Along (UndosBounded g hasher) schedule
      (freshConfig g)) :
    let config := (runtimeMachine g hasher).run schedule (freshConfig g)
    TailInvariant g hasher config ∧ ∀ action, (Pool.ofMemory g config.shared).committedTail ≤
      (Pool.ofMemory g ((runtimeMachine g hasher).apply config action).shared).committedTail :=
  have hinvariant := invariant_of_run hbounded
  ⟨hinvariant.tailInvariant, hinvariant.committedTail_le_apply⟩

/-- One append on a pool of two slots, with another one halfway. -/
theorem tail_invariant_twoPool :
    TailInvariant twoPool crc32fast ((runtimeMachine twoPool crc32fast).run
      (alone (.append firstEntry) 0 16 ++ alone (.append secondEntry) 1 5)
      (freshConfig twoPool)) :=
  (tail_invariant (by decide +kernel)).1

/-- After one append on a pool of one slot, `2 ^ 64 - 1` stalled appends leave the reserve tail
at zero, below the committed tail. -/
theorem not_tailInvariant_of_wrap :
    ¬ TailInvariant onePool crc32fast ((runtimeMachine onePool crc32fast).run
      (fillPool ++ flood (.append secondEntry) 1 (2 ^ 64 - 1)) (freshConfig onePool)) := by
  have hcommitted : (Pool.ofMemory onePool singleRecord).committedTail = 1 := by decide +kernel
  have hrun : (runtimeMachine onePool crc32fast).run (flood (.append secondEntry) 1 _)
      ⟨singleRecord, [.append firstEntry (.returned (.ok 1))]⟩ = _ :=
    run_stalled_onePool reserveTail_singleRecord
      (Nat.sub_add_cancel (by decide : 1 ≤ 2 ^ 64))
  intro hinvariant
  have hle := hinvariant.tail_le
  rw [run_append, run_fillPool, hrun, Pool.ofMemory_storeWord_reserveTail, hcommitted] at hle
  exact absurd hle (by decide)

end Fence
