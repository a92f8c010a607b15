import Fence.Protocol.Invariant
import Fence.Protocol.Serving

/-!
# A pool used by one call at a time is a log

The runtimes of any hosts share a pool that was just created, and call it one after another. Every
answer they get is that of the abstract log (`answers_iff_log`), whatever the calls are and however
many. `Represents` is the simulation relation.
-/

set_option autoImplicit false
set_option relaxedAutoImplicit false

namespace Fence

open ByteMemory Interleaving

variable {g : PoolGeometry} {hasher : Hasher}

/-- A pool just created holds the empty log. -/
theorem represents_freshMemory (g : PoolGeometry) (hasher : Hasher) :
    Represents g hasher [] (Pool.ofMemory g (freshMemory g)) := by
  rw [ofMemory_freshMemory]
  exact Represents.nil rfl rfl fun slot _ ↦ (by decide : (0 : UInt8) ≠ stateCommitted)

/-- The answers of calls made one after another on a new pool are those of the log. -/
theorem answers_iff_log (g : PoolGeometry) (hasher : Hasher) (requests : List Request)
    (answers : List Answer) :
    (∃ later, (runtimeMachine g hasher).Session Call.answer requests (freshMemory g) answers
        later) ↔
      answers = (serveAll (Log.serve g) requests []).1 :=
  Machine.Session.answers_iff (Log.serve g)
    (fun log memory ↦ Represents g hasher log (Pool.ofMemory g memory))
    (fun _ _ hanswer ↦ Call.step_of_answer hanswer)
    (fun request _ _ hrepresents ↦ by
      obtain ⟨call, later, hends, hanswer, hlater, -⟩ := hrepresents.serve request
      exact ⟨call, later, hends, hanswer, hlater⟩)
    requests (represents_freshMemory g hasher) answers

end Fence
