import Fence.Properties.ReserveWrap
import Fence.Protocol.Quiescence

/-!
# Trims and the records behind them

A trim must not keep a later record from being published. It does when it overtakes a sweep: the
sweep of one writer has loaded the tail, another writer moves the tail on, a trim abandons the
slot the first sweep is about to look at, and that sweep takes the abandoned slot for the end of
the log and returns (`not_nothingStranded_of_trim`). In runs without such a step nothing is
stranded (`nothing_stranded`).
-/

set_option autoImplicit false
set_option relaxedAutoImplicit false

namespace Fence

open ByteMemory Interleaving

variable {g : PoolGeometry} {hasher : Hasher}

/-- The committed tail counts the appends that succeeded, and every record above the bounds of
the trims can be read. -/
structure NothingStranded (g : PoolGeometry) (hasher : Hasher) (config : Config Call Memory) :
    Prop where
  tail_eq : (Pool.ofMemory g config.shared).committedTail = (okIndices config.threads).length
  reads : ∀ (entry : Entry) (index : UInt64),
    .append entry (.returned (.ok index.toNat)) ∈ config.threads →
      (∀ upTo result, .trim upTo (.returned (.ok result)) ∈ config.threads →
        upTo.toNat < index.toNat) →
      Reads g hasher config.shared index (entry.record (index.toNat - 1))

/-- Nothing is stranded after a run in which no recovery starts, no sweep starts its scan at a
trimmed slot, and the pending undos stay bounded. -/
theorem nothing_stranded {schedule : List (Action Request Empty)}
    (hkeeps : (runtimeMachine g hasher).Along (KeepsAdvancing g hasher) schedule (freshConfig g))
    (hreturned : AllReturned ((runtimeMachine g hasher).run schedule (freshConfig g)).threads) :
    NothingStranded g hasher ((runtimeMachine g hasher).run schedule (freshConfig g)) := by
  have hadvancing := advancing_of_run hkeeps
  constructor
  · rw [hadvancing.committedTail_eq hreturned.appends,
      (hadvancing.invariant.okIndices_perm hreturned.appends).length_eq, List.length_map,
      List.length_range]
  · intro entry index happended hkept
    exact hadvancing.reads hreturned.appends happended (fun upTo task hmem ↦ hreturned _ hmem) hkept

/-- Two appends, with a trim of the first one between them. -/
theorem nothing_stranded_twoPool :
    NothingStranded twoPool crc32fast ((runtimeMachine twoPool crc32fast).run
      (alone (.append firstEntry) 0 17 ++ alone (.trim 1) 1 4 ++ alone (.append secondEntry) 2 17)
      (freshConfig twoPool)) :=
  nothing_stranded (by decide +kernel) (by decide +kernel)

/-- The first append is about to publish its slot when the second one starts to sweep. The first
one publishes and returns, its slot is trimmed, and the second sweep finds it abandoned. -/
def trimOvertakes : List (Action Request Empty) :=
  alone (.append firstEntry) 0 14 ++ alone (.append secondEntry) 1 12 ++
    List.replicate 3 (.step 0) ++ alone (.trim 1) 2 4 ++ List.replicate 3 (.step 1)

/-- A run of two appends and a trim, all returned, that leaves the second record unpublished. -/
theorem not_nothingStranded_of_trim :
    AllReturned ((runtimeMachine twoPool crc32fast).run trimOvertakes
      (freshConfig twoPool)).threads ∧
    ¬ NothingStranded twoPool crc32fast ((runtimeMachine twoPool crc32fast).run trimOvertakes
      (freshConfig twoPool)) := by
  refine ⟨by decide +kernel, fun hstranded ↦ ?_⟩
  have htail : (Pool.ofMemory twoPool ((runtimeMachine twoPool crc32fast).run trimOvertakes
      (freshConfig twoPool)).shared).committedTail = 1 := by decide +kernel
  have hcount : (okIndices ((runtimeMachine twoPool crc32fast).run trimOvertakes
      (freshConfig twoPool)).threads).length = 2 := by decide +kernel
  have heq := hstranded.tail_eq
  rw [htail, hcount] at heq
  cases heq

end Fence
