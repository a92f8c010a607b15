import Fence.Properties.ReadLinearization
import Fence.Protocol.TrimPasses

/-!
# A trim is final

Once a trim has returned, no read that begins later returns an entry below its bound, whatever
appends, trims and recoveries go on. The trim need not have marked the entry itself.
-/

set_option autoImplicit false
set_option relaxedAutoImplicit false

namespace Fence

open ByteMemory Interleaving

variable {g : PoolGeometry} {hasher : Hasher}

/-- A read that begins after a trim has returned finds nothing below the bound of the trim, and is
not told that it is out of bounds. -/
theorem read_none_of_trimmed {first second : List (Action Request Empty)}
    (hbounded : (runtimeMachine g hasher).Along (UndosBounded g hasher) (first ++ second)
      (freshConfig g))
    {trimmer : ℕ} {upTo : UInt64} {result : TrimResult}
    (htrimmed : ((runtimeMachine g hasher).run first (freshConfig g)).threads[trimmer]? =
      some (.trim upTo (.returned (.ok result))))
    {reader : ℕ} {hostId : UInt16} {readIndex : UInt64}
    {outcome : Except FenceError (Option Record)}
    (hreader : ((runtimeMachine g hasher).run first (freshConfig g)).threads.length ≤ reader)
    (hreturned : ((runtimeMachine g hasher).run (first ++ second)
      (freshConfig g)).threads[reader]? = some (.read hostId readIndex (.returned outcome)))
    (hpos : 0 < readIndex.toNat) (hle : readIndex.toNat ≤ upTo.toNat) :
    outcome = .ok none := by
  have hpassed := (passing_of_run (along_append.mp hbounded).1).passed _
    (List.mem_of_getElem? htrimmed)
  obtain ⟨log, hgrows, rfl⟩ := read_decides_after hbounded hreader hreturned
  exact (Log.MarkedTo.grows hpassed hgrows).read hpos hle

/-- An append and its trim. -/
def trimFirst : List (Action Request Empty) :=
  alone (.append firstEntry) 0 16 ++ alone (.trim 1) 1 4

/-- A second append and a recovery, and then a read. -/
def readBehind : List (Action Request Empty) :=
  alone (.append secondEntry) 2 16 ++ alone (.recover 0) 3 20 ++ alone (.read 0 1) 4 12

theorem run_readBehind : ((runtimeMachine twoPool crc32fast).run (trimFirst ++ readBehind)
    (freshConfig twoPool)).threads[4]? = some (.read 0 1 (.returned (.ok none))) := by
  decide +kernel

theorem read_none_of_trimmed_twoPool :
    ∃ outcome, ((runtimeMachine twoPool crc32fast).run (trimFirst ++ readBehind)
        (freshConfig twoPool)).threads[4]? = some (.read 0 1 (.returned outcome)) ∧
      outcome = .ok none :=
  ⟨.ok none, run_readBehind, read_none_of_trimmed
    (by decide +kernel : (runtimeMachine twoPool crc32fast).Along (UndosBounded twoPool crc32fast)
      (trimFirst ++ readBehind) (freshConfig twoPool))
    (by decide +kernel : ((runtimeMachine twoPool crc32fast).run trimFirst
      (freshConfig twoPool)).threads[1]? = some (.trim 1 (.returned (.ok ⟨1⟩))))
    (by decide +kernel : _ ≤ 4) run_readBehind (by decide) (by decide)⟩

end Fence
