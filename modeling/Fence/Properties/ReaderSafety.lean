import Fence.Properties.ReserveWrap

/-!
# Reader safety

A read that returns a record returns the record of the one append that holds its slot, and no
read returns a checksum mismatch, whatever appends, trims and recoveries run at the same time.
This needs the bound on pending undos: without it a slot is handed out a second time while a
reader is inside it, and the reader sees half of each record (`not_readerSafe_of_wrap`).
-/

set_option autoImplicit false
set_option relaxedAutoImplicit false

namespace Fence

open ByteMemory Interleaving

variable {g : PoolGeometry} {hasher : Hasher}

/-- What the reads that have returned got. -/
structure ReaderSafe (config : Config Call Memory) : Prop where
  record_of_read : ∀ (call : ℕ) (hostId : UInt16) (index : UInt64) (record : Record),
    config.threads[call]? = some (.read hostId index (.returned (.ok (some record)))) →
      record.index = index.toNat ∧ ∃ writer entry,
        Writes config.threads writer (index.toNat - 1) entry ∧
        (∀ other, Holds config.threads other (index.toNat - 1) → other = writer) ∧
        record.term = entry.term.toNat ∧ record.writerId = entry.hostId.toNat ∧
        record.data = entry.data
  no_mismatch : ∀ (call : ℕ) (hostId : UInt16) (index : UInt64) (reported : ℕ),
    config.threads[call]? ≠
      some (.read hostId index (.returned (.error (.checksumMismatch reported))))

theorem Invariant.readerSafe {config : Config Call Memory}
    (hinvariant : Invariant g hasher config) : ReaderSafe config where
  record_of_read := by
    intro call hostId index record hcall
    have hsound := hinvariant.contents.sound _ (List.mem_of_getElem? hcall)
    obtain ⟨slot, hindex, entry, ⟨held, hmem, stage, -, hreservation⟩, rfl⟩ := hsound
    obtain ⟨writer, hwriter⟩ := List.mem_iff_getElem?.mp hmem
    have hslot : index.toNat - 1 = slot := by omega
    rw [hslot]
    refine ⟨hindex, writer, entry, ⟨held, stage, hwriter, hreservation⟩, ?_, rfl, rfl, rfl⟩
    intro other hother
    exact hinvariant.reserved.exclusive _ _ _ hother (holds_of_reservation hwriter hreservation)
  no_mismatch := by
    intro call hostId index reported hcall
    exact (hinvariant.contents.sound _ (List.mem_of_getElem? hcall) : False)

/-- Reads are safe after every run in which the pending undos stay bounded. -/
theorem reader_safety {schedule : List (Action Request Empty)}
    (hbounded : (runtimeMachine g hasher).Along (UndosBounded g hasher) schedule
      (freshConfig g)) :
    ReaderSafe ((runtimeMachine g hasher).run schedule (freshConfig g)) :=
  (invariant_of_run hbounded).readerSafe

/-- A read after an append, with a trim and a recovery behind it. -/
theorem reader_safety_twoPool :
    ReaderSafe ((runtimeMachine twoPool crc32fast).run
      (alone (.append firstEntry) 0 16 ++ alone (.read 0 1) 1 12 ++ alone (.trim 1) 2 4 ++
        alone (.recover 0) 3 20) (freshConfig twoPool)) :=
  reader_safety (by decide +kernel)

/-! ### A reader behind the wrap -/

/-- One append fills the pool of one slot, and a reader has found its state committed. -/
def readInside : List (Action Request Empty) := fillPool ++ alone (.read 0 1) 1 2

/-- After `2 ^ 64 - 1` stalled appends the slot is handed out again. The new append has stored its
term when the reader goes on. -/
def readAcrossWrap (count : ℕ) : List (Action Request Empty) :=
  readInside ++ flood (.append secondEntry) 2 count ++ alone (.append secondEntry) (2 + count) 3 ++
    List.replicate 8 (.step 1)

theorem run_readAcrossWrap {count : ℕ} (hcount : count + 1 = 2 ^ 64) :
    ((runtimeMachine onePool crc32fast).run (readAcrossWrap count)
      (freshConfig onePool)).threads[1]? =
        some (.read 0 1 (.returned (.error (.checksumMismatch 1)))) := by
  have hlength : ((runtimeMachine onePool crc32fast).run readInside
      (freshConfig onePool)).threads.length = 2 := by decide +kernel
  have htail : loadWord ((runtimeMachine onePool crc32fast).run readInside
      (freshConfig onePool)).shared hdrReserveTail 8 = 1 := by decide +kernel
  have hreader : ((runtimeMachine onePool crc32fast).run readInside
      (freshConfig onePool)).threads[1]? = some (.read 0 1 (.running (.loadTerm 0))) := by
    decide +kernel
  have hresume : ((runtimeMachine onePool crc32fast).solo 8
      (.read 0 1 (.running (.loadTerm 0)))
      ((runtimeMachine onePool crc32fast).solo 3
        ((runtimeMachine onePool crc32fast).start (.append secondEntry))
        (storeWord ((runtimeMachine onePool crc32fast).run readInside
          (freshConfig onePool)).shared hdrReserveTail 8 0)).2).1 =
      .read 0 1 (.returned (.error (.checksumMismatch 1))) := by
    decide +kernel
  have hwrapped := run_wrapped 3 htail hcount
  rw [hlength] at hwrapped
  rw [readAcrossWrap, run_append, run_append, run_append, hwrapped]
  -- from here on the run is that of three threads, however many others stand between them
  generalize (List.range count).map (fun i ↦
    Call.append secondEntry (.running (.undo (1 + i)))) = stalled
  have hin : 1 < ((runtimeMachine onePool crc32fast).run readInside
      (freshConfig onePool)).threads.length := by rw [hlength]; decide
  have hthread : ∀ last, ((((runtimeMachine onePool crc32fast).run readInside
      (freshConfig onePool)).threads ++ stalled) ++ [last])[1]? =
        some (.read 0 1 (.running (.loadTerm 0))) := by
    intro last
    rw [List.append_assoc, List.getElem?_append_left hin]
    exact hreader
  rw [run_replicate_step 8 (hthread _), List.getElem?_set_self (by
    simp only [List.length_append, hlength]
    omega), hresume]

/-- The read that is caught across the wrap reports a checksum mismatch. -/
theorem not_readerSafe_of_wrap :
    ¬ ReaderSafe ((runtimeMachine onePool crc32fast).run (readAcrossWrap (2 ^ 64 - 1))
      (freshConfig onePool)) := fun hsafe ↦
  hsafe.no_mismatch 1 0 1 1 (run_readAcrossWrap (Nat.sub_add_cancel (by decide : 1 ≤ 2 ^ 64)))

end Fence
