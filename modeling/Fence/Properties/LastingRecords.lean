import Fence.Properties.PoolLives
import Fence.Protocol.FinishedSweeps

/-!
# Records through power failures

What was acknowledged survives any number of power failures. A record that its append acknowledged,
and that nobody has abandoned when the power fails, is still there in every later life, whatever
runs there and wherever it is cut off, as long as no trim reaches it: a read returns this record, or
finds the tail below it (`acknowledged_record_survives`). The tail may fall back at a failure, and a
sweep brings it up again: once a recovery has returned or an append was acknowledged in a life,
every read of the records that were there from the first slot on returns them
(`recovered_records_are_read`).
-/

set_option autoImplicit false
set_option relaxedAutoImplicit false

namespace Fence

open ByteMemory Interleaving

variable {g : PoolGeometry} {hasher : Hasher} {past : List Call} {memory later : CachedMemory}

/-! ### Acknowledged records -/

/-- A read of a record that was acknowledged in an earlier life, and was committed when the power
failed, returns it or finds the tail below it. -/
theorem acknowledged_record_survives {schedule last : List (Action Request ℕ)} {entry : Entry}
    {number index : ℕ} {hostId : UInt16} {readIndex : UInt64}
    {outcome : Except FenceError (Option Record)} (hopened : Opened g hasher past memory)
    (hshort : ShortLife g hasher memory schedule)
    (hcovers : SavedTailCovers g (life g hasher memory schedule).shared.media)
    (hacknowledged : .append entry (.returned (.ok number)) ∈
      past ++ (life g hasher memory schedule).threads)
    (hcommitted : (Pool.ofMemory g
      (life g hasher memory schedule).shared.cached).state (number - 1) = stateCommitted)
    (houtlives : Relation.ReflTransGen (Succeeds g hasher (number - 1))
      (life g hasher memory schedule).shared.powerFailure later)
    (hspares : ∀ action ∈ last, SparesSlot (number - 1) action)
    (hlast : ShortLife g hasher later last) (hindex : readIndex.toNat = number)
    (hreturned : (life g hasher later last).threads[index]? =
      some (.read hostId readIndex (.returned outcome))) :
    outcome = .ok (some (entry.record (number - 1))) ∨
      ∃ tail, outcome = .error (.indexOutOfBounds number tail) := by
  have hkeeps := (hopened.keeps_of_acknowledged hshort hcovers hacknowledged
    hcommitted).outlives houtlives
  rcases Nat.eq_zero_or_pos number with hzero | hpos
  · -- no append returns zero, and no read of it finds a record
    obtain ⟨first, lost, gone, hcarried, -⟩ := hkeeps.held
    obtain ⟨middle, rest, point, -, -, houtcome⟩ :=
      @Carried.read_moment g hasher first _ later hcarried [] last hlast index hostId readIndex
        outcome (Nat.zero_le _) hreturned
    rw [Log.read_eq_error (Or.inl (hindex.trans hzero)), hindex] at houtcome
    exact Or.inr ⟨_, houtcome⟩
  · obtain ⟨middle, rest, -, houtcome⟩ := @KeepsRecord.read g hasher later (number - 1) entry hkeeps
      [] last hspares hlast index hostId readIndex outcome (Nat.zero_le _) (by omega) hreturned
    rw [Nat.sub_add_cancel hpos] at houtcome
    split_ifs at houtcome with htail
    · exact Or.inl houtcome
    · exact Or.inr ⟨_, houtcome⟩

/-- A third life: a recovery, with nothing written back but by its own flushes. -/
def recoveryLife : List (Action Request ℕ) := alone (.recover 0) 0 16

/-- What the third life leaves when the power fails. -/
def recoveredPool : CachedMemory :=
  (life twoPool crc32fast oldPool recoveryLife).shared.powerFailure

/-- A last life: a read of the first record. -/
def readingLife : List (Action Request ℕ) := alone (.read 0 1) 0 12

theorem acknowledged_record_survives_twoPool :
    (.ok (some (firstEntry.record 0)) : Except FenceError (Option Record)) =
        .ok (some (firstEntry.record (1 - 1))) ∨
      ∃ tail, (.ok (some (firstEntry.record 0)) : Except FenceError (Option Record)) =
        .error (.indexOutOfBounds 1 tail) :=
  @acknowledged_record_survives twoPool crc32fast [] newPool recoveredPool firstLife readingLife
    firstEntry 1 0 0 1 _ .created (by decide +kernel) (by decide +kernel)
    (List.mem_of_getElem? (by decide +kernel : firstCalls[0]? = _)) (by decide +kernel)
    (.single ⟨recoveryLife, by decide +kernel, by decide +kernel, by decide +kernel, rfl⟩)
    (by decide +kernel) (by decide +kernel) rfl (by decide +kernel)

/-! ### Records that were recovered -/

/-- In every later life without trims, a read that begins when a recovery has returned or an append
was acknowledged returns its record, if its slot and those before it were committed. -/
theorem recovered_records_are_read {before after : List (Action Request ℕ)} {count index : ℕ}
    {call : Call} {hostId : UInt16} {readIndex : UInt64}
    {outcome : Except FenceError (Option Record)} (hopened : Opened g hasher past memory)
    (hcommitted : ∀ slot < count, (Pool.ofMemory g memory.media).state slot = stateCommitted)
    (houtlives : Relation.ReflTransGen (Succeeds g hasher 0) memory later)
    (hspares : ∀ action ∈ before ++ after, SparesSlot 0 action)
    (hshort : ShortLife g hasher later (before ++ after))
    (hmem : call ∈ (life g hasher later before).threads) (hswept : call.HasSwept)
    (hstarted : (life g hasher later before).threads.length ≤ index)
    (hpos : 0 < readIndex.toNat) (hle : readIndex.toNat ≤ count)
    (hreturned : (life g hasher later (before ++ after)).threads[index]? =
      some (.read hostId readIndex (.returned outcome))) :
    outcome = .ok (some ((storedEntry
      ((Pool.ofMemory g memory.media).slot (readIndex.toNat - 1))).record
        (readIndex.toNat - 1))) := by
  have hkeeps : ∀ slot < count, KeepsRecord g hasher slot
      (storedEntry ((Pool.ofMemory g memory.media).slot slot)) later := by
    intro slot hslot
    exact (hopened.keeps (hcommitted slot hslot)).outlives
      (Relation.ReflTransGen.mono (fun _ _ hnext ↦ hnext.mono (Nat.zero_le _)) _ _ houtlives)
  have hcount : count ≤ g.capacity := by
    by_contra hbeyond
    exact Nat.lt_irrefl _
      (Pool.lt_capacity_of_committed (hcommitted g.capacity (Nat.lt_of_not_le hbeyond)))
  obtain ⟨first, lost, gone, hcarried, -⟩ :=
    (hkeeps _ (by omega : readIndex.toNat - 1 < count)).held
  have hsweeping : Sweeping g count (life g hasher later before) := by
    refine hcarried.keeps (Sweeping g count) (fun config action haction hmoment hsweeping ↦
      hsweeping.apply hmoment hcount fun slot ↦
        (hspares action (List.mem_append_left _ haction)).mono (Nat.zero_le _)) ?_ hshort.of_append
    exact
      { lasting := fun slot hslot ↦ (hkeeps slot hslot).lasting
          (fun action haction ↦ by cases haction)
          (@ShortLife.of_append g hasher later [] (before ++ after) hshort)
        reaches := fun call hmem ↦ by cases hmem
        swept := fun call hmem ↦ by cases hmem }
  obtain ⟨middle, rest, rfl, houtcome⟩ := (hkeeps _ (by omega : readIndex.toNat - 1 < count)).read
    (fun action haction ↦ (hspares action haction).mono (Nat.zero_le _)) hshort hstarted
    (by omega) hreturned
  rw [← List.append_assoc] at hshort
  have hrises := (hsweeping.swept call hmem hswept).trans
    (hcarried.tail_le_life hshort.of_append)
  rw [houtcome, if_pos (by omega)]

/-- A first life in which the header is written back before the append moves the tail. -/
def laggingLife : List (Action Request ℕ) :=
  .start (.append firstEntry) :: List.replicate 11 (.step 0) ++ .env 0 :: List.replicate 9 (.step 0)

/-- What is left of it: the record is there, and the tail is below it. -/
def laggingPool : CachedMemory := (life twoPool crc32fast newPool laggingLife).shared.powerFailure

/-- The calls of that life. -/
def laggingCalls : List Call := (life twoPool crc32fast newPool laggingLife).threads

theorem opened_laggingPool : Opened twoPool crc32fast laggingCalls laggingPool :=
  .reopened .created (by decide +kernel : ShortLife twoPool crc32fast newPool laggingLife)
    (by decide +kernel)

theorem recovered_records_are_read_twoPool :
    (.ok (some (firstEntry.record 0)) : Except FenceError (Option Record)) =
      .ok (some ((storedEntry ((Pool.ofMemory twoPool laggingPool.media).slot
        ((1 : UInt64).toNat - 1))).record ((1 : UInt64).toNat - 1))) :=
  @recovered_records_are_read twoPool crc32fast laggingCalls laggingPool laggingPool recoveryLife
    (alone (.read 0 1) 1 12) 1 1 (.recover 0 (.returned ⟨0, 1, 1⟩)) 0 1 _ opened_laggingPool
    (by decide +kernel) .refl (by decide +kernel) (by decide +kernel)
    (List.mem_of_getElem?
      (by decide +kernel : (life twoPool crc32fast laggingPool recoveryLife).threads[0]? = _))
    trivial (by decide +kernel) (by decide) (by decide) (by decide +kernel)

end Fence
