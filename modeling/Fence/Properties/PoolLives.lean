import Fence.Properties.ReserveWrap
import Fence.Protocol.Lives

/-!
# The log through power failures

A pool lives through any number of power failures, and in each life any calls run, whether a
recovery is among them or not. As long as the reserve tail on the media covers, at every failure,
the slots that have reached it, all lives share one log: no index is given out twice, and every
record read in any life is that of the one append of its index, of whatever life
(`one_log_through_lives`). What readers are shown grows in each life, and a failure takes it back to
a part of it that begins at its beginning (`published_log_through_lives`). In every life reads are
atomic on it (`read_linearizes_in_life`).
-/

set_option autoImplicit false
set_option relaxedAutoImplicit false

namespace Fence

open ByteMemory Interleaving

variable {g : PoolGeometry} {hasher : Hasher} {past : List Call} {memory : CachedMemory}
  {schedule : List (Action Request ℕ)}

/-! ### One log -/

/-- The entry of the calls' one log under an index. -/
noncomputable def entryAt (calls : List Call) (index : ℕ) : Option Entry :=
  open Classical in
  if hstored : ∃ entry, Stored calls (index - 1) entry then some hstored.choose else none

/-- A slot that no two calls share shows the entry that is stored there. -/
theorem entryAt_eq {calls : List Call} {slot index : ℕ} {entry : Entry}
    (hexclusive : ∀ index other slot, Holds calls index slot → Holds calls other slot →
      index = other)
    (hindex : index - 1 = slot) (hstored : Stored calls slot entry) :
    entryAt calls index = some entry := by
  subst hindex
  have hexists : ∃ entry, Stored calls (index - 1) entry := ⟨entry, hstored⟩
  rw [entryAt, dif_pos hexists]
  obtain ⟨call, hmem, stage, -, hreservation⟩ := hstored
  obtain ⟨other, hother, later, -, hchosen⟩ := hexists.choose_spec
  obtain ⟨place, hplace⟩ := List.mem_iff_getElem?.mp hmem
  obtain ⟨second, hsecond⟩ := List.mem_iff_getElem?.mp hother
  obtain rfl := hexclusive _ _ _ (holds_of_reservation hplace hreservation)
    (holds_of_reservation hsecond hchosen)
  obtain rfl := Option.some.inj (hplace.symm.trans hsecond)
  rw [hreservation, Option.some.injEq, Reservation.mk.injEq] at hchosen
  rw [hchosen.2.1]

theorem exists_of_entryAt {calls : List Call} {index : ℕ} {entry : Entry}
    (hentry : entryAt calls index = some entry) : Stored calls (index - 1) entry := by
  rw [entryAt] at hentry
  split_ifs at hentry with hstored
  rw [← Option.some.inj hentry]
  exact hstored.choose_spec

/-- Calls agree with a log: an append that returned has its entry under its index, every entry is
that of an append, a read that returned a record returned that of the entry under its index, and
none found a record damaged. -/
structure AgreeWith (log : ℕ → Option Entry) (calls : List Call) : Prop where
  appended : ∀ (entry : Entry) (number : ℕ), .append entry (.returned (.ok number)) ∈ calls →
    log number = some entry
  started : ∀ (number : ℕ) (entry : Entry), log number = some entry →
    ∃ call ∈ calls, call.request = .append entry
  found : ∀ (hostId : UInt16) (index : UInt64) (record : Record),
    .read hostId index (.returned (.ok (some record))) ∈ calls →
      ∃ entry, log index.toNat = some entry ∧ record = entry.record (index.toNat - 1)
  intact : ∀ (hostId : UInt16) (index : UInt64) (made : ℕ),
    .read hostId index (.returned (.error (.checksumMismatch made))) ∉ calls

/-- No two appends of any lives return the same index, and the calls of all lives agree with one
log. -/
theorem one_log_through_lives (hopened : Opened g hasher past memory)
    (hshort : ShortLife g hasher memory schedule) :
    (∀ (index other number : ℕ) (first second : Entry),
      (past ++ (life g hasher memory schedule).threads)[index]? =
        some (.append first (.returned (.ok number))) →
      (past ++ (life g hasher memory schedule).threads)[other]? =
        some (.append second (.returned (.ok number))) → index = other) ∧
      ∃ log, AgreeWith log (past ++ (life g hasher memory schedule).threads) := by
  obtain ⟨first, lost, gone, hcarried, hremembers⟩ := hopened.carried
  have hend := hcarried.lives hshort
  have hlive := hremembers.live hend
  have hexclusive : ∀ index other slot,
      Holds (gone ++ (life g hasher memory schedule).threads) index slot →
      Holds (gone ++ (life g hasher memory schedule).threads) other slot → index = other :=
    fun _ _ _ ↦ hend.exclusive_calls
  refine ⟨?_, entryAt (gone ++ (life g hasher memory schedule).threads), ?_⟩
  · intro index other number left right hleft hright
    obtain ⟨held, _, hheld, -, hslot⟩ :=
      hlive.stored index _ hleft (number - 1) left 13 (by decide) rfl
    obtain ⟨second, _, hsecond, -, hsame⟩ :=
      hlive.stored other _ hright (number - 1) right 13 (by decide) rfl
    exact hexclusive _ _ _ (holds_of_reservation hheld hslot) (holds_of_reservation hsecond hsame)
  · exact
      { appended := by
          intro entry number hmem
          obtain ⟨index, hindex⟩ := List.mem_iff_getElem?.mp hmem
          obtain ⟨held, later, hheld, hlater, hslot⟩ :=
            hlive.stored index _ hindex (number - 1) entry 13 (by decide) rfl
          exact entryAt_eq hexclusive rfl
            ⟨held, List.mem_of_getElem? hheld, later, hlater, hslot⟩
        started := by
          intro number entry hentry
          obtain ⟨held, hmem, stage, -, hreservation⟩ := exists_of_entryAt hentry
          exact hlive.started held hmem _ _ _ hreservation
        found := by
          intro hostId index record hmem
          obtain ⟨slot, hslot, entry, hstored, rfl⟩ := hlive.found hostId index record hmem
          refine ⟨entry, entryAt_eq hexclusive (by omega) hstored, ?_⟩
          rw [← hslot, Nat.add_sub_cancel]
        intact := hlive.intact }

/-- The memory of a pool of two records that was just created. -/
def newPool : CachedMemory := (freshCached twoPool).shared

/-- A first life: an append, after which the line of the header is written back. -/
def firstLife : List (Action Request ℕ) := alone (.append firstEntry) 0 20 ++ [.env 0]

/-- A second life, without a recovery: a second append, and reads of both entries. -/
def secondLife : List (Action Request ℕ) :=
  alone (.append secondEntry) 0 20 ++ alone (.read 0 1) 1 12 ++ alone (.read 0 2) 2 12

/-- What the first life leaves when the power fails. -/
def oldPool : CachedMemory := (life twoPool crc32fast newPool firstLife).shared.powerFailure

/-- The calls of the first life. -/
def firstCalls : List Call := (life twoPool crc32fast newPool firstLife).threads

theorem opened_oldPool : Opened twoPool crc32fast firstCalls oldPool :=
  .reopened .created (by decide +kernel : ShortLife twoPool crc32fast newPool firstLife)
    (by decide +kernel)

theorem one_log_through_lives_twoPool :
    (∀ (index other number : ℕ) (first second : Entry),
      (firstCalls ++ (life twoPool crc32fast oldPool secondLife).threads)[index]? =
        some (.append first (.returned (.ok number))) →
      (firstCalls ++ (life twoPool crc32fast oldPool secondLife).threads)[other]? =
        some (.append second (.returned (.ok number))) → index = other) ∧
      ∃ log, AgreeWith log (firstCalls ++ (life twoPool crc32fast oldPool secondLife).threads) :=
  one_log_through_lives opened_oldPool (by decide +kernel)

/-! ### The published log -/

/-- Every action of a life publishes entries at the end of the published log or marks one, every
entry is that of an append of some life, and the entries that the media shows are the first of
those that the cache shows. -/
theorem published_log_through_lives (hopened : Opened g hasher past memory)
    (hshort : ShortLife g hasher memory schedule) :
    (∀ before action after, schedule = before ++ action :: after →
      (publishedLog g (life g hasher memory before).shared.cached).Change
        (publishedLog g (life g hasher memory (before ++ [action])).shared.cached)) ∧
      (∀ (slot : ℕ) (item : LogEntry),
        (publishedLog g (life g hasher memory schedule).shared.cached)[slot]? = some item →
          ∃ call ∈ past ++ (life g hasher memory schedule).threads,
            call.request = .append item.entry) ∧
      (publishedLog g (life g hasher memory schedule).shared.media).map LogEntry.entry <+:
        (publishedLog g (life g hasher memory schedule).shared.cached).map LogEntry.entry := by
  obtain ⟨first, lost, gone, hcarried, hremembers⟩ := hopened.carried
  have hend := hcarried.lives hshort
  refine ⟨?_, ?_, hend.entries_prefix⟩
  · rintro before action after rfl
    rw [life_append]
    exact (hcarried.lives hshort.of_append).publishedLog_change action
  · intro slot item hitem
    have hstored := hend.inherited.rely.entry_of_published hitem
    rw [List.append_assoc] at hstored
    obtain ⟨held, hmem, stage, -, hreservation⟩ := reached_lostUndo_append.mp hstored
    exact (hremembers.live hend).started held hmem _ _ _ hreservation

theorem published_log_through_lives_twoPool :
    (∀ before action after, secondLife = before ++ action :: after →
      (publishedLog twoPool (life twoPool crc32fast oldPool before).shared.cached).Change
        (publishedLog twoPool
          (life twoPool crc32fast oldPool (before ++ [action])).shared.cached)) ∧
      (∀ (slot : ℕ) (item : LogEntry),
        (publishedLog twoPool
          (life twoPool crc32fast oldPool secondLife).shared.cached)[slot]? = some item →
          ∃ call ∈ firstCalls ++ (life twoPool crc32fast oldPool secondLife).threads,
            call.request = .append item.entry) ∧
      (publishedLog twoPool (life twoPool crc32fast oldPool secondLife).shared.media).map
          LogEntry.entry <+:
        (publishedLog twoPool (life twoPool crc32fast oldPool secondLife).shared.cached).map
          LogEntry.entry :=
  published_log_through_lives opened_oldPool (by decide +kernel)

/-! ### Reads -/

/-- A read of any life that has returned did so with what the published log answered at one of its
steps. -/
theorem read_linearizes_in_life (hopened : Opened g hasher past memory)
    (hshort : ShortLife g hasher memory schedule) {index : ℕ} {hostId : UInt16}
    {readIndex : UInt64} {outcome : Except FenceError (Option Record)}
    (hreturned : (life g hasher memory schedule).threads[index]? =
      some (.read hostId readIndex (.returned outcome))) :
    ∃ before after point, schedule = before ++ .step index :: after ∧
      (life g hasher memory before).threads[index]? =
        some (.read hostId readIndex (.running point)) ∧
      outcome = (publishedLog g (life g hasher memory before).shared.cached).read
        readIndex.toNat := by
  obtain ⟨first, lost, gone, hcarried, -⟩ := hopened.carried
  exact @Carried.read_moment g hasher first _ memory hcarried [] schedule hshort index hostId
    readIndex outcome (Nat.zero_le _) hreturned

/-- The second life reads what the first one appended. -/
theorem read_linearizes_in_life_twoPool :
    ∃ before after point, secondLife = before ++ .step 1 :: after ∧
      (life twoPool crc32fast oldPool before).threads[1]? = some (.read 0 1 (.running point)) ∧
      .ok (some (firstEntry.record 0)) =
        (publishedLog twoPool (life twoPool crc32fast oldPool before).shared.cached).read
          (1 : UInt64).toNat :=
  read_linearizes_in_life opened_oldPool (by decide +kernel) (by decide +kernel)

end Fence
