import Fence.Properties.LostAdvance
import Fence.Protocol.Reopen

/-!
# Acknowledged records behind a gap

Writers that stop leave their slots free or half written, anywhere among finished records. The
tail sweep of a recovery stops at the first of them, so the committed tail ends up at the first
slot that was not committed (`FoundUpToGap`). The acknowledged records below it can be read; those
above it stay committed in their slots, but a read finds them out of bounds
(`not_acksReadable_of_gap`).
-/

set_option autoImplicit false
set_option relaxedAutoImplicit false

namespace Fence

open ByteMemory FirstGap Interleaving

variable {g : PoolGeometry} {hasher : Hasher}

/-! ### What a recovery finds in the memory of a run -/

section Run

variable {config : Config Call Memory}

/-- Recovery keeps exactly the committed slots. -/
theorem Invariant.kept_iff (hinvariant : Invariant g hasher config) {slot : ℕ}
    (hslot : slot < g.capacity) :
    Kept g hasher config.shared slot ↔
      (Pool.ofMemory g config.shared).state slot = stateCommitted := by
  constructor
  · intro hkept
    rw [Pool.ofMemory_state hslot]
    exact hkept.1
  · intro hstate
    obtain ⟨entry, hstored⟩ := hinvariant.rely.stored_of_committed slot hslot hstate
    obtain ⟨-, hsize, hcomplete⟩ := hinvariant.rely.complete_of_stored slot entry hstored
    rw [Pool.ofMemory_state hslot] at hstate
    refine ⟨hstate, fun htorn ↦ ?_⟩
    have hok := hcomplete.checksumOk hslot hsize
    rw [htorn.2.2.2 hstate] at hok
    cases hok

/-- Without trims everything below the committed tail is committed. -/
theorem Trimming.committed_of_lt_tail (htrimming : Trimming g hasher config)
    (huntrimmed : ∀ call ∈ config.threads, ∀ slot, ¬ call.Trims slot) {slot : ℕ}
    (htail : slot < (Pool.ofMemory g config.shared).committedTail) :
    (Pool.ofMemory g config.shared).state slot = stateCommitted := by
  obtain ⟨entry, hstored⟩ := htrimming.invariant.contents.published slot htail
  have hslot := (htrimming.invariant.reserved.slot_bounds hstored).1
  rcases htrimming.invariant.contents.state_of_stored hstored with hcommitted | habandoned
  · exact hcommitted
  · obtain ⟨-, call, hmem, htrims⟩ := htrimming.trimmed slot hslot habandoned
    exact (huntrimmed call hmem slot htrims).elim

/-- An acknowledged append has its record in its slot. -/
theorem Invariant.complete_of_ok (hinvariant : Invariant g hasher config) {entry : Entry}
    {index : ℕ} (hacked : .append entry (.returned (.ok index)) ∈ config.threads) :
    0 < index ∧ index - 1 < g.capacity ∧ entry.data.length ≤ g.payloadSize ∧
      Complete hasher entry (index - 1) ((Pool.ofMemory g config.shared).slot (index - 1)) := by
  obtain ⟨-, hpos, -⟩ := hinvariant.contents.sound _ hacked
  have hstored : Stored config.threads (index - 1) entry := ⟨_, hacked, 13, by decide, rfl⟩
  obtain ⟨hslot, hsize, hcomplete⟩ := hinvariant.rely.complete_of_stored _ _ hstored
  exact ⟨hpos, hslot, hsize, hcomplete⟩

end Run

/-! ### The theorem -/

/-- Every acknowledged record can be read. -/
def AcksReadable (g : PoolGeometry) (hasher : Hasher) (threads : List Call) (memory : Memory) :
    Prop :=
  ∀ (entry : Entry) (index : UInt64), .append entry (.returned (.ok index.toNat)) ∈ threads →
    Reads g hasher memory index (entry.record (index.toNat - 1))

/-- What a recovery makes of the memory of a run: the tail stands at the first slot that was not
committed, the acknowledged records below it can be read, and those above it are in their slots
but out of bounds. -/
structure FoundUpToGap (g : PoolGeometry) (hasher : Hasher) (config : Config Call Memory)
    (recovered : Memory) : Prop where
  tail_eq : (Pool.ofMemory g recovered).committedTail =
    firstGap (fun slot ↦ (Pool.ofMemory g config.shared).state slot = stateCommitted) g.capacity 0
  committed : ∀ (entry : Entry) (index : UInt64),
    .append entry (.returned (.ok index.toNat)) ∈ config.threads →
      (Pool.ofMemory g recovered).state (index.toNat - 1) = stateCommitted ∧
      Complete hasher entry (index.toNat - 1) ((Pool.ofMemory g recovered).slot (index.toNat - 1))
  reads_iff : ∀ (entry : Entry) (index : UInt64),
    .append entry (.returned (.ok index.toNat)) ∈ config.threads →
      (Reads g hasher recovered index (entry.record (index.toNat - 1)) ↔
        ∀ slot < index.toNat, (Pool.ofMemory g config.shared).state slot = stateCommitted)
  beyond : ∀ index : UInt64, (Pool.ofMemory g recovered).committedTail < index.toNat →
    readOutcome g hasher recovered index.toNat =
      .error (.indexOutOfBounds index.toNat (Pool.ofMemory g recovered).committedTail)

section Recovered

variable {config : Config Call Memory} {recovered : Memory}
  (htrimming : Trimming g hasher config)
  (huntrimmed : ∀ call ∈ config.threads, ∀ slot, ¬ call.Trims slot)
  (hreopened : Reopened g hasher config.shared recovered)

include htrimming huntrimmed hreopened

/-- After a recovery the committed tail has passed the slots up to the first gap. -/
theorem Trimming.lt_tail_iff {slot : ℕ} (hslot : slot < g.capacity) :
    slot < (Pool.ofMemory g recovered).committedTail ↔
      ∀ between ≤ slot, (Pool.ofMemory g config.shared).state between = stateCommitted := by
  rw [hreopened.lt_tail_iff hslot]
  constructor
  · intro hkept between hle
    by_cases htail : between < (Pool.ofMemory g config.shared).committedTail
    · exact htrimming.committed_of_lt_tail huntrimmed htail
    · exact (htrimming.invariant.kept_iff (Nat.lt_of_le_of_lt hle hslot)).mp
        (hkept between (Nat.le_of_not_lt htail) hle)
  · intro hstate between _ hle
    exact (htrimming.invariant.kept_iff (Nat.lt_of_le_of_lt hle hslot)).mpr (hstate between hle)

omit huntrimmed in
/-- A recovery leaves the committed tail within the pool. -/
theorem Trimming.tail_le : (Pool.ofMemory g recovered).committedTail ≤ g.capacity := by
  have hbefore := htrimming.invariant.rely.committedTail_le
  obtain ⟨memory, hrecovered, hpool⟩ := hreopened.exists_recovered
  have htail : (Pool.ofMemory g memory).committedTail = finalTail g hasher config.shared :=
    hrecovered.tail
  have hle : finalTail g hasher config.shared ≤
    max (Pool.ofMemory g config.shared).committedTail g.capacity := finalTail_le
  rw [hpool, htail]
  omega

/-- After a recovery an acknowledged record is in its slot, and committed. -/
theorem Trimming.committed_of_ok {entry : Entry} {index : ℕ}
    (hacked : .append entry (.returned (.ok index)) ∈ config.threads) :
    (Pool.ofMemory g recovered).state (index - 1) = stateCommitted ∧
      Complete hasher entry (index - 1) ((Pool.ofMemory g recovered).slot (index - 1)) := by
  obtain ⟨-, hslot, hsize, -⟩ := htrimming.invariant.complete_of_ok hacked
  have hwritten := htrimming.invariant.contents.written _ hacked _ _ _ rfl
  have hstate : (Pool.ofMemory g config.shared).state (index - 1) = stateCommitted := by
    rcases htrimming.invariant.contents.state_of_stored ⟨_, hacked, 13, by decide, rfl⟩ with
      hcommitted | habandoned
    · exact hcommitted
    · obtain ⟨-, call, hmem, htrims⟩ := htrimming.trimmed _ hslot habandoned
      exact (huntrimmed call hmem _ htrims).elim
  exact ⟨(hreopened.committed_iff hslot).mpr ((htrimming.invariant.kept_iff hslot).mpr hstate),
    (hreopened.written hslot hsize hwritten.1).complete (by decide) hslot hsize⟩

theorem Trimming.foundUpToGap : FoundUpToGap g hasher config recovered where
  tail_eq := by
    have hle := htrimming.tail_le hreopened
    refine eq_firstGap (Nat.zero_le _) (by omega) ?_ ?_
    · intro between _ hlt
      exact (htrimming.lt_tail_iff huntrimmed hreopened (by omega)).mp hlt between (Nat.le_refl _)
    · intro hroom hstate
      refine Nat.lt_irrefl _ ((htrimming.lt_tail_iff huntrimmed hreopened hroom).mpr ?_)
      intro between hbetween
      rcases Nat.lt_or_eq_of_le hbetween with hlt | rfl
      · exact (htrimming.lt_tail_iff huntrimmed hreopened (by omega)).mp hlt between
          (Nat.le_refl _)
      · exact hstate
  committed := fun entry index hacked ↦ htrimming.committed_of_ok huntrimmed hreopened hacked
  reads_iff := by
    intro entry index hacked
    obtain ⟨hpos, hslot, hsize, -⟩ := htrimming.invariant.complete_of_ok hacked
    have hindex : index.toNat = index.toNat - 1 + 1 := (Nat.sub_add_cancel hpos).symm
    have htail := htrimming.lt_tail_iff huntrimmed hreopened hslot
    constructor
    · intro hreads slot hlt
      exact htail.mp (hreads.visible hindex hslot).1 slot (by omega)
    · intro hstate
      have hbelow := htail.mpr fun between hle ↦ hstate between (by omega)
      obtain ⟨hcommitted, hcomplete⟩ := htrimming.committed_of_ok huntrimmed hreopened hacked
      exact reads_of_complete hindex hslot hsize hbelow hcommitted hcomplete
  beyond := by
    intro index hbeyond
    exact if_pos (Or.inr hbeyond)

end Recovered

/-- A recovery after a run of appends and reads, in which writers may stop anywhere and the pending
undos stay bounded, returns, and finds the acknowledged records up to the first gap. -/
theorem found_up_to_gap {schedule : List (Action Request Empty)}
    (honly : ∀ action ∈ schedule, startsTrim action = false ∧ startsRecover action = false)
    (hbounded : (runtimeMachine g hasher).Along (UndosBounded g hasher) schedule (freshConfig g)) :
    let config := (runtimeMachine g hasher).run schedule (freshConfig g)
    (∃ recovered, Reopened g hasher config.shared recovered) ∧
      ∀ recovered, Reopened g hasher config.shared recovered →
        FoundUpToGap g hasher config recovered := by
  intro config
  have htrimming : Trimming g hasher config := by
    refine invariant_run (Trimming g hasher)
      (fun _ _ htrimming hcondition ↦ htrimming.apply hcondition.1 hcondition.2)
      (along_and.mpr ⟨hbounded, along_of_forall_mem (fun action ↦ startsRecover action = false)
        (fun action hmem ↦ (honly action hmem).2) _⟩) Trimming.fresh
  have huntrimmed : ∀ call ∈ config.threads, ∀ slot, ¬ call.Trims slot := by
    intro call hmem slot htrims
    obtain ⟨upTo, hrequest, -⟩ := htrims.request
    have hstarted := start_mem_of_mem_run Call.request Request.request_call
      (fun call memory ↦ call.request_step memory) rfl call hmem
    rw [hrequest] at hstarted
    have := (honly _ hstarted).1
    cases this
  exact ⟨exists_reopened _, fun _ hreopened ↦ htrimming.foundUpToGap huntrimmed hreopened⟩

/-- A writer stops after it has marked its slot, and another one fills the slot behind. -/
def stoppedWriter : List (Action Request Empty) :=
  alone (.append firstEntry) 0 2 ++ alone (.append secondEntry) 1 15

theorem found_up_to_gap_stoppedWriter :
    ∃ recovered, Reopened twoPool crc32fast ((runtimeMachine twoPool crc32fast).run stoppedWriter
      (freshConfig twoPool)).shared recovered ∧
    FoundUpToGap twoPool crc32fast ((runtimeMachine twoPool crc32fast).run stoppedWriter
      (freshConfig twoPool)) recovered := by
  obtain ⟨⟨recovered, hreopened⟩, hfound⟩ : (∃ recovered, Reopened twoPool crc32fast _ recovered) ∧
      ∀ recovered, Reopened twoPool crc32fast _ recovered → FoundUpToGap twoPool crc32fast
        ((runtimeMachine twoPool crc32fast).run stoppedWriter (freshConfig twoPool)) recovered :=
    found_up_to_gap (by decide) (by decide +kernel)
  exact ⟨recovered, hreopened, hfound recovered hreopened⟩

/-! ### Records that cannot be read -/

/-- A record behind a gap is out of bounds after every recovery. -/
theorem not_acksReadable_stoppedWriter {recovered : Memory}
    (hreopened : Reopened twoPool crc32fast ((runtimeMachine twoPool crc32fast).run stoppedWriter
      (freshConfig twoPool)).shared recovered) :
    ¬ AcksReadable twoPool crc32fast ((runtimeMachine twoPool crc32fast).run stoppedWriter
      (freshConfig twoPool)).threads recovered := by
  intro hreadable
  have hacked : .append secondEntry (.returned (.ok (2 : UInt64).toNat)) ∈
      ((runtimeMachine twoPool crc32fast).run stoppedWriter (freshConfig twoPool)).threads := by
    decide +kernel
  have hvisible := (hreadable secondEntry 2 hacked).visible rfl (by decide)
  have hgap : ¬ Kept twoPool crc32fast ((runtimeMachine twoPool crc32fast).run stoppedWriter
      (freshConfig twoPool)).shared 0 := by decide +kernel
  have htail : (Pool.ofMemory twoPool ((runtimeMachine twoPool crc32fast).run stoppedWriter
      (freshConfig twoPool)).shared).committedTail = 0 := by decide +kernel
  exact hgap ((hreopened.lt_tail_iff (by decide)).mp hvisible.1 0 (Nat.le_of_eq htail) (by decide))

/-- Two records cannot both be read at one index. -/
theorem not_acksReadable_doubleIndex {count : ℕ} (hcount : count + 1 = 2 ^ 64) (memory : Memory) :
    ¬ AcksReadable onePool crc32fast ((runtimeMachine onePool crc32fast).run (doubleIndex count)
      (freshConfig onePool)).threads memory := by
  rw [run_doubleIndex hcount]
  intro hreadable
  have hfirst := reads_iff.mp (hreadable firstEntry 1 (by simp))
  have hsecond := reads_iff.mp (hreadable secondEntry 1 (by simp))
  rw [hfirst] at hsecond
  exact absurd hsecond (by decide)

/-- Acknowledged records that cannot be read after a recovery: one behind the slot of a writer that
stopped, and one whose index was returned twice after the reserve tail had wrapped. -/
theorem not_acksReadable_of_gap :
    (∃ recovered, Reopened twoPool crc32fast ((runtimeMachine twoPool crc32fast).run stoppedWriter
      (freshConfig twoPool)).shared recovered ∧
      ¬ AcksReadable twoPool crc32fast ((runtimeMachine twoPool crc32fast).run stoppedWriter
        (freshConfig twoPool)).threads recovered) ∧
    ∃ recovered, Reopened onePool crc32fast ((runtimeMachine onePool crc32fast).run
        (doubleIndex (2 ^ 64 - 1)) (freshConfig onePool)).shared recovered ∧
      ¬ AcksReadable onePool crc32fast ((runtimeMachine onePool crc32fast).run
        (doubleIndex (2 ^ 64 - 1)) (freshConfig onePool)).threads recovered := by
  have hcount : 2 ^ 64 - 1 + 1 = 2 ^ 64 := Nat.sub_add_cancel (by decide : 1 ≤ 2 ^ 64)
  obtain ⟨first, hfirst⟩ := @exists_reopened twoPool crc32fast
    ((runtimeMachine twoPool crc32fast).run stoppedWriter (freshConfig twoPool)).shared
  obtain ⟨second, hsecond⟩ := @exists_reopened onePool crc32fast
    ((runtimeMachine onePool crc32fast).run (doubleIndex (2 ^ 64 - 1)) (freshConfig onePool)).shared
  exact ⟨⟨first, hfirst, not_acksReadable_stoppedWriter hfirst⟩, second, hsecond,
    not_acksReadable_doubleIndex hcount second⟩

end Fence
