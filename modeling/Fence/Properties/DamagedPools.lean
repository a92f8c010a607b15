import Fence.Properties.RecoveryConfluence
import Fence.Protocol.ReadAlone
import Fence.Protocol.RecoveryReport
import Mathlib.Order.Bounds.Defs

/-!
# Recovery of damaged pools

The memory a recovery starts from is arbitrary, up to two conditions: the committed tail lies
within the pool, and no slot that was never claimed says it is committed. `Restored` is what the
recovery then makes of it, slot by slot and byte by byte, and `recovery_restores` proves it. After
it no read up to the committed tail fails, although `read` decodes and verifies the record with code
of its own.
-/

set_option autoImplicit false
set_option relaxedAutoImplicit false

namespace Fence

open ByteMemory FirstGap Interleaving

variable {g : PoolGeometry} {hasher : Hasher} {start memory : Memory}

variable (g hasher start) in
/-- The slot was being written, has an unknown state, or holds a committed record that does not
verify. -/
def Damaged (slot : ℕ) : Prop :=
  stateByte g start slot = stateWriting ∨
    stateByte g start slot ∉ [stateFree, stateWriting, stateCommitted, stateAbandoned] ∨
    stateByte g start slot = stateCommitted ∧ checksumOk g hasher start slot = false

/-- What a recovery makes of a damaged pool. -/
structure Restored (g : PoolGeometry) (hasher : Hasher) (start : Memory) (report : RecoveryReport)
    (memory : Memory) : Prop where
  changed_iff : ∀ slot < claimedSlots g start,
    stateByte g memory slot ≠ stateByte g start slot ↔ Damaged g hasher start slot
  abandoned : ∀ slot < claimedSlots g start, stateByte g memory slot ≠ stateByte g start slot →
    stateByte g memory slot = stateAbandoned
  count : report.abandonedCount =
    Nat.count (fun slot ↦ stateByte g memory slot ≠ stateByte g start slot) (claimedSlots g start)
  tail_least : IsLeast {tail | loadWord start hdrCommittedTail 8 ≤ tail ∧
    (tail = g.capacity ∨ stateByte g memory tail ≠ stateCommitted)}
    (loadWord memory hdrCommittedTail 8)
  report_tail : report.committedTail = loadWord memory hdrCommittedTail 8
  other : ∀ address, ¬ (hdrCommittedTail ≤ address ∧ address < hdrCommittedTail + 8) →
    (∀ slot < claimedSlots g start, Damaged g hasher start slot →
      address ≠ g.recordOffset slot + recState) → memory address = start address
  reads : ∀ (hostId : UInt16) (index : UInt64), 1 ≤ index.toNat →
    index.toNat ≤ loadWord memory hdrCommittedTail 8 →
    ∃ found, (runtimeMachine g hasher).Leads (Request.call g (.read hostId index)) memory
      (.read hostId index (.returned (.ok found)))

/-- The claimed slots that are damaged are the torn ones. -/
theorem torn_iff_damaged {slot : ℕ} (hslot : slot < claimedSlots g start) :
    Torn g hasher start slot ↔ Damaged g hasher start slot := by
  have hfree : stateFree ≠ stateCommitted := by decide
  have habandoned : stateAbandoned ≠ stateCommitted := by decide
  constructor
  · rintro ⟨-, hnotFree, hnotAbandoned, hchecksum⟩
    by_cases hwriting : stateByte g start slot = stateWriting
    · exact Or.inl hwriting
    · by_cases hcommitted : stateByte g start slot = stateCommitted
      · exact Or.inr (Or.inr ⟨hcommitted, hchecksum hcommitted⟩)
      · exact Or.inr (Or.inl (by simp [hnotFree, hwriting, hcommitted, hnotAbandoned]))
  · rintro (hwriting | hunknown | ⟨hcommitted, hchecksum⟩)
    · rw [Torn, hwriting]
      exact ⟨hslot, by decide, by decide, fun h ↦ absurd h (by decide)⟩
    · simp only [List.mem_cons, List.not_mem_nil, or_false, not_or] at hunknown
      exact ⟨hslot, hunknown.1, hunknown.2.2.2, fun h ↦ (hunknown.2.2.1 h).elim⟩
    · refine ⟨hslot, ?_, ?_, fun _ ↦ hchecksum⟩
      · rw [hcommitted]
        exact hfree.symm
      · rw [hcommitted]
        exact habandoned.symm

section Recovered

variable (hrecovered : Recovered g hasher start memory)

include hrecovered

/-- The state of a slot changes when the slot is torn, and only then. -/
theorem Recovered.changed_iff_torn {slot : ℕ} (hslot : slot < g.capacity) :
    stateByte g memory slot ≠ stateByte g start slot ↔ Torn g hasher start slot := by
  rw [hrecovered.stateByte_eq hslot]
  constructor
  · intro hchanged
    by_contra htorn
    exact hchanged (if_neg htorn)
  · intro htorn
    rw [if_pos htorn]
    exact htorn.2.2.1.symm

/-- The bytes outside the tail and the marked states stay. -/
theorem Recovered.other {address : ℕ}
    (htail : ¬ (hdrCommittedTail ≤ address ∧ address < hdrCommittedTail + 8))
    (hstate : ∀ slot < claimedSlots g start, Damaged g hasher start slot →
      address ≠ g.recordOffset slot + recState) : memory address = start address := by
  by_cases hslot : ∃ slot < g.capacity, address = g.recordOffset slot + recState
  · obtain ⟨slot, hslot, rfl⟩ := hslot
    have hbyte := hrecovered.stateByte_eq hslot
    rwa [if_neg fun htorn ↦ hstate slot htorn.1 ((torn_iff_damaged htorn.1).mp htorn) rfl]
      at hbyte
  · push Not at hslot
    exact hrecovered.between.other address htail hslot

variable (htail : loadWord start hdrCommittedTail 8 ≤ g.capacity)

include htail

theorem Recovered.tail_le : loadWord memory hdrCommittedTail 8 ≤ g.capacity := by
  have hle : finalTail g hasher start ≤ max (loadWord start hdrCommittedTail 8) g.capacity :=
    finalTail_le
  rw [hrecovered.tail]
  omega

/-- The committed tail ends up at the first slot from the old one on that is not committed. -/
theorem Recovered.tail_least : IsLeast {tail | loadWord start hdrCommittedTail 8 ≤ tail ∧
    (tail = g.capacity ∨ stateByte g memory tail ≠ stateCommitted)}
    (loadWord memory hdrCommittedTail 8) := by
  have hend := hrecovered.tail_le htail
  rw [hrecovered.tail] at hend ⊢
  refine ⟨⟨tail_le_finalTail, ?_⟩, fun other ⟨hlow, hgap⟩ ↦ ?_⟩
  · rcases Nat.lt_or_eq_of_le hend with hroom | hfull
    · exact Or.inr fun hcommitted ↦ not_kept_finalTail hroom
        ((hrecovered.committed_iff hroom).mp hcommitted)
    · exact Or.inl hfull
  · by_contra hbefore
    have hlt : other < finalTail g hasher start := Nat.lt_of_not_le hbefore
    rcases hgap with hfull | hstate
    · omega
    · exact hstate ((hrecovered.committed_iff (by omega)).mpr (kept_of_lt_finalTail hlow hlt))

variable (hunclaimed : ∀ slot, claimedSlots g start ≤ slot → slot < g.capacity →
  stateByte g start slot ≠ stateCommitted)

include hunclaimed

omit htail in
/-- A committed slot verifies after a recovery. -/
theorem Recovered.checksumOk_of_committed {slot : ℕ} (hslot : slot < g.capacity)
    (hcommitted : stateByte g memory slot = stateCommitted) :
    checksumOk g hasher memory slot = true := by
  obtain ⟨hstate, htorn⟩ := (hrecovered.committed_iff hslot).mp hcommitted
  have hclaimed : slot < claimedSlots g start := by
    by_contra hbeyond
    exact hunclaimed slot (Nat.le_of_not_lt hbeyond) hslot hstate
  rw [hrecovered.between.checksumOk_eq hslot]
  by_contra hfails
  exact htorn ((torn_iff_damaged hclaimed).mpr
    (Or.inr (Or.inr ⟨hstate, Bool.eq_false_iff.mpr hfails⟩)))

/-- After a recovery no read up to the committed tail fails. -/
theorem Recovered.reads {index : ℕ} (hlow : 1 ≤ index)
    (hhigh : index ≤ loadWord memory hdrCommittedTail 8) :
    ∃ found, readOutcome g hasher memory index = .ok found := by
  have hend := hrecovered.tail_le htail
  obtain ⟨slot, rfl⟩ := Nat.exists_eq_add_one_of_ne_zero (Nat.one_le_iff_ne_zero.mp hlow)
  have hslot : slot < g.capacity := by omega
  rw [readOutcome_of_lt hslot hhigh, slotOutcome]
  split_ifs with hstate hchecksum
  · exact ⟨_, rfl⟩
  · exact absurd (hrecovered.checksumOk_of_committed hunclaimed hslot hstate) hchecksum
  · exact ⟨none, rfl⟩

theorem Recovered.restored : Restored g hasher start (recoveryReport g hasher start) memory where
  changed_iff := by
    intro slot hslot
    have hclaimed : claimedSlots g start ≤ g.capacity := Nat.min_le_right _ _
    rw [hrecovered.changed_iff_torn (Nat.lt_of_lt_of_le hslot hclaimed), torn_iff_damaged hslot]
  abandoned := by
    intro slot hslot hchanged
    have hclaimed : claimedSlots g start ≤ g.capacity := Nat.min_le_right _ _
    exact hrecovered.marked slot hslot
      ((hrecovered.changed_iff_torn (Nat.lt_of_lt_of_le hslot hclaimed)).mp hchanged)
  count := by
    have hclaimed : claimedSlots g start ≤ g.capacity := Nat.min_le_right _ _
    show Nat.count (Torn g hasher start) _ = _
    rw [Nat.count_eq_card_filter_range, Nat.count_eq_card_filter_range]
    congr 1
    refine Finset.filter_congr fun slot hslot ↦ ?_
    exact (hrecovered.changed_iff_torn
      (Nat.lt_of_lt_of_le (Finset.mem_range.mp hslot) hclaimed)).symm
  tail_least := hrecovered.tail_least htail
  report_tail := hrecovered.tail.symm
  other := fun address ↦ hrecovered.other
  reads := by
    intro hostId index hlow hhigh
    obtain ⟨found, hfound⟩ := hrecovered.reads htail hunclaimed hlow hhigh
    refine ⟨found, ?_⟩
    rw [← hfound]
    exact (read_ends g hasher memory hostId index).leads

end Recovered

/-- A recovery of a pool whose tail lies within it and none of whose unclaimed slots says it is
committed returns, and restores the pool. -/
theorem recovery_restores (htail : loadWord start hdrCommittedTail 8 ≤ g.capacity)
    (hunclaimed : ∀ slot, claimedSlots g start ≤ slot → slot < g.capacity →
      stateByte g start slot ≠ stateCommitted) :
    (∃ report memory, (recoverMachine g hasher).Ends ((recoverMachine g hasher).start ()) start
      (.returned report) memory) ∧
    ∀ report memory, (recoverMachine g hasher).Ends ((recoverMachine g hasher).start ()) start
      (.returned report) memory → Restored g hasher start report memory := by
  obtain ⟨memory, hends, hrecovered⟩ := exists_recovered_report g hasher start
  refine ⟨⟨_, memory, hends⟩, fun report other hother ↦ ?_⟩
  obtain ⟨hreport, rfl⟩ := hother.unique hends (fun _ ↦ rfl) fun _ ↦ rfl
  rw [Task.returned.injEq] at hreport
  rw [hreport]
  exact hrecovered.restored htail hunclaimed

/-- The pool with one slot being written and one of unknown state. -/
theorem recovery_restores_tornMemory :
    ∃ report memory, Restored twoPool crc32fast tornMemory report memory := by
  obtain ⟨⟨report, memory, hends⟩, hrestores⟩ : (∃ report memory, (recoverMachine twoPool
      crc32fast).Ends ((recoverMachine twoPool crc32fast).start ()) tornMemory
        (.returned report) memory) ∧ ∀ report memory, (recoverMachine twoPool crc32fast).Ends _ _
          (.returned report) memory → Restored twoPool crc32fast tornMemory report memory :=
    recovery_restores (by decide +kernel) fun slot hlow hhigh ↦ by
      have hclaimed : claimedSlots twoPool tornMemory = twoPool.capacity := by decide +kernel
      omega
  exact ⟨report, memory, hrestores report memory hends⟩

end Fence
