import Fence.Properties.RecordPlacement
import Fence.Properties.ShortCorruption
import Fence.Protocol.TailRuns

/-!
# Ranges as the reads of their indices

`read_range` is to give what reading its indices one after the other gives, whatever its bounds
(`FoldsReads`). It allocates its vector first, for as many records as `end - start` says: where that
is negative or larger than any vector, the call does not return at all, although the reads would
have ended with an empty list or with the first index beyond the tail. `foldsReads_iff` says for
which bounds the call returns what it should, in every state of every run. The last part of the
condition holds in every run in which the reserve tail does not wrap (`rangeVerifies_of_run`).
-/

set_option autoImplicit false
set_option relaxedAutoImplicit false

namespace Fence

open ByteMemory Interleaving

/-- A range is read as its indices are, one after the other: it is empty when its bounds are the
wrong way round, and an index beyond the tail makes it end out of bounds. -/
def FoldsReads (g : PoolGeometry) (hasher : Hasher) (checked : Bool) (hostId : UInt16)
    (startIndex endIndex : UInt64) (memory : Memory) : Prop :=
  ∃ task result later, startReadRange checked startIndex endIndex = some task ∧
    (routineMachine (FenceRuntime.readRange g hasher hostId endIndex.toNat)).Ends task memory
      (.returned result) later ∧
    ReadsInOrder g hasher hostId
      (rangeIndices startIndex.toNat endIndex.toNat) memory result later ∧
    (endIndex ≤ startIndex → result = .ok []) ∧
    ((∃ index, startIndex.toNat ≤ index ∧ index < endIndex.toNat ∧ tailOf memory < index) →
      ∃ index, result = .error (.indexOutOfBounds index (tailOf memory)))

/-- The committed records from an index up to the tail verify. -/
def RangeVerifies (g : PoolGeometry) (hasher : Hasher) (memory : Memory) (startIndex : ℕ) : Prop :=
  ∀ slot < tailOf memory, startIndex ≤ slot + 1 → stateByte g memory slot = stateCommitted →
    checksumOk g hasher memory slot = true

/-- The bounds of a range that `read_range` serves: their difference is computed and gives the
length of a vector, and no corrupt record comes before the end of the log. -/
structure RangeServed (g : PoolGeometry) (hasher : Hasher) (checked : Bool)
    (startIndex endIndex : UInt64) (memory : Memory) : Prop where
  ordered : checked = true → startIndex ≤ endIndex
  allocated : (endIndex - startIndex).toNat * sizeOfRecord ≤ isizeMax
  verifies : 0 < startIndex.toNat → startIndex < endIndex →
    tailOf memory + 1 < endIndex.toNat → RangeVerifies g hasher memory startIndex.toNat

variable {g : PoolGeometry} {hasher : Hasher} {memory : Memory} {startIndex endIndex : ℕ}

/-! ### Ranges beyond the tail -/

/-- An index that does not exist ends the range. -/
theorem rangeOutcome_of_beyond (hend : endIndex < 2 ^ 64) (hlt : startIndex < endIndex)
    (hbeyond : startIndex = 0 ∨ tailOf memory < startIndex) :
    rangeOutcome g hasher memory (rangeIndices startIndex endIndex) =
      .error (.indexOutOfBounds startIndex (tailOf memory)) := by
  have hindex : (UInt64.ofNat startIndex).toNat = startIndex :=
    UInt64.toNat_ofNat_of_lt' (hlt.trans hend)
  have hread : readOutcome g hasher memory startIndex =
      .error (.indexOutOfBounds startIndex (tailOf memory)) := if_pos hbeyond
  rw [rangeIndices_of_lt hlt, rangeOutcome, hindex, hread]

/-- The records from a slot on verify when the one in the slot does and those after it do. -/
theorem rangeVerifies_succ_iff {slot : ℕ} (hslot : slot < tailOf memory) :
    RangeVerifies g hasher memory (slot + 1) ↔
      (stateByte g memory slot = stateCommitted → checksumOk g hasher memory slot = true) ∧
        RangeVerifies g hasher memory (slot + 1 + 1) := by
  refine ⟨fun hverifies ↦ ⟨hverifies slot hslot (Nat.le_refl _), ?_⟩, ?_⟩
  · intro other hother hle
    exact hverifies other hother (by omega)
  · rintro ⟨hfirst, hrest⟩ other hother hle
    rcases Nat.eq_or_lt_of_le hle with hsame | hlater
    · obtain rfl := Nat.succ.inj hsame
      exact hfirst
    · exact hrest other hother hlater

/-- A range with an index beyond the tail ends out of bounds unless a corrupt record comes first. -/
theorem rangeOutcome_outOfBounds_iff (htail : tailOf memory ≤ g.capacity) (hend : endIndex < 2 ^ 64)
    (hpositive : 0 < startIndex) (hlt : startIndex < endIndex)
    (hpast : tailOf memory + 1 < endIndex) :
    (∃ index, rangeOutcome g hasher memory (rangeIndices startIndex endIndex) =
        .error (.indexOutOfBounds index (tailOf memory))) ↔
      RangeVerifies g hasher memory startIndex := by
  induction hlength : endIndex - startIndex generalizing startIndex with
  | zero => omega
  | succ length ih =>
    by_cases hbeyond : tailOf memory < startIndex
    · refine iff_of_true ⟨_, rangeOutcome_of_beyond hend hlt (.inr hbeyond)⟩ ?_
      intro slot hslot hle
      omega
    · obtain ⟨slot, rfl⟩ : ∃ slot, startIndex = slot + 1 := ⟨startIndex - 1, by omega⟩
      have hindex : (UInt64.ofNat (slot + 1)).toNat = slot + 1 :=
        UInt64.toNat_ofNat_of_lt' (hlt.trans hend)
      have hslot : slot < tailOf memory := Nat.le_of_not_lt hbeyond
      have hrest := ih (Nat.succ_pos _) (by omega : slot + 1 + 1 < endIndex) (by omega)
      have hmap : ∀ found : Option Record,
          (∃ index, (rangeOutcome g hasher memory (rangeIndices (slot + 1 + 1) endIndex)).map
              (found.toList ++ ·) = .error (.indexOutOfBounds index (tailOf memory))) ↔
            RangeVerifies g hasher memory (slot + 1 + 1) := by
        intro found
        rw [← hrest]
        cases rangeOutcome g hasher memory (rangeIndices (slot + 1 + 1) endIndex) with
        | error error => exact Iff.rfl
        | ok records => simp [Except.map]
      rw [rangeIndices_of_lt hlt, rangeOutcome, hindex,
        readOutcome_of_lt (hslot.trans_le htail) hslot, rangeVerifies_succ_iff hslot, slotOutcome]
      by_cases hstate : stateByte g memory slot = stateCommitted
      · rw [if_pos hstate]
        by_cases hchecksum : checksumOk g hasher memory slot = true
        · rw [if_pos hchecksum, and_iff_right fun _ ↦ hchecksum]
          exact hmap _
        · rw [if_neg hchecksum]
          refine iff_of_false (fun hexists ↦ ?_) fun hverifies ↦ hchecksum (hverifies.1 hstate)
          obtain ⟨index, herror⟩ := hexists
          cases herror
      · rw [if_neg hstate, and_iff_right fun hcommitted ↦ absurd hcommitted hstate]
        exact hmap _

/-! ### The call -/

/-- On a pool whose tail lies within it, a range is read as its indices are when it is served, and
only then. -/
theorem foldsReads_of_tail_le {checked : Bool} {hostId : UInt16} {first last : UInt64}
    (htail : tailOf memory ≤ g.capacity) :
    FoldsReads g hasher checked hostId first last memory ↔
      RangeServed g hasher checked first last memory := by
  have hend : last.toNat < 2 ^ 64 := last.toNat_lt
  constructor
  · rintro ⟨task, result, later, hstart, -, hreads, -, hbeyond⟩
    obtain ⟨hordered, hallocated, -⟩ := startReadRange_eq_some_iff.mp hstart
    refine ⟨hordered, hallocated, fun hpositive hlt hpast ↦ ?_⟩
    have hlt : first.toNat < last.toNat := UInt64.lt_iff_toNat_lt.mp hlt
    rw [← rangeOutcome_outOfBounds_iff htail hend hpositive hlt hpast,
      ← hreads.eq_rangeOutcome rfl htail]
    exact hbeyond ⟨last.toNat - 1, by omega, by omega, by omega⟩
  · intro hserved
    obtain ⟨result, later, hends, hreads⟩ :=
      readRange_ends g hasher hostId hend first.toNat memory []
    have hresult := hreads.eq_rangeOutcome rfl htail
    have hsame : result.map ([] ++ ·) = result := by cases result <;> rfl
    rw [hsame] at hends
    refine ⟨_, result, later,
      startReadRange_eq_some_iff.mpr ⟨hserved.ordered, hserved.allocated, rfl⟩, hends,
        hreads, ?_, ?_⟩
    · intro hle
      rw [hresult, rangeIndices_of_le (UInt64.le_iff_toNat_le.mp hle)]
      rfl
    · rintro ⟨index, hfrom, hto, hbeyond⟩
      have hlt : first.toNat < last.toNat := by omega
      rw [hresult]
      by_cases hfirst : first.toNat = 0 ∨ tailOf memory < first.toNat
      · exact ⟨_, rangeOutcome_of_beyond hend hlt hfirst⟩
      · obtain ⟨hpositive, -⟩ := not_or.mp hfirst
        have hpositive : 0 < first.toNat := Nat.pos_of_ne_zero hpositive
        have hpast : tailOf memory + 1 < last.toNat := by omega
        exact (rangeOutcome_outOfBounds_iff htail hend hpositive hlt hpast).mpr
          (hserved.verifies hpositive (UInt64.lt_iff_toNat_lt.mpr hlt) hpast)

/-- The records of the log verify in every run in which the pending undos stay bounded. -/
theorem rangeVerifies_of_run {schedule : List (Action Request Empty)}
    (hbounded : (runtimeMachine g hasher).Along (UndosBounded g hasher) schedule (freshConfig g)) :
    RangeVerifies g hasher ((runtimeMachine g hasher).run schedule (freshConfig g)).shared
      startIndex := by
  intro slot hslot _ hstate
  have hinvariant := invariant_of_run hbounded
  have hlt : slot < g.capacity := hslot.trans_le (tailRises_of_run schedule).tail
  obtain ⟨entry, -, hintact⟩ := hinvariant.rely.exists_intact hlt hstate
  exact hintact.complete.checksumOk hlt hintact.size

/-- In every state of every run, a range is read as its indices are exactly when its bounds are
served. -/
theorem foldsReads_iff (schedule : List (Action Request Empty)) (checked : Bool) (hostId : UInt16)
    (first last : UInt64) :
    FoldsReads g hasher checked hostId first last
        ((runtimeMachine g hasher).run schedule (freshConfig g)).shared ↔
      RangeServed g hasher checked first last
        ((runtimeMachine g hasher).run schedule (freshConfig g)).shared :=
  foldsReads_of_tail_le (tailRises_of_run schedule).tail

/-- A range whose bounds are the wrong way round, and one that reaches far past the tail, on a pool
just created. -/
theorem not_foldsReads_of_bounds :
    ¬ FoldsReads twoPool crc32fast true 0 5 2 (freshMemory twoPool) ∧
      ¬ FoldsReads twoPool crc32fast false 0 5 2 (freshMemory twoPool) ∧
      ¬ FoldsReads twoPool crc32fast false 0 1 9223372036854775808 (freshMemory twoPool) := by
  have hrefused : ∀ {checked : Bool} {first last : UInt64},
      ¬ ((checked = true → first ≤ last) ∧ (last - first).toNat * sizeOfRecord ≤ isizeMax) →
        ¬ FoldsReads twoPool crc32fast checked 0 first last (freshMemory twoPool) := by
    rintro checked first last hbounds ⟨task, result, later, hstart, -⟩
    obtain ⟨hordered, hallocated, -⟩ := startReadRange_eq_some_iff.mp hstart
    exact hbounds ⟨hordered, hallocated⟩
  exact ⟨hrefused (by decide +kernel), hrefused (by decide +kernel), hrefused (by decide +kernel)⟩

end Fence
