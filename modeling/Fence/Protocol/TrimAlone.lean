import Fence.Protocol.Counters
import Fence.Protocol.RecoveryOutcome
import Mathlib.Data.Nat.Count

/-!
# A trim that runs alone

A trim within the committed tail marks the committed slots below its bound abandoned and counts
them (`trim_ends`). `Trimmed` says how far it has come.
-/

set_option autoImplicit false
set_option relaxedAutoImplicit false

namespace Fence

open ByteMemory Interleaving

variable {g : PoolGeometry} {hasher : Hasher}

variable (g hasher) in
/-- The committed slots below a bound were marked abandoned, and nothing else has changed. -/
structure Trimmed (start : Memory) (bound : ℕ) (memory : Memory) : Prop where
  committedTail_eq :
    (Pool.ofMemory g memory).committedTail = (Pool.ofMemory g start).committedTail
  reserveTail_eq : (Pool.ofMemory g memory).reserveTail = (Pool.ofMemory g start).reserveTail
  state : ∀ slot < g.capacity, (Pool.ofMemory g memory).state slot =
    if slot < bound ∧ (Pool.ofMemory g start).state slot = stateCommitted then stateAbandoned
    else (Pool.ofMemory g start).state slot
  written : ∀ slot entry stage,
    Written hasher entry slot stage ((Pool.ofMemory g start).slot slot) →
    Written hasher entry slot stage ((Pool.ofMemory g memory).slot slot)
  counted : Counted g [] start memory

variable {start memory : Memory}

theorem Trimmed.refl (start : Memory) : Trimmed g hasher start 0 start where
  committedTail_eq := rfl
  reserveTail_eq := rfl
  state := by simp
  written := fun _ _ _ hwritten ↦ hwritten
  counted := .refl start

/-- The slot at the bound is not committed, and is passed. -/
theorem Trimmed.pass {slot : ℕ} (htrimmed : Trimmed g hasher start slot memory)
    (hstate : (Pool.ofMemory g start).state slot ≠ stateCommitted) :
    Trimmed g hasher start (slot + 1) memory where
  committedTail_eq := htrimmed.committedTail_eq
  reserveTail_eq := htrimmed.reserveTail_eq
  state := by
    intro other hother
    rw [htrimmed.state other hother]
    by_cases hsame : other = slot
    · subst hsame
      simp [hstate]
    · congr 1
      simp only [eq_iff_iff, and_congr_left_iff]
      omega
  written := htrimmed.written
  counted := htrimmed.counted

/-- The slot at the bound is committed, and is marked. -/
theorem Trimmed.mark {slot : ℕ} (htrimmed : Trimmed g hasher start slot memory)
    (hslot : slot < g.capacity)
    (hstate : (Pool.ofMemory g start).state slot = stateCommitted) :
    Trimmed g hasher start (slot + 1)
      (store memory (g.recordOffset slot + recState) [stateAbandoned]) := by
  have hpool : Pool.ofMemory g
      (store memory (g.recordOffset slot + recState) [stateAbandoned]) = _ :=
    ofMemory_store_state hslot stateAbandoned
  have hfits : recState + [stateAbandoned].length ≤ g.recordSize :=
    Nat.le_trans (by decide : recState + 1 ≤ recordMetaSize) PoolGeometry.recordMetaSize_le
  exact
    { committedTail_eq := by
        rw [hpool]
        exact htrimmed.committedTail_eq
      reserveTail_eq := by
        rw [hpool]
        exact htrimmed.reserveTail_eq
      state := by
        intro other hother
        rw [hpool]
        by_cases hsame : other = slot
        · subst hsame
          rw [Pool.state_storeSlot_self, if_pos ⟨Nat.lt_succ_self _, hstate⟩]
        · rw [Pool.state_storeSlot_ne _ hsame, htrimmed.state other hother]
          congr 1
          simp only [eq_iff_iff, and_congr_left_iff]
          omega
      written := by
        intro other entry stage hwritten
        have hkept := htrimmed.written other entry stage hwritten
        rw [hpool]
        by_cases hsame : other = slot
        · subst hsame
          rw [Pool.storeSlot_slot_self]
          exact hkept.store_state _
        · rwa [Pool.storeSlot_slot_ne _ hsame]
      counted := htrimmed.counted.trans (Counted.store_slot hslot hfits) }

theorem trim_ends_step {upTo : UInt64} {point : TrimPoint} {memory later : Memory}
    {result : Call} (hends : (runtimeMachine g hasher).Ends
      (.trim upTo ((Compaction.trim g upTo.toNat point).exec memory).1)
      ((Compaction.trim g upTo.toNat point).exec memory).2 result later) :
    (runtimeMachine g hasher).Ends (.trim upTo (.running point)) memory result later :=
  .of_step (@Call.step_trim g hasher memory upTo point) hends

/-- The loop of a trim marks the committed slots from one on. -/
theorem trim_head_ends {upTo : UInt64} (hupTo : upTo.toNat ≤ g.capacity) (fuel : ℕ) {slot : ℕ}
    (hfuel : upTo.toNat - slot = fuel) (hslot : slot ≤ upTo.toNat)
    (htrimmed : Trimmed g hasher start slot memory) :
    ∃ later, (runtimeMachine g hasher).Ends
        (.trim upTo (TrimPoint.head upTo.toNat slot
          (Nat.count (fun held ↦ (Pool.ofMemory g start).state held = stateCommitted) slot)))
        memory
        (.trim upTo (.returned (.ok ⟨Nat.count
          (fun held ↦ (Pool.ofMemory g start).state held = stateCommitted) upTo.toNat⟩))) later ∧
      Trimmed g hasher start upTo.toNat later := by
  have hcast : asU32 upTo.toNat = upTo.toNat :=
    asU32_of_lt (Nat.lt_of_le_of_lt hupTo g.capacity_lt) (Nat.le_refl _)
  induction fuel generalizing slot memory with
  | zero =>
    obtain rfl : slot = upTo.toNat := by omega
    refine ⟨memory, ?_, htrimmed⟩
    rw [TrimPoint.head, hcast, if_neg (Nat.lt_irrefl _)]
    exact .refl _ _
  | succ fuel ih =>
    have hbelow : slot < upTo.toNat := by omega
    have hroom : slot < g.capacity := Nat.lt_of_lt_of_le hbelow hupTo
    have hload : memory (g.recordOffset slot + recState) = (Pool.ofMemory g start).state slot := by
      refine (Pool.ofMemory_state hroom).symm.trans ?_
      rw [htrimmed.state slot hroom, if_neg fun hpassed ↦ Nat.lt_irrefl slot hpassed.1]
    have hcount := Nat.count_succ
      (fun held ↦ (Pool.ofMemory g start).state held = stateCommitted) slot
    by_cases hstate : (Pool.ofMemory g start).state slot = stateCommitted
    · obtain ⟨later, hends, hlater⟩ := ih (by omega) hbelow (htrimmed.mark hroom hstate)
      rw [if_pos hstate] at hcount
      rw [hcount] at hends
      refine ⟨later, ?_, hlater⟩
      rw [TrimPoint.head, hcast, if_pos hbelow]
      refine trim_ends_step ?_
      simp only [Compaction.trim, BackendCall.exec, hload, if_pos hstate]
      refine trim_ends_step ?_
      simp only [Compaction.trim, BackendCall.exec]
      refine trim_ends_step ?_
      simp only [Compaction.trim, BackendCall.exec]
      exact hends
    · obtain ⟨later, hends, hlater⟩ := ih (by omega) hbelow (htrimmed.pass hstate)
      rw [if_neg hstate, Nat.add_zero] at hcount
      rw [hcount] at hends
      refine ⟨later, ?_, hlater⟩
      rw [TrimPoint.head, hcast, if_pos hbelow]
      refine trim_ends_step ?_
      simp only [Compaction.trim, BackendCall.exec, hload, if_neg hstate]
      exact hends

/-- A trim within the committed tail marks the committed slots below its bound. -/
theorem trim_ends {upTo : UInt64} {memory : Memory}
    (hbound : upTo.toNat ≤ (Pool.ofMemory g memory).committedTail)
    (htail : (Pool.ofMemory g memory).committedTail ≤ g.capacity) :
    ∃ later, (runtimeMachine g hasher).Ends (Request.call g (.trim upTo)) memory
        (.trim upTo (.returned (.ok ⟨Nat.count
          (fun held ↦ (Pool.ofMemory g memory).state held = stateCommitted) upTo.toNat⟩))) later ∧
      Trimmed g hasher memory upTo.toNat later := by
  have hnone : Trimmed g hasher memory 0 memory := .refl memory
  obtain ⟨later, hends, htrimmed⟩ := trim_head_ends (Nat.le_trans hbound htail) upTo.toNat
    (Nat.sub_zero _) (Nat.zero_le _) hnone
  refine ⟨later, trim_ends_step ?_, htrimmed⟩
  have hreached : ¬ loadWord memory hdrCommittedTail 8 < upTo.toNat := Nat.not_lt.mpr hbound
  simp only [Compaction.trim, BackendCall.exec, if_neg hreached]
  exact hends

/-- A trim past the committed tail is refused. -/
theorem trim_beyond_ends {upTo : UInt64} {memory : Memory}
    (hbeyond : (Pool.ofMemory g memory).committedTail < upTo.toNat) :
    (runtimeMachine g hasher).Ends (Request.call g (.trim upTo)) memory
      (.trim upTo (.returned (.error (.trimBeyondCommitted upTo.toNat
        (Pool.ofMemory g memory).committedTail)))) memory := by
  refine trim_ends_step ?_
  have hless : loadWord memory hdrCommittedTail 8 < upTo.toNat := hbeyond
  simp only [Compaction.trim, BackendCall.exec, if_pos hless]
  exact .refl _ _

end Fence
