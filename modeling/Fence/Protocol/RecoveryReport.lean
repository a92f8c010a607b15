import Fence.Protocol.RecoveryRun
import Mathlib.Data.Nat.Count

/-!
# What a recovery reports

A recovery that runs alone finds every slot as it was at the start, until it marks it itself. So
it counts every torn slot once, and its report is `recoveryReport`, read off the memory at the
start (`exists_recovered_report`).
-/

set_option autoImplicit false
set_option relaxedAutoImplicit false

namespace Fence

open ByteMemory FirstGap Interleaving

section Report

variable (g : PoolGeometry) (hasher : Hasher) (start : Memory)

/-- The report of a recovery that runs alone. -/
def recoveryReport : RecoveryReport where
  abandonedCount := Nat.count (Torn g hasher start) (claimedSlots g start)
  committedTail := finalTail g hasher start
  slotsScanned := claimedSlots g start

variable (memory : Memory)

/-- The states from a slot on are those of the start. -/
def Untouched (bound : ℕ) : Prop :=
  ∀ slot, bound ≤ slot → slot < g.capacity → stateByte g memory slot = stateByte g start slot

/-- A scan has counted the torn slots before the one it is at. -/
structure Scan.Tally (scan : Scan) : Prop where
  slotsToScan : scan.slotsToScan = claimedSlots g start
  count : scan.abandonedCount = Nat.count (Torn g hasher start) scan.slot
  untouched : Untouched g start memory scan.slot

/-- What a recovery running alone has counted at a point. -/
def RecoverPoint.Tally : RecoverPoint → Prop
  | .loadReserveTail => Untouched g start memory 0
  | .loadState scan => scan.Tally g hasher start memory
  | .storeAbandoned scan => scan.Tally g hasher start memory
  | .flushAbandoned scan => scan.slotsToScan = claimedSlots g start ∧
      scan.abandonedCount = Nat.count (Torn g hasher start) scan.slot ∧
      Untouched g start memory (scan.slot + 1)
  | .loadTerm scan => scan.Tally g hasher start memory
  | .loadIndex scan _ => scan.Tally g hasher start memory
  | .readDataLen scan _ _ => scan.Tally g hasher start memory
  | .loadChecksum scan _ _ _ => scan.Tally g hasher start memory
  | .readPayload scan _ _ _ _ => scan.Tally g hasher start memory
  | .sweep scan _ => scan.slotsToScan = claimedSlots g start ∧
      scan.abandonedCount = Nat.count (Torn g hasher start) (claimedSlots g start)

/-- What a recovery running alone has counted, at a point or when it returned. -/
def RecoverPoint.TallyTask : Task RecoverPoint RecoveryReport → Prop
  | .running point => point.Tally g hasher start memory
  | .returned report => report.slotsScanned = claimedSlots g start ∧
      report.abandonedCount = Nat.count (Torn g hasher start) (claimedSlots g start)

end Report

variable {g : PoolGeometry} {hasher : Hasher} {start memory : Memory}

/-! ### The scan -/

theorem Scan.head_tally {scan : Scan} (htally : scan.Tally g hasher start memory)
    (hslot : scan.slot ≤ claimedSlots g start) :
    RecoverPoint.TallyTask g hasher start memory scan.head := by
  have hclaimed : claimedSlots g start ≤ g.capacity := Nat.min_le_right _ _
  have hcapacity := g.capacity_lt
  unfold Scan.head
  rw [htally.slotsToScan, asU32_of_lt (Nat.lt_of_le_of_lt hclaimed hcapacity) (Nat.le_refl _)]
  split_ifs with hbelow
  · exact htally
  · have hend : scan.slot = claimedSlots g start := by omega
    exact ⟨htally.slotsToScan, hend ▸ htally.count⟩

/-- The slot at hand is not torn, and is passed. -/
theorem Scan.next_tally {scan : Scan} (htally : scan.Tally g hasher start memory)
    (hslot : scan.slot < claimedSlots g start) (htorn : ¬ Torn g hasher start scan.slot) :
    RecoverPoint.TallyTask g hasher start memory scan.next := by
  refine Scan.head_tally ⟨htally.slotsToScan, ?_, fun slot hle ↦ ?_⟩ hslot
  · show scan.abandonedCount = Nat.count (Torn g hasher start) (scan.slot + 1)
    rw [Nat.count_succ, if_neg htorn, Nat.add_zero, htally.count]
  · exact htally.untouched slot (Nat.le_of_succ_le hle)

/-- The slot at hand is torn, and is counted. -/
theorem Scan.nextAbandoned_tally {scan : Scan} (hscan : scan.slotsToScan = claimedSlots g start)
    (hcount : scan.abandonedCount = Nat.count (Torn g hasher start) scan.slot)
    (huntouched : Untouched g start memory (scan.slot + 1))
    (htorn : Torn g hasher start scan.slot) :
    RecoverPoint.TallyTask g hasher start memory scan.nextAbandoned := by
  refine Scan.head_tally ⟨hscan, ?_, huntouched⟩ htorn.1
  show scan.abandonedCount + 1 = Nat.count (Torn g hasher start) (scan.slot + 1)
  rw [Nat.count_succ, if_pos htorn, hcount]

/-- The checksum test of a recovery decides whether the committed slot is torn. -/
theorem Scan.check_tally {scan : Scan} (htally : scan.Tally g hasher start memory)
    (hslot : scan.slot < claimedSlots g start)
    (hcommitted : stateByte g start scan.slot = stateCommitted) :
    RecoverPoint.TallyTask g hasher start memory
      (scan.check hasher (loadWord start (g.recordOffset scan.slot + recTerm) 8)
        (loadWord start (g.recordOffset scan.slot + recIndex) 8)
        (load start (g.recordOffset scan.slot + recordMetaSize) (payloadLength g start scan.slot))
        (loadWord start (g.recordOffset scan.slot + recChecksum) 8)) := by
  unfold Scan.check
  split_ifs with hverify
  · exact Scan.next_tally htally hslot (not_torn_of_checksumOk hcommitted hverify)
  · exact htally

/-! ### The run -/

/-- A store to the state byte of a slot leaves those of later slots alone. -/
theorem Untouched.mark {slot : ℕ} (huntouched : Untouched g start memory slot) (state : UInt8) :
    Untouched g start (store memory (g.recordOffset slot + recState) [state]) (slot + 1) := by
  intro other hlow hother
  have hne := recordOffset_ne (g := g) (Nat.ne_of_gt hlow)
  have hkept : stateByte g (store memory (g.recordOffset slot + recState) [state]) other =
      stateByte g memory other :=
    store_apply_outside (by simp only [List.length_singleton]; omega)
  rw [hkept]
  exact huntouched other (Nat.le_of_succ_le hlow) hother

/-- A step of a recovery that runs alone counts the slot it marks. -/
theorem Recovery.recover_tally (hbetween : Between g hasher start memory) {point : RecoverPoint}
    (hinv : point.Inv g hasher start memory) (htally : point.Tally g hasher start memory) :
    RecoverPoint.TallyTask g hasher start ((Recovery.recover g hasher point).exec memory).2
      ((Recovery.recover g hasher point).exec memory).1 := by
  have hclaimed : claimedSlots g start ≤ g.capacity := Nat.min_le_right _ _
  cases point with
  | loadReserveTail =>
    refine Scan.head_tally ⟨hbetween.claimedSlots_eq, ?_, htally⟩ (Nat.zero_le _)
    exact (Nat.count_zero _).symm
  | loadState scan =>
    obtain ⟨-, hslot⟩ := hinv
    have hstate : memory (g.recordOffset scan.slot + recState) = stateByte g start scan.slot :=
      htally.untouched scan.slot (Nat.le_refl _) (by omega)
    simp only [Recovery.recover, BackendCall.exec, hstate]
    split_ifs with hwriting hcommitted hknown
    · exact htally
    · exact htally
    · refine Scan.next_tally htally hslot fun htorn ↦ ?_
      rcases hknown with hfree | habandoned
      · exact htorn.2.1 hfree
      · exact htorn.2.2.1 habandoned
    · exact htally
  | storeAbandoned scan =>
    exact ⟨htally.slotsToScan, htally.count, htally.untouched.mark stateAbandoned⟩
  | flushAbandoned scan =>
    obtain ⟨hscan, hcount, huntouched⟩ := htally
    exact Scan.nextAbandoned_tally hscan hcount huntouched hinv.2.1
  | loadTerm scan => exact htally
  | loadIndex scan term => exact htally
  | readDataLen scan term index => exact htally
  | loadChecksum scan term index dataLen =>
    obtain ⟨-, hslot, hcommitted, hterm, hindex, hlength⟩ := hinv
    have hchecksum : loadWord memory (g.recordOffset scan.slot + recChecksum) 8 = _ :=
      hbetween.loadWord_record (by omega) (by decide) (by decide)
    have hpayload : min dataLen g.payloadSize = payloadLength g start scan.slot := by
      rw [hlength, payloadLength]
    simp only [Recovery.recover, BackendCall.exec, hchecksum, hpayload]
    split_ifs with hsome
    · exact htally
    · have hcheck := Scan.check_tally htally hslot hcommitted
      rw [Nat.eq_zero_of_not_pos hsome] at hcheck
      rw [hterm, hindex]
      exact hcheck
  | readPayload scan term index payloadLen storedChecksum =>
    obtain ⟨-, hslot, hcommitted, rfl, rfl, rfl, rfl⟩ := hinv
    have hpayload := hbetween.load_payload (by omega : scan.slot < g.capacity)
    simp only [Recovery.recover, BackendCall.exec, hpayload]
    exact Scan.check_tally htally hslot hcommitted
  | sweep scan point =>
    simp only [Recovery.recover, BackendCall.exec_map]
    cases ((Recovery.advanceCommittedTail g point).exec memory).1 with
    | running next => exact htally
    | returned committedTail => exact htally

/-- A recovery that runs alone returns, with the report read off the memory at the start. -/
theorem exists_recovered_report (g : PoolGeometry) (hasher : Hasher) (start : Memory) :
    ∃ memory, (recoverMachine g hasher).Ends ((recoverMachine g hasher).start ()) start
      (.returned (recoveryReport g hasher start)) memory ∧ Recovered g hasher start memory := by
  have hstep : ∀ task memory, (Between g hasher start memory ∧
      RecoverPoint.InvTask g hasher start memory task ∧
        RecoverPoint.TallyTask g hasher start memory task) →
      ¬ (∃ report, task = .returned report) →
      (Between g hasher start ((recoverMachine g hasher).step task memory).2 ∧
        RecoverPoint.InvTask g hasher start ((recoverMachine g hasher).step task memory).2
          ((recoverMachine g hasher).step task memory).1 ∧
        RecoverPoint.TallyTask g hasher start ((recoverMachine g hasher).step task memory).2
          ((recoverMachine g hasher).step task memory).1) ∧
      RecoverPoint.remainingTask g ((recoverMachine g hasher).step task memory).2
          ((recoverMachine g hasher).step task memory).1 <
        RecoverPoint.remainingTask g memory task := by
    rintro (point | report) memory ⟨hbetween, hinv, htally⟩ hrunning
    · obtain ⟨hbetween', -, hinv'⟩ := Recovery.recover_inv hbetween hinv
      exact ⟨⟨hbetween', hinv', Recovery.recover_tally hbetween hinv htally⟩,
        Recovery.recover_remaining hinv⟩
    · exact absurd ⟨report, rfl⟩ hrunning
  have hinit : Between g hasher start start ∧
      RecoverPoint.InvTask g hasher start start ((recoverMachine g hasher).start ()) ∧
        RecoverPoint.TallyTask g hasher start start ((recoverMachine g hasher).start ()) :=
    ⟨Between.refl start, trivial, fun _ _ _ ↦ rfl⟩
  obtain ⟨count, ⟨report, hreport⟩, hbetween, hinv, htally⟩ := exists_halted_solo
    (fun task ↦ ∃ report, task = Task.returned report)
    (fun task memory ↦ Between g hasher start memory ∧
      RecoverPoint.InvTask g hasher start memory task ∧
        RecoverPoint.TallyTask g hasher start memory task)
    (fun task memory ↦ RecoverPoint.remainingTask g memory task) hstep hinit
  rw [hreport] at hinv htally
  obtain ⟨hmarked, -, htail, hfinal⟩ := hinv
  obtain ⟨hscanned, hcount⟩ := htally
  have hsame : report = recoveryReport g hasher start := by
    cases report
    simp only [recoveryReport, RecoveryReport.mk.injEq]
    exact ⟨hcount, htail, hscanned⟩
  exact ⟨_, ⟨count, Prod.ext (hsame ▸ hreport) rfl⟩, hbetween, hmarked, hfinal⟩

end Fence
