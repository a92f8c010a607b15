import Fence.Protocol.RecoveryOutcome

/-!
# Runs of recovery

What a recovery in flight has done so far is `RecoverPoint.Inv`, on memories between the start and
the end. A step of any recovery keeps what the others have done (`Keeps`), and of a recovery that
runs alone it decreases the steps that remain (`Recovery.recover_remaining`).
-/

set_option autoImplicit false
set_option relaxedAutoImplicit false

namespace Fence

open ByteMemory FirstGap Interleaving

variable (g : PoolGeometry) (hasher : Hasher)

/-- Any number of `recover` calls on one memory. -/
def recoverMachine : Machine Unit (Task RecoverPoint RecoveryReport) Memory Empty where
  start := fun _ ↦ .running .loadReserveTail
  step := fun task memory ↦
    match task with
    | .running point => (Recovery.recover g hasher point).exec memory
    | .returned report => (.returned report, memory)
  env := fun event _ ↦ event.elim

variable {g hasher} {start memory : Memory}

/-! ### What a recovery has done -/

section Inv

variable (g hasher) (start memory : Memory)

/-- A sweep works between the tail at the start and the final tail. -/
def SweepPoint.Inv : SweepPoint → Prop
  | .loadTail => True
  | .loadState currentTail newTail =>
    loadWord start hdrCommittedTail 8 ≤ currentTail ∧ currentTail ≤ newTail ∧
      newTail ≤ finalTail g hasher start ∧ newTail < g.capacity ∧
      (currentTail = finalTail g hasher start →
        loadWord memory hdrCommittedTail 8 = finalTail g hasher start)
  | .compareExchange currentTail newTail =>
    currentTail ≠ newTail ∧ newTail = finalTail g hasher start

/-- A sweep returns the final tail, after it was stored. -/
def SweepPoint.InvTask : Task SweepPoint ℕ → Prop
  | .running point => point.Inv g hasher start memory
  | .returned committedTail => committedTail = finalTail g hasher start ∧
      loadWord memory hdrCommittedTail 8 = finalTail g hasher start

/-- A recovery has marked the torn slots it passed, and counted none where there are none. -/
structure Scan.Inv (scan : Scan) : Prop where
  slotsToScan : scan.slotsToScan = claimedSlots g start
  marked : Marked g hasher start memory scan.slot
  clean : (∀ slot, ¬ Torn g hasher start slot) → scan.abandonedCount = 0

/-- What a recovery has done and loaded at a point. -/
def RecoverPoint.Inv : RecoverPoint → Prop
  | .loadReserveTail => True
  | .loadState scan =>
    scan.Inv g hasher start memory ∧ scan.slot < claimedSlots g start
  | .storeAbandoned scan =>
    scan.Inv g hasher start memory ∧ Torn g hasher start scan.slot
  | .flushAbandoned scan =>
    scan.Inv g hasher start memory ∧ Torn g hasher start scan.slot ∧
      stateByte g memory scan.slot = stateAbandoned
  | .loadTerm scan =>
    scan.Inv g hasher start memory ∧ scan.slot < claimedSlots g start ∧
      stateByte g start scan.slot = stateCommitted
  | .loadIndex scan term =>
    scan.Inv g hasher start memory ∧ scan.slot < claimedSlots g start ∧
      stateByte g start scan.slot = stateCommitted ∧
      term = loadWord start (g.recordOffset scan.slot + recTerm) 8
  | .readDataLen scan term index =>
    scan.Inv g hasher start memory ∧ scan.slot < claimedSlots g start ∧
      stateByte g start scan.slot = stateCommitted ∧
      term = loadWord start (g.recordOffset scan.slot + recTerm) 8 ∧
      index = loadWord start (g.recordOffset scan.slot + recIndex) 8
  | .loadChecksum scan term index dataLen =>
    scan.Inv g hasher start memory ∧ scan.slot < claimedSlots g start ∧
      stateByte g start scan.slot = stateCommitted ∧
      term = loadWord start (g.recordOffset scan.slot + recTerm) 8 ∧
      index = loadWord start (g.recordOffset scan.slot + recIndex) 8 ∧
      dataLen = leValue (load start (g.recordOffset scan.slot + recDataLen) 4)
  | .readPayload scan term index payloadLen storedChecksum =>
    scan.Inv g hasher start memory ∧ scan.slot < claimedSlots g start ∧
      stateByte g start scan.slot = stateCommitted ∧
      term = loadWord start (g.recordOffset scan.slot + recTerm) 8 ∧
      index = loadWord start (g.recordOffset scan.slot + recIndex) 8 ∧
      payloadLen = payloadLength g start scan.slot ∧
      storedChecksum = loadWord start (g.recordOffset scan.slot + recChecksum) 8
  | .sweep scan point =>
    Marked g hasher start memory (claimedSlots g start) ∧
      ((∀ slot, ¬ Torn g hasher start slot) → scan.abandonedCount = 0) ∧
      point.Inv g hasher start memory

/-- What a recovery has done, at a point or when it returned. -/
def RecoverPoint.InvTask : Task RecoverPoint RecoveryReport → Prop
  | .running point => point.Inv g hasher start memory
  | .returned report =>
    Marked g hasher start memory (claimedSlots g start) ∧
      ((∀ slot, ¬ Torn g hasher start slot) → report.abandonedCount = 0) ∧
      report.committedTail = finalTail g hasher start ∧
      loadWord memory hdrCommittedTail 8 = finalTail g hasher start

/-- Marks and the final tail stay. -/
structure Keeps (later : Memory) : Prop where
  marked : ∀ slot < g.capacity, stateByte g memory slot = stateAbandoned →
    stateByte g later slot = stateAbandoned
  tail : loadWord memory hdrCommittedTail 8 = finalTail g hasher start →
    loadWord later hdrCommittedTail 8 = finalTail g hasher start

end Inv

section Mono

variable {later : Memory}

theorem Keeps.refl (memory : Memory) : Keeps g hasher start memory memory :=
  ⟨fun _ _ h ↦ h, fun h ↦ h⟩

theorem Marked.mono (hkeeps : Keeps g hasher start memory later) {bound : ℕ}
    (hmarked : Marked g hasher start memory bound) : Marked g hasher start later bound :=
  fun slot hslot htorn ↦ hkeeps.marked slot htorn.lt_capacity (hmarked slot hslot htorn)

theorem SweepPoint.Inv.mono (hkeeps : Keeps g hasher start memory later) {point : SweepPoint}
    (hinv : point.Inv g hasher start memory) : point.Inv g hasher start later := by
  cases point with
  | loadTail => trivial
  | loadState currentTail newTail =>
    obtain ⟨hlow, hle, hfinal, hroom, htail⟩ := hinv
    exact ⟨hlow, hle, hfinal, hroom, fun hsame ↦ hkeeps.tail (htail hsame)⟩
  | compareExchange currentTail newTail => exact hinv

theorem Scan.Inv.mono (hkeeps : Keeps g hasher start memory later) {scan : Scan}
    (hinv : scan.Inv g hasher start memory) : scan.Inv g hasher start later :=
  ⟨hinv.slotsToScan, hinv.marked.mono hkeeps, hinv.clean⟩

theorem RecoverPoint.InvTask.mono (hkeeps : Keeps g hasher start memory later)
    {task : Task RecoverPoint RecoveryReport}
    (hinv : RecoverPoint.InvTask g hasher start memory task) :
    RecoverPoint.InvTask g hasher start later task := by
  match task with
  | .running .loadReserveTail => trivial
  | .running (.flushAbandoned scan) =>
    obtain ⟨hscan, htorn, hstate⟩ := hinv
    exact ⟨hscan.mono hkeeps, htorn, hkeeps.marked _ htorn.lt_capacity hstate⟩
  | .running (.sweep scan point) =>
    obtain ⟨hmarked, hclean, hpoint⟩ := hinv
    exact ⟨hmarked.mono hkeeps, hclean, hpoint.mono hkeeps⟩
  | .returned report =>
    obtain ⟨hmarked, hclean, hreport, htail⟩ := hinv
    exact ⟨hmarked.mono hkeeps, hclean, hreport, hkeeps.tail htail⟩
  | .running (.loadState _) => exact ⟨hinv.1.mono hkeeps, hinv.2⟩
  | .running (.storeAbandoned _) => exact ⟨hinv.1.mono hkeeps, hinv.2⟩
  | .running (.loadTerm _) => exact ⟨hinv.1.mono hkeeps, hinv.2⟩
  | .running (.loadIndex _ _) => exact ⟨hinv.1.mono hkeeps, hinv.2⟩
  | .running (.readDataLen _ _ _) => exact ⟨hinv.1.mono hkeeps, hinv.2⟩
  | .running (.loadChecksum _ _ _ _) => exact ⟨hinv.1.mono hkeeps, hinv.2⟩
  | .running (.readPayload _ _ _ _ _) => exact ⟨hinv.1.mono hkeeps, hinv.2⟩

end Mono

/-! ### Steps of the sweep -/

/-- What a sweep sees once every torn slot is marked. -/
theorem Between.committed_iff (hbetween : Between g hasher start memory)
    (hmarked : Marked g hasher start memory (claimedSlots g start)) {slot : ℕ}
    (hslot : slot < g.capacity) :
    stateByte g memory slot = stateCommitted ↔ Kept g hasher start slot := by
  constructor
  · intro hcommitted
    have hnot : ¬ Torn g hasher start slot := by
      intro htorn
      have habandoned := hmarked slot htorn.1 htorn
      rw [hcommitted] at habandoned
      exact absurd habandoned (by decide)
    rcases hbetween.state slot hslot with hsame | ⟨htorn, -⟩
    · exact ⟨hsame.symm.trans hcommitted, hnot⟩
    · exact absurd htorn hnot
  · rintro ⟨hcommitted, hnot⟩
    rcases hbetween.state slot hslot with hsame | ⟨htorn, -⟩
    · exact hsame.trans hcommitted
    · exact absurd htorn hnot

theorem SweepPoint.settle_inv {currentTail newTail : ℕ}
    (hnew : newTail = finalTail g hasher start)
    (hcurrent : currentTail = finalTail g hasher start →
      loadWord memory hdrCommittedTail 8 = finalTail g hasher start) :
    SweepPoint.InvTask g hasher start memory (SweepPoint.settle currentTail newTail) := by
  unfold SweepPoint.settle
  split_ifs with hsame
  · have hfinal := hsame.symm.trans hnew
    exact ⟨hfinal, hcurrent hfinal⟩
  · exact ⟨Ne.symm hsame, hnew⟩

theorem SweepPoint.scanFrom_inv {currentTail newTail : ℕ}
    (hlow : loadWord start hdrCommittedTail 8 ≤ currentTail) (hle : currentTail ≤ newTail)
    (hfinal : newTail ≤ finalTail g hasher start)
    (hfull : g.capacity ≤ newTail → newTail = finalTail g hasher start)
    (hcurrent : currentTail = finalTail g hasher start →
      loadWord memory hdrCommittedTail 8 = finalTail g hasher start) :
    SweepPoint.InvTask g hasher start memory (SweepPoint.scanFrom g currentTail newTail) := by
  unfold SweepPoint.scanFrom
  split_ifs with hroom
  · exact ⟨hlow, hle, hfinal, hroom, hcurrent⟩
  · exact SweepPoint.settle_inv (hfull (Nat.le_of_not_lt hroom)) hcurrent

/-- A step of a sweep leaves the memory as it is or stores the final tail. -/
theorem Recovery.advanceCommittedTail_inv (hbetween : Between g hasher start memory)
    (hmarked : Marked g hasher start memory (claimedSlots g start)) {point : SweepPoint}
    (hinv : point.Inv g hasher start memory) :
    (((Recovery.advanceCommittedTail g point).exec memory).2 = memory ∨
      ((Recovery.advanceCommittedTail g point).exec memory).2 =
        storeWord memory hdrCommittedTail 8 (finalTail g hasher start)) ∧
      SweepPoint.InvTask g hasher start ((Recovery.advanceCommittedTail g point).exec memory).2
        ((Recovery.advanceCommittedTail g point).exec memory).1 := by
  have hstart : loadWord start hdrCommittedTail 8 ≤ finalTail g hasher start := tail_le_finalTail
  have hend : finalTail g hasher start ≤ max (loadWord start hdrCommittedTail 8) g.capacity :=
    finalTail_le
  cases point with
  | loadTail =>
    refine ⟨Or.inl rfl, ?_⟩
    simp only [Recovery.advanceCommittedTail, BackendCall.exec]
    have hfull : g.capacity ≤ loadWord start hdrCommittedTail 8 →
        loadWord start hdrCommittedTail 8 = finalTail g hasher start := fun hbound ↦
      (finalTail_of_le hbound).symm
    rcases hbetween.tail with htail | htail
    · rw [htail]
      exact SweepPoint.scanFrom_inv (Nat.le_refl _) (Nat.le_refl _) hstart hfull htail.trans
    · rw [htail]
      exact SweepPoint.scanFrom_inv hstart (Nat.le_refl _) (Nat.le_refl _) (fun _ ↦ rfl)
        fun _ ↦ htail
  | loadState currentTail newTail =>
    obtain ⟨hlow, hle, hfinal, hroom, hcurrent⟩ := hinv
    refine ⟨Or.inl rfl, ?_⟩
    simp only [Recovery.advanceCommittedTail, BackendCall.exec,
      asU32_of_lt hroom (Nat.le_of_lt g.capacity_lt)]
    split_ifs with hstate
    · -- a slot that is not committed is where the scan of the final states ends too
      refine SweepPoint.settle_inv ?_ hcurrent
      by_contra hbefore
      have hkept := kept_of_lt_finalTail (Nat.le_trans hlow hle)
        (Nat.lt_of_le_of_ne hfinal hbefore)
      exact hstate ((hbetween.committed_iff hmarked hroom).mpr hkept)
    · have hkept := (hbetween.committed_iff hmarked hroom).mp (not_not.mp hstate)
      have hnext : newTail ≠ finalTail g hasher start := by
        intro hsame
        rw [hsame] at hroom hkept
        exact not_kept_finalTail hroom hkept
      exact SweepPoint.scanFrom_inv hlow (by omega) (by omega) (fun hfull ↦ by omega) hcurrent
  | compareExchange currentTail newTail =>
    obtain ⟨-, hnew⟩ := hinv
    by_cases hsame : loadWord memory hdrCommittedTail 8 = currentTail
    · rw [← hnew]
      simp only [Recovery.advanceCommittedTail, BackendCall.exec, if_pos hsame]
      refine ⟨Or.inr trivial, hnew, ?_⟩
      rw [loadWord_storeWord_self, hnew]
      exact Nat.mod_eq_of_lt finalTail_lt
    · simp only [Recovery.advanceCommittedTail, BackendCall.exec, if_neg hsame]
      exact ⟨Or.inl trivial, trivial⟩

/-! ### Steps of the scan -/

theorem Keeps.mark {slot : ℕ} :
    Keeps g hasher start memory
      (store memory (g.recordOffset slot + recState) [stateAbandoned]) where
  marked := by
    intro other _ habandoned
    by_cases hsame : other = slot
    · subst hsame
      simp [stateByte, store]
    · have hne := recordOffset_ne (g := g) hsame
      rw [stateByte, store_apply_outside (by simp only [List.length_singleton]; omega)]
      exact habandoned
  tail := by
    intro htail
    have hheader := g.headerSize_le_recordOffset slot
    have hsize : headerSize = 64 := rfl
    have hcommitted : hdrCommittedTail = 32 := rfl
    rw [loadWord_store_outside (by omega)]
    exact htail

theorem Keeps.publish :
    Keeps g hasher start memory
      (storeWord memory hdrCommittedTail 8 (finalTail g hasher start)) where
  marked := by
    intro slot _ habandoned
    have hheader := g.headerSize_le_recordOffset slot
    have hsize : headerSize = 64 := rfl
    have hcommitted : hdrCommittedTail = 32 := rfl
    rw [stateByte, storeWord, store_apply_outside (by rw [length_leBytes]; omega)]
    exact habandoned
  tail := by
    intro _
    rw [loadWord_storeWord_self]
    exact Nat.mod_eq_of_lt finalTail_lt

theorem Scan.head_inv {scan : Scan} (hinv : scan.Inv g hasher start memory) :
    RecoverPoint.InvTask g hasher start memory scan.head := by
  have hclaimed : claimedSlots g start ≤ g.capacity := Nat.min_le_right _ _
  have hcapacity := g.capacity_lt
  unfold Scan.head
  rw [hinv.slotsToScan, asU32_of_lt (Nat.lt_of_le_of_lt hclaimed hcapacity) (Nat.le_refl _)]
  split_ifs with hslot
  · exact ⟨hinv, hslot⟩
  · exact ⟨fun slot hless ↦ hinv.marked slot (by omega), hinv.clean, trivial⟩

theorem Scan.next_inv {scan : Scan} (hinv : scan.Inv g hasher start memory)
    (hmark : Torn g hasher start scan.slot → stateByte g memory scan.slot = stateAbandoned) :
    RecoverPoint.InvTask g hasher start memory scan.next := by
  refine Scan.head_inv ⟨hinv.slotsToScan, ?_, hinv.clean⟩
  intro slot hslot htorn
  rcases Nat.lt_succ_iff_lt_or_eq.mp hslot with hbelow | rfl
  · exact hinv.marked slot hbelow htorn
  · exact hmark htorn

theorem Scan.nextAbandoned_inv {scan : Scan} (hinv : scan.Inv g hasher start memory)
    (htorn : Torn g hasher start scan.slot)
    (hmark : stateByte g memory scan.slot = stateAbandoned) :
    RecoverPoint.InvTask g hasher start memory scan.nextAbandoned := by
  refine Scan.head_inv ⟨hinv.slotsToScan, ?_, fun hnone ↦ absurd htorn (hnone _)⟩
  intro slot hslot htorn
  rcases Nat.lt_succ_iff_lt_or_eq.mp hslot with hbelow | rfl
  · exact hinv.marked slot hbelow htorn
  · exact hmark

/-- The checksum test decides whether a committed record is torn. -/
theorem Scan.check_inv {scan : Scan} (hinv : scan.Inv g hasher start memory)
    (hslot : scan.slot < claimedSlots g start)
    (hcommitted : stateByte g start scan.slot = stateCommitted) :
    RecoverPoint.InvTask g hasher start memory
      (scan.check hasher (loadWord start (g.recordOffset scan.slot + recTerm) 8)
        (loadWord start (g.recordOffset scan.slot + recIndex) 8)
        (load start (g.recordOffset scan.slot + recordMetaSize) (payloadLength g start scan.slot))
        (loadWord start (g.recordOffset scan.slot + recChecksum) 8)) := by
  unfold Scan.check
  split_ifs with hverify
  · exact Scan.next_inv hinv fun htorn ↦ absurd htorn (not_torn_of_checksumOk hcommitted hverify)
  · have htorn : Torn g hasher start scan.slot := by
      refine ⟨hslot, ?_, ?_, fun _ ↦ Bool.eq_false_iff.mpr hverify⟩
      · rw [hcommitted]
        decide
      · rw [hcommitted]
        decide
    exact ⟨hinv, htorn⟩

/-- A step of a recovery stays between the start and the end, and keeps what others rely on. -/
theorem Recovery.recover_inv (hbetween : Between g hasher start memory) {point : RecoverPoint}
    (hinv : point.Inv g hasher start memory) :
    Between g hasher start ((Recovery.recover g hasher point).exec memory).2 ∧
      Keeps g hasher start memory ((Recovery.recover g hasher point).exec memory).2 ∧
      RecoverPoint.InvTask g hasher start ((Recovery.recover g hasher point).exec memory).2
        ((Recovery.recover g hasher point).exec memory).1 := by
  have hclaimed : claimedSlots g start ≤ g.capacity := Nat.min_le_right _ _
  cases point with
  | loadReserveTail =>
    refine ⟨hbetween, Keeps.refl _, ?_⟩
    exact Scan.head_inv ⟨hbetween.claimedSlots_eq, fun slot hslot ↦
      absurd hslot (Nat.not_lt_zero _), fun _ ↦ rfl⟩
  | loadState scan =>
    obtain ⟨hscan, hslot⟩ := hinv
    have hstate := hbetween.state scan.slot (by omega)
    refine ⟨hbetween, Keeps.refl _, ?_⟩
    simp only [Recovery.recover, BackendCall.exec]
    have htorn : ∀ {state : UInt8}, stateByte g memory scan.slot = state → state ≠ stateFree →
        state ≠ stateAbandoned → state ≠ stateCommitted → Torn g hasher start scan.slot := by
      rintro state hload hfree habandoned hcommitted
      rcases hstate with hsame | ⟨htorn, -⟩
      · rw [hload] at hsame
        exact ⟨hslot, hsame ▸ hfree, hsame ▸ habandoned, fun h ↦ absurd (hsame.trans h) hcommitted⟩
      · exact htorn
    split_ifs with hwriting hcommitted hknown
    · exact ⟨hscan, htorn hwriting (by decide) (by decide) (by decide)⟩
    · refine ⟨hscan, hslot, ?_⟩
      rcases hstate with hsame | ⟨-, habandoned⟩
      · exact hsame.symm.trans hcommitted
      · exact absurd (habandoned.symm.trans hcommitted) (by decide)
    · refine Scan.next_inv hscan fun htorn ↦ ?_
      rcases hstate with hsame | ⟨-, habandoned⟩
      · rcases hknown with hfree | habandoned
        · exact absurd (hsame.symm.trans hfree) htorn.2.1
        · exact habandoned
      · exact habandoned
    · rw [not_or] at hknown
      exact ⟨hscan, htorn rfl hknown.1 hknown.2 hcommitted⟩
  | storeAbandoned scan =>
    obtain ⟨hscan, htorn⟩ := hinv
    exact ⟨hbetween.mark htorn, Keeps.mark, hscan.mono Keeps.mark, htorn,
      by simp [Recovery.recover, BackendCall.exec, stateByte, store]⟩
  | flushAbandoned scan =>
    obtain ⟨hscan, htorn, hmark⟩ := hinv
    exact ⟨hbetween, Keeps.refl _, Scan.nextAbandoned_inv hscan htorn hmark⟩
  | loadTerm scan =>
    obtain ⟨hscan, hslot, hcommitted⟩ := hinv
    exact ⟨hbetween, Keeps.refl _, hscan, hslot, hcommitted,
      hbetween.loadWord_record (by omega) (by decide) (by decide)⟩
  | loadIndex scan term =>
    obtain ⟨hscan, hslot, hcommitted, hterm⟩ := hinv
    exact ⟨hbetween, Keeps.refl _, hscan, hslot, hcommitted, hterm,
      hbetween.loadWord_record (by omega) (by decide) (by decide)⟩
  | readDataLen scan term index =>
    obtain ⟨hscan, hslot, hcommitted, hterm, hindex⟩ := hinv
    exact ⟨hbetween, Keeps.refl _, hscan, hslot, hcommitted, hterm, hindex,
      congrArg leValue (hbetween.load_record (by omega) (by decide)
        (Nat.le_trans (by decide : recDataLen + 4 ≤ recordMetaSize)
          PoolGeometry.recordMetaSize_le))⟩
  | loadChecksum scan term index dataLen =>
    obtain ⟨hscan, hslot, hcommitted, hterm, hindex, hlength⟩ := hinv
    have hchecksum : loadWord memory (g.recordOffset scan.slot + recChecksum) 8 = _ :=
      hbetween.loadWord_record (by omega) (by decide) (by decide)
    refine ⟨hbetween, Keeps.refl _, ?_⟩
    simp only [Recovery.recover, BackendCall.exec, hchecksum]
    have hpayload : min dataLen g.payloadSize = payloadLength g start scan.slot := by
      rw [hlength, payloadLength]
    rw [hpayload]
    split_ifs with hsome
    · exact ⟨hscan, hslot, hcommitted, hterm, hindex, rfl, rfl⟩
    · have hcheck := Scan.check_inv hscan hslot hcommitted
      rw [Nat.eq_zero_of_not_pos hsome] at hcheck
      rw [hterm, hindex]
      exact hcheck
  | readPayload scan term index payloadLen storedChecksum =>
    obtain ⟨hscan, hslot, hcommitted, rfl, rfl, rfl, rfl⟩ := hinv
    have hpayload := hbetween.load_payload (by omega : scan.slot < g.capacity)
    refine ⟨hbetween, Keeps.refl _, ?_⟩
    simp only [Recovery.recover, BackendCall.exec, hpayload]
    exact Scan.check_inv hscan hslot hcommitted
  | sweep scan point =>
    obtain ⟨hmarked, hclean, hpoint⟩ := hinv
    obtain ⟨hmemory, htask⟩ := Recovery.advanceCommittedTail_inv hbetween hmarked hpoint
    simp only [Recovery.recover, BackendCall.exec_map]
    have hkeeps : Keeps g hasher start memory
        ((Recovery.advanceCommittedTail g point).exec memory).2 := by
      rcases hmemory with hsame | hpublished
      · rw [hsame]
        exact Keeps.refl _
      · rw [hpublished]
        exact Keeps.publish
    refine ⟨?_, hkeeps, ?_⟩
    · rcases hmemory with hsame | hpublished
      · rw [hsame]
        exact hbetween
      · rw [hpublished]
        exact hbetween.publish
    · cases hnext : ((Recovery.advanceCommittedTail g point).exec memory).1 with
      | running next =>
        rw [hnext] at htask
        exact ⟨hmarked.mono hkeeps, hclean, htask⟩
      | returned committedTail =>
        rw [hnext] at htask
        exact ⟨hmarked.mono hkeeps, hclean, htask⟩

/-! ### Termination -/

section Measure

variable (g) (memory : Memory)

/-- The steps a sweep may still take. A sweep that started from a tail that has moved since
starts over. -/
def SweepPoint.remaining : SweepPoint → ℕ
  | .loadTail => g.capacity + 3
  | .loadState currentTail newTail =>
    (g.capacity - newTail) + 2 +
      if currentTail = loadWord memory hdrCommittedTail 8 then 0 else g.capacity + 3
  | .compareExchange currentTail _ =>
    1 + if currentTail = loadWord memory hdrCommittedTail 8 then 0 else g.capacity + 3

def SweepPoint.remainingTask : Task SweepPoint ℕ → ℕ
  | .running point => point.remaining g memory
  | .returned _ => 0

/-- The steps the slots from one on may still take. -/
def Scan.remaining (scan : Scan) (stage : ℕ) : ℕ :=
  (scan.slotsToScan - scan.slot) * 8 - stage + (g.capacity + 4)

/-- The steps a recovery may still take. -/
def RecoverPoint.remaining : RecoverPoint → ℕ
  | .loadReserveTail => g.capacity * 8 + (g.capacity + 5)
  | .loadState scan => scan.remaining g 0
  | .loadTerm scan => scan.remaining g 1
  | .loadIndex scan _ => scan.remaining g 2
  | .readDataLen scan _ _ => scan.remaining g 3
  | .loadChecksum scan _ _ _ => scan.remaining g 4
  | .readPayload scan _ _ _ _ => scan.remaining g 5
  | .storeAbandoned scan => scan.remaining g 6
  | .flushAbandoned scan => scan.remaining g 7
  | .sweep _ point => point.remaining g memory

def RecoverPoint.remainingTask : Task RecoverPoint RecoveryReport → ℕ
  | .running point => point.remaining g memory
  | .returned _ => 0

end Measure

theorem SweepPoint.settle_remaining {currentTail newTail : ℕ} :
    SweepPoint.remainingTask g memory (SweepPoint.settle currentTail newTail) ≤
      1 + if currentTail = loadWord memory hdrCommittedTail 8 then 0 else g.capacity + 3 := by
  unfold SweepPoint.settle
  split_ifs <;> simp_all [SweepPoint.remainingTask, SweepPoint.remaining]

theorem SweepPoint.scanFrom_remaining {currentTail newTail : ℕ} :
    SweepPoint.remainingTask g memory (SweepPoint.scanFrom g currentTail newTail) ≤
      (g.capacity - newTail) + 2 +
        if currentTail = loadWord memory hdrCommittedTail 8 then 0 else g.capacity + 3 := by
  unfold SweepPoint.scanFrom
  by_cases hroom : newTail < g.capacity
  · rw [if_pos hroom]
    exact Nat.le_refl _
  · rw [if_neg hroom]
    refine Nat.le_trans SweepPoint.settle_remaining ?_
    omega

theorem Recovery.advanceCommittedTail_remaining {point : SweepPoint}
    (hinv : point.Inv g hasher start memory) :
    SweepPoint.remainingTask g ((Recovery.advanceCommittedTail g point).exec memory).2
        ((Recovery.advanceCommittedTail g point).exec memory).1 < point.remaining g memory := by
  cases point with
  | loadTail =>
    simp only [Recovery.advanceCommittedTail, BackendCall.exec]
    refine Nat.lt_of_le_of_lt SweepPoint.scanFrom_remaining ?_
    rw [if_pos rfl, SweepPoint.remaining]
    omega
  | loadState currentTail newTail =>
    obtain ⟨-, -, -, hroom, -⟩ := hinv
    simp only [Recovery.advanceCommittedTail, BackendCall.exec]
    split_ifs with hstate
    · refine Nat.lt_of_le_of_lt SweepPoint.settle_remaining ?_
      simp only [SweepPoint.remaining]
      omega
    · refine Nat.lt_of_le_of_lt SweepPoint.scanFrom_remaining ?_
      simp only [SweepPoint.remaining]
      omega
  | compareExchange currentTail newTail =>
    by_cases hsame : loadWord memory hdrCommittedTail 8 = currentTail
    · simp only [Recovery.advanceCommittedTail, BackendCall.exec, if_pos hsame]
      exact Nat.lt_of_lt_of_le Nat.one_pos (Nat.le_add_right _ _)
    · simp only [Recovery.advanceCommittedTail, BackendCall.exec, if_neg hsame,
        SweepPoint.remainingTask, SweepPoint.remaining, if_neg (Ne.symm hsame)]
      omega

theorem Scan.head_remaining {scan : Scan} :
    RecoverPoint.remainingTask g memory scan.head ≤ scan.remaining g 0 := by
  unfold Scan.head
  split_ifs with hslot
  · exact Nat.le_refl _
  · simp only [RecoverPoint.remainingTask, RecoverPoint.remaining, SweepPoint.remaining,
      Scan.remaining]
    omega

/-- The next slot is further on. -/
theorem Scan.next_remaining {scan : Scan} {stage : ℕ} (hslot : scan.slot < scan.slotsToScan)
    (hstage : stage ≤ 7) :
    RecoverPoint.remainingTask g memory scan.next < scan.remaining g stage := by
  refine Nat.lt_of_le_of_lt Scan.head_remaining ?_
  simp only [Scan.remaining]
  omega

theorem Scan.check_remaining {scan : Scan} {stage : ℕ} (hslot : scan.slot < scan.slotsToScan)
    (hstage : stage ≤ 5) (term index : ℕ) (payload : List UInt8) (storedChecksum : ℕ) :
    RecoverPoint.remainingTask g memory (scan.check hasher term index payload storedChecksum) <
      scan.remaining g stage := by
  unfold Scan.check
  split_ifs
  · exact Scan.next_remaining hslot (by omega)
  · simp only [RecoverPoint.remainingTask, RecoverPoint.remaining, Scan.remaining]
    omega

theorem Scan.Inv.slot_lt {scan : Scan} (hscan : scan.Inv g hasher start memory)
    (hslot : scan.slot < claimedSlots g start) : scan.slot < scan.slotsToScan := by
  rwa [hscan.slotsToScan]

/-- Every step of a recovery that runs alone takes it closer to its return. -/
theorem Recovery.recover_remaining {point : RecoverPoint}
    (hinv : point.Inv g hasher start memory) :
    RecoverPoint.remainingTask g ((Recovery.recover g hasher point).exec memory).2
        ((Recovery.recover g hasher point).exec memory).1 < point.remaining g memory := by
  cases point with
  | loadReserveTail =>
    refine Nat.lt_of_le_of_lt Scan.head_remaining ?_
    have hle : min (loadWord memory hdrReserveTail 8) g.capacity ≤ g.capacity :=
      Nat.min_le_right _ _
    simp only [RecoverPoint.remaining, Scan.remaining]
    omega
  | loadState scan =>
    have hslot := hinv.1.slot_lt hinv.2
    simp only [Recovery.recover, BackendCall.exec]
    split_ifs
    · simp only [RecoverPoint.remainingTask, RecoverPoint.remaining, Scan.remaining]
      omega
    · simp only [RecoverPoint.remainingTask, RecoverPoint.remaining, Scan.remaining]
      omega
    · exact Scan.next_remaining hslot (by omega)
    · simp only [RecoverPoint.remainingTask, RecoverPoint.remaining, Scan.remaining]
      omega
  | storeAbandoned scan =>
    have hslot := hinv.1.slot_lt hinv.2.1
    simp only [Recovery.recover, BackendCall.exec, RecoverPoint.remainingTask,
      RecoverPoint.remaining, Scan.remaining]
    omega
  | flushAbandoned scan =>
    have hslot := hinv.1.slot_lt hinv.2.1.1
    refine Nat.lt_of_le_of_lt Scan.head_remaining ?_
    simp only [RecoverPoint.remaining, Scan.remaining]
    omega
  | loadTerm scan =>
    have hslot := hinv.1.slot_lt hinv.2.1
    simp only [Recovery.recover, BackendCall.exec, RecoverPoint.remainingTask,
      RecoverPoint.remaining, Scan.remaining]
    omega
  | loadIndex scan term =>
    have hslot := hinv.1.slot_lt hinv.2.1
    simp only [Recovery.recover, BackendCall.exec, RecoverPoint.remainingTask,
      RecoverPoint.remaining, Scan.remaining]
    omega
  | readDataLen scan term index =>
    have hslot := hinv.1.slot_lt hinv.2.1
    simp only [Recovery.recover, BackendCall.exec, RecoverPoint.remainingTask,
      RecoverPoint.remaining, Scan.remaining]
    omega
  | loadChecksum scan term index dataLen =>
    have hslot := hinv.1.slot_lt hinv.2.1
    simp only [Recovery.recover, BackendCall.exec]
    split_ifs
    · simp only [RecoverPoint.remainingTask, RecoverPoint.remaining, Scan.remaining]
      omega
    · exact Scan.check_remaining hslot (by omega) _ _ _ _
  | readPayload scan term index payloadLen storedChecksum =>
    have hslot := hinv.1.slot_lt hinv.2.1
    exact Scan.check_remaining hslot (by omega) _ _ _ _
  | sweep scan point =>
    have hless := Recovery.advanceCommittedTail_remaining hinv.2.2
    simp only [Recovery.recover, BackendCall.exec_map]
    cases hnext : ((Recovery.advanceCommittedTail g point).exec memory).1 with
    | running next =>
      rw [hnext] at hless
      exact hless
    | returned committedTail =>
      rw [hnext] at hless
      exact Nat.lt_of_le_of_lt (Nat.zero_le _) hless

end Fence
