import Fence.Library.FirstGap
import Fence.Runtime.Recovery

/-!
# Where recovery leads

What recoveries do to a memory can be read off the memory at the start: `Torn` says which slots
they mark abandoned and `finalTail` where the committed tail ends up. Every memory on the way lies
between the start and the end (`Between`): state bytes of torn slots may already be marked, the
tail may already be moved, and nothing else changes. `Recovered` is the end, and there is only one
(`Recovered.unique`).
-/

set_option autoImplicit false
set_option relaxedAutoImplicit false

namespace Fence

open ByteMemory FirstGap Interleaving

variable (g : PoolGeometry) (hasher : Hasher)

/-! ### Where recovery leads -/

section Start

variable (start : Memory)

/-- The state byte at its address. -/
def stateByte (slot : ℕ) : UInt8 := start (g.recordOffset slot + recState)

/-- The length of the payload a recovery checks. -/
def payloadLength (slot : ℕ) : ℕ :=
  min (leValue (load start (g.recordOffset slot + recDataLen) 4)) g.payloadSize

/-- The checksum of the record in a slot verifies. -/
def checksumOk (slot : ℕ) : Bool :=
  Checksum.verify hasher (loadWord start (g.recordOffset slot + recTerm) 8)
    (loadWord start (g.recordOffset slot + recIndex) 8)
    (load start (g.recordOffset slot + recordMetaSize) (payloadLength g start slot))
    (loadWord start (g.recordOffset slot + recChecksum) 8)

/-- The number of slots a recovery scans. -/
def claimedSlots : ℕ := min (loadWord start hdrReserveTail 8) g.capacity

/-- A claimed slot that is neither free nor abandoned nor holds a valid record. -/
def Torn (slot : ℕ) : Prop :=
  slot < claimedSlots g start ∧ stateByte g start slot ≠ stateFree ∧
    stateByte g start slot ≠ stateAbandoned ∧
    (stateByte g start slot = stateCommitted → checksumOk g hasher start slot = false)

instance : DecidablePred (Torn g hasher start) := fun slot ↦
  inferInstanceAs (Decidable (slot < _ ∧ _ ≠ _ ∧ _ ≠ _ ∧ (_ = _ → _ = _)))

/-- A committed slot that recovery leaves committed. -/
def Kept (slot : ℕ) : Prop := stateByte g start slot = stateCommitted ∧ ¬ Torn g hasher start slot

instance : DecidablePred (Kept g hasher start) := fun _ ↦ inferInstanceAs (Decidable (_ ∧ _))

/-- Where the committed tail ends up. -/
def finalTail : ℕ := firstGap (Kept g hasher start) g.capacity (loadWord start hdrCommittedTail 8)

/-- A memory on the way of recovery. -/
structure Between (memory : Memory) : Prop where
  tail : loadWord memory hdrCommittedTail 8 = loadWord start hdrCommittedTail 8 ∨
    loadWord memory hdrCommittedTail 8 = finalTail g hasher start
  state : ∀ slot < g.capacity, stateByte g memory slot = stateByte g start slot ∨
    Torn g hasher start slot ∧ stateByte g memory slot = stateAbandoned
  other : ∀ address, ¬ (hdrCommittedTail ≤ address ∧ address < hdrCommittedTail + 8) →
    (∀ slot < g.capacity, address ≠ g.recordOffset slot + recState) →
    memory address = start address

/-- The torn slots below a bound are marked. -/
def Marked (memory : Memory) (bound : ℕ) : Prop :=
  ∀ slot < bound, Torn g hasher start slot → stateByte g memory slot = stateAbandoned

/-- A memory that recovery has finished with. -/
structure Recovered (memory : Memory) : Prop where
  between : Between g hasher start memory
  marked : Marked g hasher start memory (claimedSlots g start)
  tail : loadWord memory hdrCommittedTail 8 = finalTail g hasher start

end Start

variable {g hasher} {start memory : Memory}

theorem Torn.lt_capacity {slot : ℕ} (htorn : Torn g hasher start slot) : slot < g.capacity :=
  Nat.lt_of_lt_of_le htorn.1 (Nat.min_le_right _ _)

theorem tail_le_finalTail : loadWord start hdrCommittedTail 8 ≤ finalTail g hasher start :=
  le_firstGap

theorem finalTail_le :
    finalTail g hasher start ≤ max (loadWord start hdrCommittedTail 8) g.capacity := firstGap_le

theorem finalTail_lt : finalTail g hasher start < 2 ^ 64 := by
  have htail : loadWord start hdrCommittedTail 8 < 2 ^ 64 := loadWord_lt _ _ _
  have hcapacity := g.capacity_lt
  have hle : finalTail g hasher start ≤ max (loadWord start hdrCommittedTail 8) g.capacity :=
    finalTail_le
  omega

theorem finalTail_of_le (hbound : g.capacity ≤ loadWord start hdrCommittedTail 8) :
    finalTail g hasher start = loadWord start hdrCommittedTail 8 := firstGap_of_le hbound

theorem kept_of_lt_finalTail {slot : ℕ} (hlow : loadWord start hdrCommittedTail 8 ≤ slot)
    (hhigh : slot < finalTail g hasher start) : Kept g hasher start slot := by
  unfold finalTail at hhigh
  exact holds_of_lt_firstGap hlow hhigh

theorem not_kept_finalTail (hroom : finalTail g hasher start < g.capacity) :
    ¬ Kept g hasher start (finalTail g hasher start) := by
  unfold finalTail at hroom ⊢
  exact not_holds_firstGap hroom

theorem Between.refl (start : Memory) : Between g hasher start start where
  tail := Or.inl rfl
  state := fun _ _ ↦ Or.inl rfl
  other := fun _ _ _ ↦ rfl

/-- The state bytes of different slots lie at different addresses. -/
theorem recordOffset_ne {slot other : ℕ} (hne : slot ≠ other) :
    g.recordOffset slot + recState ≠ g.recordOffset other + recState := by
  have hsize : recordMetaSize ≤ g.recordSize := PoolGeometry.recordMetaSize_le
  have hmeta : recordMetaSize = 64 := rfl
  rcases Nat.lt_or_gt_of_ne hne with hlt | hlt
  · have := PoolGeometry.recordOffset_add_le (g := g) hlt
    omega
  · have := PoolGeometry.recordOffset_add_le (g := g) hlt
    omega

theorem Between.mark (hbetween : Between g hasher start memory) {slot : ℕ}
    (htorn : Torn g hasher start slot) :
    Between g hasher start (store memory (g.recordOffset slot + recState) [stateAbandoned]) := by
  have hheader := g.headerSize_le_recordOffset slot
  have hsize : headerSize = 64 := rfl
  have hcommitted : hdrCommittedTail = 32 := rfl
  have htail : loadWord (store memory (g.recordOffset slot + recState) [stateAbandoned])
      hdrCommittedTail 8 = loadWord memory hdrCommittedTail 8 :=
    loadWord_store_outside (by omega)
  exact
    { tail := by rw [htail]; exact hbetween.tail
      state := by
        intro other hother
        by_cases hsame : other = slot
        · subst hsame
          exact Or.inr ⟨htorn, by simp [stateByte, store]⟩
        · have hne := recordOffset_ne (g := g) hsame
          have hkept : stateByte g (store memory (g.recordOffset slot + recState)
              [stateAbandoned]) other = stateByte g memory other :=
            store_apply_outside (by simp only [List.length_singleton]; omega)
          rw [hkept]
          exact hbetween.state other hother
      other := by
        intro address htail hstate
        have hne := hstate slot htorn.lt_capacity
        rw [store_apply_outside (by simp only [List.length_singleton]; omega)]
        exact hbetween.other address htail hstate }

theorem Between.publish (hbetween : Between g hasher start memory) :
    Between g hasher start (storeWord memory hdrCommittedTail 8 (finalTail g hasher start)) := by
  have hsize : headerSize = 64 := rfl
  have hcommitted : hdrCommittedTail = 32 := rfl
  exact
    { tail := by
        right
        rw [loadWord_storeWord_self]
        exact Nat.mod_eq_of_lt finalTail_lt
      state := by
        intro slot hslot
        have hheader := g.headerSize_le_recordOffset slot
        have hkept : stateByte g (storeWord memory hdrCommittedTail 8
            (finalTail g hasher start)) slot = stateByte g memory slot :=
          store_apply_outside (by rw [length_leBytes]; omega)
        rw [hkept]
        exact hbetween.state slot hslot
      other := by
        intro address htail hstate
        rw [storeWord, store_apply_outside (by rw [length_leBytes]; omega)]
        exact hbetween.other address htail hstate }

/-- The reserve tail does not change. -/
theorem Between.reserveTail_eq (hbetween : Between g hasher start memory) :
    loadWord memory hdrReserveTail 8 = loadWord start hdrReserveTail 8 := by
  have hsize : headerSize = 64 := rfl
  have hcommitted : hdrCommittedTail = 32 := rfl
  have hreserve : hdrReserveTail = 40 := rfl
  refine loadWord_congr (load_congr fun i hi ↦ hbetween.other _ (by omega) fun slot _ ↦ ?_)
  have hheader := g.headerSize_le_recordOffset slot
  omega

/-- The claimed slots do not change. -/
theorem Between.claimedSlots_eq (hbetween : Between g hasher start memory) :
    claimedSlots g memory = claimedSlots g start := by
  rw [claimedSlots, hbetween.reserveTail_eq, claimedSlots]

/-- The fields of a record do not change. -/
theorem Between.load_record (hbetween : Between g hasher start memory) {slot offset length : ℕ}
    (hslot : slot < g.capacity) (hlow : recState < offset)
    (hfits : offset + length ≤ g.recordSize) :
    load memory (g.recordOffset slot + offset) length =
      load start (g.recordOffset slot + offset) length := by
  have hheader := g.headerSize_le_recordOffset slot
  have hsize : headerSize = 64 := rfl
  have hcommitted : hdrCommittedTail = 32 := rfl
  have hstate : recState = 0 := rfl
  refine load_congr fun i hi ↦ hbetween.other _ (by omega) fun other _ ↦ ?_
  rcases Nat.lt_trichotomy other slot with hlt | rfl | hgt
  · have := PoolGeometry.recordOffset_add_le (g := g) hlt
    have := PoolGeometry.recordMetaSize_le (g := g)
    have hmeta : recordMetaSize = 64 := rfl
    omega
  · omega
  · have := PoolGeometry.recordOffset_add_le (g := g) hgt
    omega

/-- A metadata word of a record does not change. -/
theorem Between.loadWord_record (hbetween : Between g hasher start memory) {slot offset : ℕ}
    (hslot : slot < g.capacity) (hlow : recState < offset) (hfits : offset + 8 ≤ recordMetaSize) :
    loadWord memory (g.recordOffset slot + offset) 8 =
      loadWord start (g.recordOffset slot + offset) 8 :=
  loadWord_congr (hbetween.load_record hslot hlow
    (Nat.le_trans hfits PoolGeometry.recordMetaSize_le))

theorem Between.payloadLength_eq (hbetween : Between g hasher start memory) {slot : ℕ}
    (hslot : slot < g.capacity) : payloadLength g memory slot = payloadLength g start slot := by
  rw [payloadLength, payloadLength, hbetween.load_record hslot (by decide)
    (Nat.le_trans (by decide : recDataLen + 4 ≤ recordMetaSize) PoolGeometry.recordMetaSize_le)]

/-- The payload of a record does not change. -/
theorem Between.load_payload (hbetween : Between g hasher start memory) {slot : ℕ}
    (hslot : slot < g.capacity) :
    load memory (g.recordOffset slot + recordMetaSize) (payloadLength g start slot) =
      load start (g.recordOffset slot + recordMetaSize) (payloadLength g start slot) := by
  refine hbetween.load_record hslot (by decide) ?_
  rw [g.recordSize_eq]
  exact Nat.add_le_add_left (Nat.min_le_right _ _) _

/-- A record verifies when it did at the start. -/
theorem Between.checksumOk_eq (hbetween : Between g hasher start memory) {slot : ℕ}
    (hslot : slot < g.capacity) :
    checksumOk g hasher memory slot = checksumOk g hasher start slot := by
  rw [checksumOk, checksumOk, hbetween.payloadLength_eq hslot, hbetween.load_payload hslot,
    hbetween.loadWord_record hslot (by decide) (by decide),
    hbetween.loadWord_record hslot (by decide) (by decide),
    hbetween.loadWord_record hslot (by decide) (by decide)]

/-- A committed slot that verifies is not torn. -/
theorem not_torn_of_checksumOk {slot : ℕ} (hcommitted : stateByte g start slot = stateCommitted)
    (hchecksum : checksumOk g hasher start slot = true) : ¬ Torn g hasher start slot := by
  intro htorn
  rw [htorn.2.2.2 hcommitted] at hchecksum
  cases hchecksum

/-- A recovery marks the torn slots and no other. -/
theorem Recovered.stateByte_eq (hrecovered : Recovered g hasher start memory) {slot : ℕ}
    (hslot : slot < g.capacity) : stateByte g memory slot =
      if Torn g hasher start slot then stateAbandoned else stateByte g start slot := by
  split_ifs with htorn
  · exact hrecovered.marked slot htorn.1 htorn
  · rcases hrecovered.between.state slot hslot with hsame | ⟨htorn', -⟩
    · exact hsame
    · exact absurd htorn' htorn

/-- There is only one memory that recovery ends up with. -/
theorem Recovered.unique {first second : Memory} (hfirst : Recovered g hasher start first)
    (hsecond : Recovered g hasher start second) : first = second := by
  have hbyte : ∀ address, ¬ (hdrCommittedTail ≤ address ∧ address < hdrCommittedTail + 8) →
      first address = second address := by
    intro address htail
    by_cases hrecord : ∃ slot < g.capacity, address = g.recordOffset slot + recState
    · obtain ⟨slot, hslot, rfl⟩ := hrecord
      exact (hfirst.stateByte_eq hslot).trans (hsecond.stateByte_eq hslot).symm
    · push Not at hrecord
      rw [hfirst.between.other address htail hrecord, hsecond.between.other address htail hrecord]
  refine Pool.memory_ext (g := g) (hfirst.tail.trans hsecond.tail.symm) ?_ fun address htail _ ↦
    hbyte address htail
  intro slot hslot offset hoffset
  have hheader := g.headerSize_le_recordOffset slot
  have hsize : headerSize = 64 := rfl
  have hcommitted : hdrCommittedTail = 32 := rfl
  rw [Pool.ofMemory_slot hslot hoffset, Pool.ofMemory_slot hslot hoffset]
  exact hbyte _ (by omega)

/-- The committed slots are those that were kept. -/
theorem Recovered.committed_iff (hrecovered : Recovered g hasher start memory) {slot : ℕ}
    (hslot : slot < g.capacity) :
    stateByte g memory slot = stateCommitted ↔ Kept g hasher start slot := by
  by_cases htorn : Torn g hasher start slot
  · rw [hrecovered.marked slot htorn.1 htorn]
    exact ⟨fun hstate ↦ absurd hstate (by decide), fun hkept ↦ (hkept.2 htorn).elim⟩
  · rcases hrecovered.between.state slot hslot with hsame | ⟨htorn', -⟩
    · rw [hsame]
      exact ⟨fun hstate ↦ ⟨hstate, htorn⟩, And.left⟩
    · exact (htorn htorn').elim

/-- The committed tail has passed a slot when everything from the old tail up to it was kept. -/
theorem Recovered.lt_tail_iff (hrecovered : Recovered g hasher start memory) {slot : ℕ}
    (hslot : slot < g.capacity) :
    slot < loadWord memory hdrCommittedTail 8 ↔
      ∀ between, loadWord start hdrCommittedTail 8 ≤ between → between ≤ slot →
        Kept g hasher start between := by
  rw [hrecovered.tail, finalTail]
  exact lt_firstGap_iff hslot

end Fence
