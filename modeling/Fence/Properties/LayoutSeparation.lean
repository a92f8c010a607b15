import Fence.Core.Config
import Fence.Core.RawGeometry
import Fence.Core.Regions
import Fence.Protocol.Bounds
import Fence.Protocol.Progress

/-!
# Layout separation and frames

For every valid configuration the machine computes the exact geometry, whose regions are disjoint
and fill the pool. Whatever the hosts do from a fresh pool on, every backend call lies in the pool,
and those to a word are aligned. An append changes the tails, the slot it reserved and the counters
of its host, and nothing else (`append_frame`).
-/

set_option autoImplicit false
set_option relaxedAutoImplicit false

namespace Fence

open ByteMemory Interleaving

variable {checked : Bool} {g : PoolGeometry} {hasher : Hasher} {memory : Memory}

/-- The geometry of a valid configuration is exact. -/
theorem FenceConfig.exists_exact {config : FenceConfig} (hvalid : config.validate = .ok ()) :
    ∃ raw, RawGeometry.new config.pool.capacity config.pool.payloadSize config.pool.maxHosts =
      some raw ∧ raw.Exact := by
  obtain ⟨hcapacity, hpayload, hsize, -, hhosts, -, -, -⟩ := config.validate_eq_ok_iff.mp hvalid
  have hnonzero : ¬ (config.pool.capacity = 0 ∨ config.pool.payloadSize = 0 ∨
      config.pool.maxHosts = 0) := by
    rintro (hzero | hzero | hzero)
    · exact absurd (congrArg UInt32.toNat hzero) (Nat.ne_of_gt hcapacity)
    · exact absurd (congrArg UInt32.toNat hzero) (Nat.ne_of_gt hpayload)
    · exact absurd (congrArg UInt16.toNat hzero) (Nat.ne_of_gt hhosts)
  have hnew : RawGeometry.new config.pool.capacity config.pool.payloadSize config.pool.maxHosts =
      some _ := if_neg hnonzero
  refine ⟨_, hnew, (RawGeometry.exact_iff hnew).mpr ?_⟩
  unfold recordMetaSize
  omega

/-! ### The frame of an append -/

/-- The bytes an append may change: those of the tails, of its slot and of the counters of its
host. -/
def AppendFootprint (g : PoolGeometry) (hostId : UInt16) (slot : Option ℕ) (address : ℕ) : Prop :=
  (hdrCommittedTail ≤ address ∧ address < hdrReserveTail + 8) ∨
    (∃ held, slot = some held ∧ g.recordOffset held ≤ address ∧
      address < g.recordOffset held + g.recordSize) ∨
    (g.metricsOffset hostId.toNat ≤ address ∧ address < g.metricsOffset hostId.toNat + cacheline)

section Footprint

variable {Next : Type} {call : BackendCall Next} {hostId : UInt16} {slot : Option ℕ} {address : ℕ}
  (houtside : ¬ AppendFootprint g hostId slot address)

include houtside

/-- A call to one of the tails keeps to the footprint. -/
theorem AppendFootprint.exec_tail (hlow : hdrCommittedTail ≤ call.offset)
    (hhigh : call.offset + call.length ≤ hdrReserveTail + 8) :
    (call.exec memory).2 address = memory address := by
  refine BackendCall.exec_apply_outside ?_
  by_contra hinside
  exact houtside (Or.inl (by omega))

/-- A call to the slot keeps to the footprint. -/
theorem AppendFootprint.exec_slot {held field : ℕ} (hslot : slot = some held)
    (hoffset : call.offset = g.recordOffset held + field)
    (hfits : field + call.length ≤ g.recordSize) :
    (call.exec memory).2 address = memory address := by
  refine BackendCall.exec_apply_outside ?_
  by_contra hinside
  exact houtside (Or.inr (Or.inl ⟨held, hslot, by omega, by omega⟩))

/-- An increment of a counter of the host keeps to the footprint. -/
theorem AppendFootprint.exec_counter {field amount : ℕ} {next : Next}
    (hfield : field ∈ metricsFields) :
    ((Metrics.incrementCounter g field hostId amount next).exec memory).2 address =
      memory address := by
  have hbounds := metricsFields_bounds hfield
  refine BackendCall.exec_apply_outside ?_
  by_contra hinside
  refine houtside (Or.inr (Or.inr ?_))
  simp only [Metrics.incrementCounter, BackendCall.offset, BackendCall.length] at hinside
  omega

/-- A sweep keeps to the footprint. -/
theorem AppendFootprint.exec_sweep {point : SweepPoint} :
    ((Recovery.advanceCommittedTail g point).exec memory).2 address = memory address := by
  cases point with
  | loadTail => rfl
  | loadState currentTail newTail => rfl
  | compareExchange currentTail newTail =>
    exact AppendFootprint.exec_tail houtside (Nat.le_refl _)
      (by decide : hdrCommittedTail + 8 ≤ hdrReserveTail + 8)

end Footprint

/-- A step of an append changes no byte outside its footprint. -/
theorem FenceRuntime.append_frame {entry : Entry} {point : AppendPoint} {address : ℕ}
    (hsize : entry.data.length ≤ g.payloadSize) (hpoint : point.Bounded g)
    (houtside : ¬ AppendFootprint g entry.hostId (point.progress.map Prod.fst) address) :
    ((FenceRuntime.append g hasher entry point).exec memory).2 address = memory address := by
  have hmeta : ∀ {field length : ℕ}, field + length ≤ recordMetaSize →
      field + length ≤ g.recordSize := fun h ↦ h.trans PoolGeometry.recordMetaSize_le
  have hpayload : recordMetaSize + entry.data.length ≤ g.recordSize :=
    g.recordSize_eq ▸ Nat.add_le_add_left hsize _
  cases point with
  | reserve =>
    exact AppendFootprint.exec_tail houtside (by decide : hdrCommittedTail ≤ hdrReserveTail)
      (Nat.le_refl _)
  | undo slot =>
    exact AppendFootprint.exec_tail houtside (by decide : hdrCommittedTail ≤ hdrReserveTail)
      (Nat.le_refl _)
  | countFailed slot => exact AppendFootprint.exec_counter houtside (by decide)
  | storeWriting slot =>
    exact AppendFootprint.exec_slot houtside rfl
      (congrArg (· + recState) (appendOffset_of_lt hpoint)) (hmeta (by decide : recState + 1 ≤ _))
  | storeTerm slot =>
    exact AppendFootprint.exec_slot houtside rfl
      (congrArg (· + recTerm) (appendOffset_of_lt hpoint)) (hmeta (by decide : recTerm + 8 ≤ _))
  | storeIndex slot =>
    exact AppendFootprint.exec_slot houtside rfl
      (congrArg (· + recIndex) (appendOffset_of_lt hpoint)) (hmeta (by decide : recIndex + 8 ≤ _))
  | storeWriterId slot =>
    exact AppendFootprint.exec_slot houtside rfl
      (congrArg (· + recWriterId) (appendOffset_of_lt hpoint))
      (hmeta (by decide : recWriterId + 8 ≤ _))
  | writeDataLen slot =>
    exact AppendFootprint.exec_slot houtside rfl
      (congrArg (· + recDataLen) (appendOffset_of_lt hpoint))
      (hmeta (by decide : recDataLen + 4 ≤ _))
  | writePayload slot =>
    exact AppendFootprint.exec_slot houtside rfl
      (congrArg (· + recordMetaSize) (appendOffset_of_lt hpoint)) hpayload
  | storeChecksum slot =>
    exact AppendFootprint.exec_slot houtside rfl
      (congrArg (· + recChecksum) (appendOffset_of_lt hpoint))
      (hmeta (by decide : recChecksum + 8 ≤ _))
  | flushRecord slot => rfl
  | storeCommitted slot =>
    exact AppendFootprint.exec_slot houtside rfl
      (congrArg (· + recState) (appendOffset_of_lt hpoint)) (hmeta (by decide : recState + 1 ≤ _))
  | flushState slot => rfl
  | sweep slot point =>
    simp only [FenceRuntime.append, BackendCall.exec_map]
    exact AppendFootprint.exec_sweep houtside
  | countAppends slot => exact AppendFootprint.exec_counter houtside (by decide)
  | countBytes slot => exact AppendFootprint.exec_counter houtside (by decide)

/-- What an append changes lies in the footprint of its host and the slot it reserved. -/
def AppendsKeepFrame (checked : Bool) (g : PoolGeometry) (hasher : Hasher)
    (config : Config ServiceCall Memory)
    (action : Action ServiceRequest Empty) : Prop :=
  ∀ index entry task, action = .step index →
    config.threads[index]? = some (.operation (.append entry task)) →
      ∀ address, ((serviceMachine checked g hasher).apply config action).shared address ≠
          config.shared address →
        AppendFootprint g entry.hostId
          ((Call.append entry task).reservation.map Reservation.slot) address

theorem Contained.appendsKeepFrame {config : Config ServiceCall Memory}
    (hcontained : Contained g config) (action : Action ServiceRequest Empty) :
    AppendsKeepFrame checked g hasher config action := by
  rintro index entry task rfl hcall address hchanged
  by_contra houtside
  refine hchanged ?_
  have hbounded := hcontained.bounded _ (List.mem_of_getElem? hcall)
  rw [apply_step_of_getElem? _ hcall]
  show ((ServiceCall.operation (.append entry task)).step checked g hasher
    config.shared).2 address = _
  rw [ServiceCall.step_operation]
  cases task with
  | returned outcome => rfl
  | running point =>
    rw [Call.step_append]
    have hslot : (Call.append entry (.running point)).reservation.map Reservation.slot =
        point.progress.map Prod.fst := Option.map_map _ _ _
    rw [hslot] at houtside
    exact FenceRuntime.append_frame hbounded.2.1 hbounded.2.2 houtside

/-! ### Valid configurations -/

/-- A pool just created, with no call started. -/
def freshService (g : PoolGeometry) : Config ServiceCall Memory where
  shared := freshMemory g
  threads := []

theorem Contained.fresh (g : PoolGeometry) : Contained g (freshService g) where
  tail := by
    have hpool : (Pool.ofMemory g (freshMemory g)).committedTail = 0 := by
      rw [freshMemory, ofMemory_createHeader]
    have htail : loadWord (freshMemory g) hdrCommittedTail 8 = 0 := hpool
    rw [TailWithin, freshService, htail]
    exact Nat.zero_le _
  bounded := by
    intro call hmem
    cases hmem

/-- A configuration has an exact geometry, whose regions are disjoint and fill the pool. Every
access that hosts of the pool make from a fresh one on lies in it and is aligned, and every append
keeps its frame. -/
def LayoutSeparated (checked : Bool) (hasher : Hasher) (config : FenceConfig) : Prop :=
  ∃ raw g, RawGeometry.new config.pool.capacity config.pool.payloadSize config.pool.maxHosts =
      some raw ∧
    PoolGeometry.new config.pool.capacity config.pool.payloadSize config.pool.maxHosts = some g ∧
    raw.Exact ∧ g.recordSize = raw.recordSize.toNat ∧ g.totalSize = raw.totalSize.toNat ∧
    g.Tiles ∧
    ∀ schedule : List (Action ServiceRequest Empty), (∀ action ∈ schedule, FromHosts g action) →
      (serviceMachine checked g hasher).Along (fun config action ↦
        AccessesPool checked g hasher config action ∧
          AppendsKeepFrame checked g hasher config action)
        schedule (freshService g)

/-- The layout of every valid configuration is separated. -/
theorem layoutSeparated_of_validate (checked : Bool) (hasher : Hasher) {config : FenceConfig}
    (hvalid : config.validate = .ok ()) : LayoutSeparated checked hasher config := by
  obtain ⟨raw, hraw, hexact⟩ := config.exists_exact hvalid
  obtain ⟨g, hnew, -, hpayload, -, hrecord, htotal⟩ := RawGeometry.exists_pool hraw hexact
  have haligned : g.payloadSize % 8 = 0 := by
    rw [hpayload]
    exact (config.validate_eq_ok_iff.mp hvalid).payloadSize_aligned
  refine ⟨raw, g, hraw, hnew, hexact, hrecord, htotal, g.tiles, fun schedule hhosts ↦ ?_⟩
  refine along_of_invariant (Contained g) ?_
    (along_of_forall_mem (FromHosts g) hhosts (freshService g)) (Contained.fresh g)
  intro config action hcontained haction
  exact ⟨⟨hcontained.accessesPool haligned action, hcontained.appendsKeepFrame action⟩,
    hcontained.apply haction⟩

/-- The layout of the default configuration. -/
theorem layoutSeparated_of_validate_default : LayoutSeparated true crc32fast .default :=
  layoutSeparated_of_validate true crc32fast FenceConfig.validate_default

end Fence
