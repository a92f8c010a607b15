import Fence.Core.Layout

/-!
# Geometries as the machine computes them

`PoolGeometry::new` computes the size of a record in 32 bits and the size of the pool in 64, and in
a release build both wrap. `RawGeometry` has the values the machine gets. They are exact when a
record fits 32 bits, and only then (`exact_iff`), and then they are those of a `PoolGeometry`
(`exists_pool`).
-/

set_option autoImplicit false
set_option relaxedAutoImplicit false

namespace Fence

/-- `PoolGeometry` in machine words. -/
structure RawGeometry where
  capacity : UInt32
  payloadSize : UInt32
  maxHosts : UInt16
  recordSize : UInt32
  totalSize : UInt64
  deriving DecidableEq, Repr

/-- `PoolGeometry::new` of a release build. The result is `none` where an assertion fails. -/
def RawGeometry.new (capacity payloadSize : UInt32) (maxHosts : UInt16) : Option RawGeometry :=
  if capacity = 0 ∨ payloadSize = 0 ∨ maxHosts = 0 then none
  else
    let recordSize := 64 + payloadSize
    let recordsRegion := recordSize.toUInt64 * capacity.toUInt64
    let metricsRegion := 64 * maxHosts.toUInt64
    some
      { capacity := capacity
        payloadSize := payloadSize
        maxHosts := maxHosts
        recordSize := recordSize
        totalSize := 64 + recordsRegion + metricsRegion }

namespace RawGeometry

/-- The derived sizes are the exact ones. -/
structure Exact (raw : RawGeometry) : Prop where
  recordSize_eq : raw.recordSize.toNat = recordMetaSize + raw.payloadSize.toNat
  totalSize_eq : raw.totalSize.toNat = headerSize +
    (recordMetaSize + raw.payloadSize.toNat) * raw.capacity.toNat + cacheline * raw.maxHosts.toNat

variable {capacity payloadSize : UInt32} {maxHosts : UInt16} {raw : RawGeometry}
  (hnew : RawGeometry.new capacity payloadSize maxHosts = some raw)

include hnew

theorem fields_eq : raw.capacity = capacity ∧ raw.payloadSize = payloadSize ∧
    raw.maxHosts = maxHosts := by
  unfold RawGeometry.new at hnew
  split_ifs at hnew
  rw [← Option.some.inj hnew]
  exact ⟨rfl, rfl, rfl⟩

theorem dimensions_pos : 0 < capacity.toNat ∧ 0 < payloadSize.toNat ∧ 0 < maxHosts.toNat := by
  unfold RawGeometry.new at hnew
  split_ifs at hnew with hzero
  simp only [not_or] at hzero
  obtain ⟨hcapacity, hpayload, hhosts⟩ := hzero
  refine ⟨Nat.pos_of_ne_zero fun h ↦ hcapacity (UInt32.toNat_inj.mp h),
    Nat.pos_of_ne_zero fun h ↦ hpayload (UInt32.toNat_inj.mp h),
    Nat.pos_of_ne_zero fun h ↦ hhosts (UInt16.toNat_inj.mp h)⟩

/-- The size of a record wraps at 32 bits. -/
theorem recordSize_toNat :
    raw.recordSize.toNat = (recordMetaSize + payloadSize.toNat) % 2 ^ 32 := by
  unfold RawGeometry.new at hnew
  split_ifs at hnew
  rw [← Option.some.inj hnew]
  exact UInt32.toNat_add _ _

/-- The size of the pool does not wrap any further. -/
theorem totalSize_toNat : raw.totalSize.toNat =
    headerSize + raw.recordSize.toNat * capacity.toNat + cacheline * maxHosts.toNat := by
  have hrecord : raw.recordSize.toNat ≤ 2 ^ 32 - 1 := Nat.le_sub_one_of_lt raw.recordSize.toNat_lt
  have hcapacity : capacity.toNat ≤ 2 ^ 32 - 1 := Nat.le_sub_one_of_lt capacity.toNat_lt
  have hproduct := Nat.mul_le_mul hrecord hcapacity
  have hhosts := maxHosts.toNat_lt
  unfold RawGeometry.new at hnew
  split_ifs at hnew
  rw [← Option.some.inj hnew] at hproduct ⊢
  simp only [UInt64.toNat_add, UInt64.toNat_mul, UInt32.toNat_toUInt64, UInt16.toNat_toUInt64]
  unfold headerSize cacheline
  have hnumber : (64 : UInt64).toNat = 64 := rfl
  rw [hnumber]
  simp only at hproduct
  omega

/-- The derived sizes are exact when a record fits 32 bits, and only then. -/
theorem exact_iff : raw.Exact ↔ recordMetaSize + payloadSize.toNat < 2 ^ 32 := by
  obtain ⟨hcapacity, hpayload, hhosts⟩ := fields_eq hnew
  have hsize := recordSize_toNat hnew
  have htotal := totalSize_toNat hnew
  constructor
  · intro hexact
    have hrecord := hexact.recordSize_eq
    rw [hpayload, hsize] at hrecord
    rw [← hrecord]
    exact Nat.mod_lt _ (by decide)
  · intro hfits
    rw [Nat.mod_eq_of_lt hfits] at hsize
    rw [hsize] at htotal
    exact ⟨by rw [hsize, hpayload], by rw [htotal, hcapacity, hpayload, hhosts]⟩

/-- An exact geometry is one of those the runtime works with. -/
theorem exists_pool (hexact : raw.Exact) :
    ∃ g, PoolGeometry.new capacity payloadSize maxHosts = some g ∧
      g.capacity = capacity.toNat ∧ g.payloadSize = payloadSize.toNat ∧
      g.maxHosts = maxHosts.toNat ∧ g.recordSize = raw.recordSize.toNat ∧
      g.totalSize = raw.totalSize.toNat := by
  obtain ⟨hcapacity, hpayload, hhosts⟩ := dimensions_pos hnew
  have hfits := (exact_iff hnew).mp hexact
  have hsize := recordSize_toNat hnew
  have htotal := totalSize_toNat hnew
  rw [Nat.mod_eq_of_lt hfits] at hsize
  rw [hsize] at htotal
  refine ⟨_, dif_pos ⟨hcapacity, hpayload, hhosts, hfits⟩, rfl, rfl, rfl, hsize.symm, htotal.symm⟩

end RawGeometry

end Fence
