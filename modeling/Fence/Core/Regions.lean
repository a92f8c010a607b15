import Fence.Core.Layout

/-!
# The regions of a pool

The header, the record slots and the metrics blocks are disjoint and fill the pool (`tiles`).
-/

set_option autoImplicit false
set_option relaxedAutoImplicit false

namespace Fence

/-- A part of a pool. -/
inductive Region (g : PoolGeometry)
  | header
  | record (slot : Fin g.capacity)
  | metrics (hostId : Fin g.maxHosts)

variable {g : PoolGeometry}

namespace Region

/-- The first byte of a region. -/
def start : Region g → ℕ
  | .header => 0
  | .record slot => g.recordOffset slot
  | .metrics hostId => g.metricsOffset hostId

/-- The number of bytes of a region. -/
def size : Region g → ℕ
  | .header => headerSize
  | .record _ => g.recordSize
  | .metrics _ => cacheline

/-- The bytes of a region. -/
def Contains (region : Region g) (address : ℕ) : Prop :=
  region.start ≤ address ∧ address < region.start + region.size

end Region

/-- The regions of a pool are disjoint and fill it. -/
structure PoolGeometry.Tiles (g : PoolGeometry) : Prop where
  covers : ∀ address, address < g.totalSize ↔ ∃ region : Region g, region.Contains address
  disjoint : ∀ (first second : Region g) (address : ℕ),
    first.Contains address → second.Contains address → first = second

/-- The metrics start where the records end. -/
theorem PoolGeometry.metricsOffset_zero : g.metricsOffset 0 = g.recordOffset g.capacity := by
  unfold PoolGeometry.metricsOffset PoolGeometry.recordOffset
  omega

theorem PoolGeometry.totalSize_eq_metricsOffset : g.totalSize = g.metricsOffset g.maxHosts := by
  have htotal := g.totalSize_eq
  have hmul : g.capacity * g.recordSize = g.recordSize * g.capacity := Nat.mul_comm _ _
  unfold PoolGeometry.metricsOffset cacheline at *
  omega

theorem Region.headerSize_le_start_record (slot : Fin g.capacity) :
    headerSize ≤ (Region.record slot).start := g.headerSize_le_recordOffset slot

theorem Region.record_end_le (slot : Fin g.capacity) :
    (Region.record slot).start + g.recordSize ≤ g.metricsOffset 0 :=
  PoolGeometry.recordOffset_add_le_metricsOffset slot.isLt 0

theorem Region.metricsOffset_zero_le (hostId : Fin g.maxHosts) :
    g.metricsOffset 0 ≤ (Region.metrics hostId).start := by
  simp only [Region.start, PoolGeometry.metricsOffset]
  omega

/-- A region lies in the pool. -/
theorem Region.lt_totalSize {region : Region g} {address : ℕ}
    (hcontains : region.Contains address) :
    address < g.totalSize := by
  have hmetrics : g.metricsOffset 0 ≤ g.totalSize := by
    rw [PoolGeometry.totalSize_eq_metricsOffset]
    unfold PoolGeometry.metricsOffset
    omega
  obtain ⟨-, hend⟩ := hcontains
  cases region with
  | header =>
    have hheader := g.headerSize_le_recordOffset g.capacity
    rw [← PoolGeometry.metricsOffset_zero] at hheader
    simp only [Region.start, Region.size] at hend
    omega
  | record slot =>
    have hrecord := Region.record_end_le slot
    simp only [Region.size] at hend
    omega
  | metrics hostId =>
    have hhost := hostId.isLt
    rw [PoolGeometry.totalSize_eq_metricsOffset]
    simp only [Region.start, Region.size, PoolGeometry.metricsOffset, cacheline] at hend ⊢
    omega

/-- Every byte of the pool lies in a region. -/
theorem Region.exists_contains {address : ℕ} (haddress : address < g.totalSize) :
    ∃ region : Region g, region.Contains address := by
  have hrecordPos : 0 < g.recordSize := Nat.lt_of_lt_of_le (by decide) g.recordMetaSize_le
  by_cases hheader : address < headerSize
  · exact ⟨.header, Nat.zero_le _, by simp only [Region.start, Region.size]; omega⟩
  · by_cases hrecords : address < g.metricsOffset 0
    · have hdiv := Nat.div_add_mod (address - headerSize) g.recordSize
      have hmod := Nat.mod_lt (address - headerSize) hrecordPos
      have hslot : (address - headerSize) / g.recordSize < g.capacity := by
        rw [Nat.div_lt_iff_lt_mul hrecordPos]
        unfold PoolGeometry.metricsOffset at hrecords
        omega
      refine ⟨.record ⟨_, hslot⟩, ?_⟩
      rw [Nat.mul_comm] at hdiv
      simp only [Region.Contains, Region.start, Region.size, PoolGeometry.recordOffset]
      omega
    · have hhost : (address - g.metricsOffset 0) / cacheline < g.maxHosts := by
        rw [Nat.div_lt_iff_lt_mul (by decide : 0 < cacheline)]
        rw [PoolGeometry.totalSize_eq_metricsOffset] at haddress
        unfold PoolGeometry.metricsOffset at *
        omega
      refine ⟨.metrics ⟨_, hhost⟩, ?_⟩
      simp only [Region.Contains, Region.start, Region.size, PoolGeometry.metricsOffset,
        cacheline] at hrecords ⊢
      omega

/-- The regions of a pool are disjoint and fill it. -/
theorem PoolGeometry.tiles (g : PoolGeometry) : g.Tiles where
  covers := fun _ ↦ ⟨Region.exists_contains, fun ⟨_, hcontains⟩ ↦ Region.lt_totalSize hcontains⟩
  disjoint := by
    rintro first second address ⟨hfirst, hfirstEnd⟩ ⟨hsecond, hsecondEnd⟩
    have hheader := g.headerSize_le_recordOffset g.capacity
    rw [← PoolGeometry.metricsOffset_zero] at hheader
    cases first with
    | header =>
      simp only [Region.start, Region.size] at hfirstEnd
      cases second with
      | header => rfl
      | record slot =>
        have := Region.headerSize_le_start_record slot
        omega
      | metrics hostId =>
        have := Region.metricsOffset_zero_le hostId
        omega
    | record slot =>
      have hlow := Region.headerSize_le_start_record slot
      have hhigh := Region.record_end_le slot
      simp only [Region.size] at hfirstEnd
      cases second with
      | header =>
        simp only [Region.start, Region.size] at hsecondEnd
        omega
      | record other =>
        rcases Nat.lt_trichotomy slot.val other.val with hlt | heq | hgt
        · have hbefore := PoolGeometry.recordOffset_add_le (g := g) hlt
          simp only [Region.start] at hfirst hfirstEnd hsecond
          omega
        · rw [Fin.ext heq]
        · have hbefore := PoolGeometry.recordOffset_add_le (g := g) hgt
          simp only [Region.start, Region.size] at hfirst hsecond hsecondEnd
          omega
      | metrics hostId =>
        have := Region.metricsOffset_zero_le hostId
        omega
    | metrics hostId =>
      have hlow := Region.metricsOffset_zero_le hostId
      cases second with
      | header =>
        simp only [Region.start, Region.size] at hsecondEnd
        omega
      | record slot =>
        have hhigh := Region.record_end_le slot
        simp only [Region.size] at hsecondEnd
        omega
      | metrics other =>
        have hsame : hostId.val = other.val := by
          simp only [Region.start, Region.size, PoolGeometry.metricsOffset, cacheline]
            at hfirst hfirstEnd hsecond hsecondEnd
          omega
        rw [Fin.ext hsame]

end Fence
