import Fence.Core.Regions

/-!
# The cachelines of a pool

A pool is mapped at an address, and `lineOf` is the cacheline an offset into it lies in. A region
that starts on a line boundary and ends on one has its lines to itself (`Region.eq_of_lineOf`).
Every record slot is followed by a slot or by a metrics block, so the slots keep to their lines when
a record is a number of whole lines, and only then (`sharesNoLine_iff`).
-/

set_option autoImplicit false
set_option relaxedAutoImplicit false

namespace Fence

/-- The cacheline of an offset into a pool that is mapped at an address. -/
def lineOf (base offset : ℕ) : ℕ := (base + offset) / cacheline

/-- `PoolGeometry::payload_offset`. -/
def PoolGeometry.payloadOffset (g : PoolGeometry) (slot : ℕ) : ℕ :=
  g.recordOffset slot + recordMetaSize

variable {g : PoolGeometry} {base : ℕ}

/-- A line a region has bytes on. -/
def Region.OnLine (base : ℕ) (region : Region g) (line : ℕ) : Prop :=
  ∃ offset, region.Contains offset ∧ lineOf base offset = line

/-- The region starts and ends on a line boundary. -/
def Region.Aligned (region : Region g) : Prop :=
  region.start % cacheline = 0 ∧ region.size % cacheline = 0

/-- An aligned region has the whole line of each of its bytes. -/
theorem Region.Aligned.contains_boundary {region : Region g} (haligned : region.Aligned)
    {offset : ℕ} (hcontains : region.Contains offset) :
    region.Contains (offset / cacheline * cacheline) := by
  obtain ⟨hstart, hsize⟩ := haligned
  obtain ⟨hlow, hhigh⟩ := hcontains
  unfold Region.Contains cacheline at *
  omega

/-- Aligned regions that share a line are the same. -/
theorem Region.eq_of_lineOf (hbase : base % cacheline = 0) {first second : Region g}
    (hfirst : first.Aligned) (hsecond : second.Aligned) {line : ℕ}
    (hfirstLine : first.OnLine base line) (hsecondLine : second.OnLine base line) :
    first = second := by
  obtain ⟨offset, hcontains, hline⟩ := hfirstLine
  obtain ⟨other, hcontainsOther, hlineOther⟩ := hsecondLine
  have hsame : offset / cacheline = other / cacheline := by
    unfold lineOf cacheline at *
    omega
  have hboundary := hsecond.contains_boundary hcontainsOther
  rw [← hsame] at hboundary
  exact g.tiles.disjoint _ _ _ (hfirst.contains_boundary hcontains) hboundary

/-- All regions are aligned when a payload is a number of whole lines. -/
theorem Region.aligned (hpayload : g.payloadSize % cacheline = 0) (region : Region g) :
    region.Aligned := by
  have hrecord : g.recordSize % cacheline = 0 := by
    rw [g.recordSize_eq]
    unfold recordMetaSize cacheline at *
    omega
  have hslots : ∀ slot, (headerSize + slot * g.recordSize) % cacheline = 0 := by
    intro slot
    rw [Nat.add_mod, Nat.mul_mod, hrecord, Nat.mul_zero]
    rfl
  cases region with
  | header => exact ⟨Nat.zero_mod _, (by decide : headerSize % cacheline = 0)⟩
  | record slot => exact ⟨hslots slot, hrecord⟩
  | metrics hostId =>
    refine ⟨?_, Nat.mod_self _⟩
    have hstart := hslots g.capacity
    simp only [Region.start, PoolGeometry.metricsOffset]
    unfold cacheline at *
    omega

/-- The region after the first record slot: the second one, or the first metrics block. -/
theorem Region.exists_next (g : PoolGeometry) : ∃ region : Region g, region ≠ .header ∧
    region ≠ .record ⟨0, g.capacity_pos⟩ ∧ region.Contains (headerSize + g.recordSize) := by
  have hrecord : recordMetaSize ≤ g.recordSize := g.recordMetaSize_le
  unfold recordMetaSize at hrecord
  by_cases htwo : 1 < g.capacity
  · refine ⟨.record ⟨1, htwo⟩, by simp, by simp, ?_⟩
    simp only [Region.Contains, Region.start, Region.size, PoolGeometry.recordOffset]
    omega
  · have hone : g.capacity = 1 := Nat.le_antisymm (Nat.le_of_not_lt htwo) g.capacity_pos
    refine ⟨.metrics ⟨0, g.maxHosts_pos⟩, by simp, by simp, ?_⟩
    simp only [Region.Contains, Region.start, Region.size, PoolGeometry.metricsOffset, hone,
      cacheline]
    omega

/-- No two record slots or metrics blocks share a line. -/
def PoolGeometry.SharesNoLine (g : PoolGeometry) (base : ℕ) : Prop :=
  ∀ first second : Region g, first ≠ .header → second ≠ .header → first ≠ second →
    ∀ line, ¬ (first.OnLine base line ∧ second.OnLine base line)

/-- No line is shared when a payload is a number of whole lines, and only then. -/
theorem sharesNoLine_iff (hbase : base % cacheline = 0) :
    g.SharesNoLine base ↔ g.payloadSize % cacheline = 0 := by
  constructor
  · intro hseparate
    by_contra hpayload
    obtain ⟨next, hheader, hother, hnext⟩ := Region.exists_next g
    have hfirst : (Region.record (g := g) ⟨0, g.capacity_pos⟩).Contains
        (headerSize + g.recordSize - 1) := by
      have hrecord := g.recordMetaSize_le
      simp only [Region.Contains, Region.start, Region.size, PoolGeometry.recordOffset]
      unfold headerSize recordMetaSize at *
      omega
    -- the last byte of the slot and the first of the next region are on one line
    have hline : lineOf base (headerSize + g.recordSize - 1) =
        lineOf base (headerSize + g.recordSize) := by
      have hrecord := g.recordSize_eq
      unfold lineOf headerSize recordMetaSize cacheline at *
      omega
    exact hseparate (.record ⟨0, g.capacity_pos⟩) next (by simp) hheader (Ne.symm hother) _
      ⟨⟨_, hfirst, hline⟩, _, hnext, rfl⟩
  · rintro hpayload first second - - hne line ⟨hfirst, hsecond⟩
    exact hne (Region.eq_of_lineOf hbase (Region.aligned hpayload first)
      (Region.aligned hpayload second) hfirst hsecond)

end Fence
