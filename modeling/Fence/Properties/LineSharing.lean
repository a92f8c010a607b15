import Fence.Core.CacheLines
import Fence.Properties.LayoutSeparation

/-!
# Lines that are shared

`layout.rs` pads the structures of a pool to whole cachelines, so that no two writers share one, but
the validation of a configuration only asks for a payload size that is a multiple of eight. Lines
are kept apart when it is a multiple of 64, and only then (`keepsLinesApart_iff`). What an append
changes lies in its footprint, so appends to two slots by two hosts then meet on the header line
only.
-/

set_option autoImplicit false
set_option relaxedAutoImplicit false

namespace Fence

/-- Appends to two slots by two hosts change bytes of one line in the header only. -/
def PoolGeometry.WritersApart (g : PoolGeometry) (base : ℕ) : Prop :=
  ∀ (firstHost secondHost : UInt16) (firstSlot secondSlot : ℕ),
    firstHost.toNat < g.maxHosts → secondHost.toNat < g.maxHosts → firstSlot < g.capacity →
      secondSlot < g.capacity → firstHost ≠ secondHost → firstSlot ≠ secondSlot →
        ∀ first second, AppendFootprint g firstHost (some firstSlot) first →
          AppendFootprint g secondHost (some secondSlot) second →
            lineOf base first = lineOf base second → first < headerSize ∧ second < headerSize

/-- A pool of a configuration, mapped at an address, keeps the lines of its record slots and metrics
blocks apart, and every payload starts on a line boundary. -/
def KeepsLinesApart (config : FenceConfig) (base : ℕ) : Prop :=
  ∃ g, PoolGeometry.new config.pool.capacity config.pool.payloadSize config.pool.maxHosts = some g ∧
    g.SharesNoLine base ∧ g.WritersApart base ∧
    ∀ slot < g.capacity, (base + g.payloadOffset slot) % cacheline = 0

variable {g : PoolGeometry} {base : ℕ}

/-- A byte of a footprint lies in the header, in the slot or in the metrics block. -/
theorem AppendFootprint.exists_region {hostId : UInt16} {slot offset : ℕ}
    (hhost : hostId.toNat < g.maxHosts) (hslot : slot < g.capacity)
    (hfootprint : AppendFootprint g hostId (some slot) offset) :
    ∃ region : Region g, region.Contains offset ∧
      (region = .header ∨ region = .record ⟨slot, hslot⟩ ∨
        region = .metrics ⟨hostId.toNat, hhost⟩) := by
  rcases hfootprint with htails | ⟨held, hheld, hrecord⟩ | hmetrics
  · refine ⟨.header, ⟨Nat.zero_le _, ?_⟩, Or.inl rfl⟩
    unfold hdrCommittedTail hdrReserveTail at htails
    simp only [Region.start, Region.size, headerSize]
    omega
  · obtain rfl := Option.some.inj hheld
    exact ⟨.record ⟨slot, hslot⟩, hrecord, Or.inr (Or.inl rfl)⟩
  · exact ⟨.metrics ⟨hostId.toNat, hhost⟩, hmetrics, Or.inr (Or.inr rfl)⟩

/-- Lines of aligned regions keep writers apart. -/
theorem PoolGeometry.writersApart (hbase : base % cacheline = 0)
    (hpayload : g.payloadSize % cacheline = 0) : g.WritersApart base := by
  intro firstHost secondHost firstSlot secondSlot hfirstHost hsecondHost hfirstSlot hsecondSlot
    hhosts hslots first second hfirst hsecond hline
  obtain ⟨region, hcontains, hregion⟩ := hfirst.exists_region hfirstHost hfirstSlot
  obtain ⟨other, hcontainsOther, hother⟩ := hsecond.exists_region hsecondHost hsecondSlot
  obtain rfl : region = other :=
    Region.eq_of_lineOf hbase (Region.aligned hpayload region) (Region.aligned hpayload other)
      ⟨first, hcontains, hline⟩ ⟨second, hcontainsOther, rfl⟩
  have hheader : region = .header := by
    rcases hregion with hregion | hregion | hregion
    · exact hregion
    · simp [hregion, hslots] at hother
    · simp only [hregion, reduceCtorEq, Region.metrics.injEq, Fin.mk.injEq, false_or] at hother
      exact absurd (UInt16.toNat_inj.mp hother) hhosts
  subst hheader
  exact ⟨by simpa [Region.start, Region.size] using hcontains.2,
    by simpa [Region.start, Region.size] using hcontainsOther.2⟩

/-- Payloads of whole lines start on a line boundary. -/
theorem PoolGeometry.payloadOffset_mod (hbase : base % cacheline = 0)
    (hpayload : g.payloadSize % cacheline = 0) {slot : ℕ} (hslot : slot < g.capacity) :
    (base + g.payloadOffset slot) % cacheline = 0 := by
  have hstart : g.recordOffset slot % cacheline = 0 :=
    (Region.aligned hpayload (.record ⟨slot, hslot⟩)).1
  unfold PoolGeometry.payloadOffset recordMetaSize cacheline at *
  omega

/-- The pool of a valid configuration. -/
theorem FenceConfig.exists_pool {config : FenceConfig} (hvalid : config.validate = .ok ()) :
    ∃ g, PoolGeometry.new config.pool.capacity config.pool.payloadSize config.pool.maxHosts =
      some g ∧ g.payloadSize = config.pool.payloadSize.toNat := by
  obtain ⟨raw, hraw, hexact⟩ := config.exists_exact hvalid
  obtain ⟨g, hnew, -, hpayload, -⟩ := RawGeometry.exists_pool hraw hexact
  exact ⟨g, hnew, hpayload⟩

/-- A valid configuration keeps lines apart when its payloads are a number of whole lines, and only
then. -/
theorem keepsLinesApart_iff {config : FenceConfig} (hvalid : config.validate = .ok ()) {base : ℕ}
    (hbase : base % cacheline = 0) :
    KeepsLinesApart config base ↔ config.pool.payloadSize.toNat % cacheline = 0 := by
  obtain ⟨g, hnew, hpayload⟩ := config.exists_pool hvalid
  rw [← hpayload]
  constructor
  · rintro ⟨other, hother, hseparate, -⟩
    obtain rfl := Option.some.inj (hnew.symm.trans hother)
    exact (sharesNoLine_iff hbase).mp hseparate
  · intro haligned
    exact ⟨g, hnew, (sharesNoLine_iff hbase).mpr haligned, g.writersApart hbase haligned,
      fun slot hslot ↦ PoolGeometry.payloadOffset_mod hbase haligned hslot⟩

/-- The default configuration, mapped at the start of a page. -/
theorem keepsLinesApart_iff_default :
    KeepsLinesApart .default 4096 ↔ FenceConfig.default.pool.payloadSize.toNat % cacheline = 0 :=
  keepsLinesApart_iff FenceConfig.validate_default (by decide)

/-- A configuration whose payloads are 72 bytes. -/
def unalignedConfig : FenceConfig := { FenceConfig.default with pool := ⟨2, 72, 1⟩ }

/-- It is valid, and the last payload bytes of its first slot are on the line of the state byte of
the second. -/
theorem not_keepsLinesApart_of_payload :
    unalignedConfig.validate = .ok () ∧ ¬ KeepsLinesApart unalignedConfig 4096 := by
  have hvalid : unalignedConfig.validate = .ok () := by decide
  refine ⟨hvalid, ?_⟩
  rintro ⟨g, hnew, hseparate, -⟩
  obtain ⟨other, hother, hpayload⟩ := unalignedConfig.exists_pool hvalid
  obtain rfl := Option.some.inj (hnew.symm.trans hother)
  have haligned := (sharesNoLine_iff (by decide)).mp hseparate
  rw [hpayload] at haligned
  revert haligned
  decide

end Fence
