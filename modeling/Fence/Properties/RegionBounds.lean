import Fence.Abstract.RegionTable
import Fence.Alloc.Updates

/-!
# The bounds checks of a region

The users of a region ask `contains` whether a range of bytes lies within it. Its sums wrap in a
build without overflow checks. For a region within the pool only the end of the range can wrap, and
the check is wrong exactly where it does and comes out at or before the end of the region
(`boundsExact_iff`). Without a wrap, a range of bytes is within one of two regions that do not
overlap, at most (`RegionHandle.Apart.not_contains`).
-/

set_option autoImplicit false
set_option relaxedAutoImplicit false

namespace Fence

open ByteMemory Interleaving

namespace RegionHandle

variable {region first second : RegionHandle} {byteOffset relative len : ℕ}

/-- `contains` is right about a range of bytes of the pool. -/
def ExactAt (region : RegionHandle) (byteOffset len : ℕ) : Prop :=
  region.contains byteOffset len = true ↔
    region.offset ≤ byteOffset ∧ byteOffset + len ≤ region.offset + region.size

/-- `contains` is right about a range of bytes given relative to the region. -/
def ExactWithin (region : RegionHandle) (relative len : ℕ) : Prop :=
  region.contains (region.absoluteOffset relative) len = true ↔ relative + len ≤ region.size

/-- A range starts at a word at or after the start of the region, and its end wraps to one at or
before the end of the region. -/
def WrapsInto (region : RegionHandle) (byteOffset len : ℕ) : Prop :=
  region.offset ≤ byteOffset ∧ byteOffset < 2 ^ 64 ∧ 2 ^ 64 ≤ byteOffset + len ∧
    byteOffset + len - 2 ^ 64 ≤ region.offset + region.size

theorem contains_iff : region.contains byteOffset len = true ↔ region.offset ≤ byteOffset ∧
    (byteOffset + len) % 2 ^ 64 ≤ (region.offset + region.size) % 2 ^ 64 := by
  simp only [contains, Bool.and_eq_true, decide_eq_true_eq]

section Bounded

variable (hregion : region.offset + region.size < 2 ^ 64) (hlen : len < 2 ^ 64)

include hregion hlen

/-- The check of a range is right unless the range wraps into the region. -/
theorem exactAt_iff (hoffset : byteOffset < 2 ^ 64) :
    region.ExactAt byteOffset len ↔ ¬ region.WrapsInto byteOffset len := by
  rw [ExactAt, contains_iff, Nat.mod_eq_of_lt hregion, WrapsInto]
  by_cases hwrap : 2 ^ 64 ≤ byteOffset + len
  · have hmod : (byteOffset + len) % 2 ^ 64 = byteOffset + len - 2 ^ 64 := by omega
    rw [hmod]
    omega
  · rw [Nat.mod_eq_of_lt (Nat.lt_of_not_le hwrap)]
    omega

/-- The check of a relative range is right unless the range wraps into the region. An offset that
wraps itself comes out before the region, and the check is right. -/
theorem exactWithin_iff (hrelative : relative < 2 ^ 64) :
    region.ExactWithin relative len ↔ ¬ region.WrapsInto (region.offset + relative) len := by
  by_cases hwrap : region.offset + relative < 2 ^ 64
  · have hsame : relative + len ≤ region.size ↔ region.offset ≤ region.offset + relative ∧
        region.offset + relative + len ≤ region.offset + region.size := by omega
    rw [← exactAt_iff hregion hlen hwrap, ExactWithin, ExactAt, absoluteOffset,
      Nat.mod_eq_of_lt hwrap, hsame]
  · have hmod : (region.offset + relative) % 2 ^ 64 = region.offset + relative - 2 ^ 64 := by omega
    rw [ExactWithin, contains_iff, absoluteOffset, hmod, WrapsInto]
    omega

end Bounded

/-- A range of bytes that does not wrap is not within two regions that do not overlap. -/
theorem Apart.not_contains (hapart : first.Apart second)
    (hfirst : first.offset + first.size < 2 ^ 64) (hsecond : second.offset + second.size < 2 ^ 64)
    (hpos : 0 < len) (hrange : byteOffset + len < 2 ^ 64)
    (hcontains : first.contains byteOffset len = true) :
    second.contains byteOffset len = false := by
  rw [contains_iff, Nat.mod_eq_of_lt hfirst, Nat.mod_eq_of_lt hrange] at hcontains
  rw [← Bool.not_eq_true, contains_iff, Nat.mod_eq_of_lt hsecond, Nat.mod_eq_of_lt hrange]
  unfold Apart at hapart
  omega

end RegionHandle

/-- For a region within the pool, the two checks are right about exactly the ranges that do not wrap
into the region. -/
theorem boundsExact_iff {base poolSize : ℕ} (hpool : base + poolSize < 2 ^ 64)
    (region : RegionHandle) (hregion : region.offset + region.size ≤ base + poolSize) :
    (∀ relative < 2 ^ 64, ∀ len < 2 ^ 64,
      (region.ExactWithin relative len ↔ ¬ region.WrapsInto (region.offset + relative) len)) ∧
    (∀ byteOffset < 2 ^ 64, ∀ len < 2 ^ 64,
      (region.ExactAt byteOffset len ↔ ¬ region.WrapsInto byteOffset len)) := by
  have hend : region.offset + region.size < 2 ^ 64 := Nat.lt_of_le_of_lt hregion hpool
  exact ⟨fun _ hrelative _ hlen ↦ RegionHandle.exactWithin_iff hend hlen hrelative,
    fun _ hoffset _ hlen ↦ RegionHandle.exactAt_iff hend hlen hoffset⟩

/-- The only region of a pool with room for one cacheline behind the catalog. -/
theorem boundsExact_iff_one :
    (∀ relative < 2 ^ 64, ∀ len < 2 ^ 64,
      ((⟨0, "a", 16448, 64⟩ : RegionHandle).ExactWithin relative len ↔
        ¬ (⟨0, "a", 16448, 64⟩ : RegionHandle).WrapsInto (16448 + relative) len)) ∧
    (∀ byteOffset < 2 ^ 64, ∀ len < 2 ^ 64,
      ((⟨0, "a", 16448, 64⟩ : RegionHandle).ExactAt byteOffset len ↔
        ¬ (⟨0, "a", 16448, 64⟩ : RegionHandle).WrapsInto byteOffset len)) :=
  boundsExact_iff (by decide : 0 + (catalogSize + 64) < 2 ^ 64) ⟨0, "a", 16448, 64⟩ (by decide)

/-- A region of 64 bytes is granted within the pool, and a range of `2 ^ 64 - 16448` bytes from its
start is within its bounds by both checks. -/
theorem not_boundsExact_of_wrap : ∃ start later region,
    (allocatorMachine 0 (catalogSize + 64)).Ends (AllocRequest.init.call (catalogSize + 64))
      (fun _ ↦ 0) (.init (.returned (.ok ()))) start ∧
    (allocatorMachine 0 (catalogSize + 64)).Ends
      ((AllocRequest.createRegion "a" 64).call (catalogSize + 64)) start
      (.createRegion "a" 64 (.returned (.ok region))) later ∧
    region.offset = 16448 ∧ region.size = 64 ∧
    ¬ region.ExactWithin 0 18446744073709535168 ∧ ¬ region.ExactAt 16448 18446744073709535168 := by
  obtain ⟨start, hinit, hempty⟩ := init_ends_one
  obtain ⟨slot, hsearch⟩ := hempty.search_ends hempty.room_one
  have hcreate := (hsearch "a" (by decide)).trans (createRegion_write_ends slot _)
  rw [hempty.nextOffset_eq] at hcreate
  have hend : catalogSize + 64 < 2 ^ 64 := by decide
  have hwraps : RegionHandle.WrapsInto ⟨slot, "a", catalogSize, 64⟩ catalogSize
      18446744073709535168 := by
    dsimp only [RegionHandle.WrapsInto]
    decide
  refine ⟨start, _, ⟨slot, "a", catalogSize, 64⟩, hinit, hcreate, rfl, rfl, fun hexact ↦ ?_,
    fun hexact ↦ ?_⟩
  · exact (RegionHandle.exactWithin_iff hend (by decide) (by decide)).mp hexact hwraps
  · exact (RegionHandle.exactAt_iff hend (by decide) (by decide)).mp hexact hwraps

end Fence
