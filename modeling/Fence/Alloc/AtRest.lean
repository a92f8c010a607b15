import Fence.Alloc.CachedAllocator

/-!
# Entries at rest

An entry is at rest when its state has reached the media, and all of it when it is active. A catalog
is settled when its magic number has reached the media and all entries are at rest, so that a crash
loses nothing (`SettledCatalog.activeRegions_media`). A call works on one entry at a time, and
`Elsewhere` says that all others are at rest and as they were.
-/

set_option autoImplicit false
set_option relaxedAutoImplicit false

namespace Fence

open ByteMemory ByteMemory.CachedMemory Interleaving

variable {base slot other : ℕ} {before shared after : CachedMemory}

/-! ### Calls on the cache -/

/-- A call changes only its run, and brings to the media only what the cache holds. -/
theorem BackendCall.changes_execCached {Next : Type} (call : BackendCall Next)
    (shared : CachedMemory) :
    Changes call.offset call.length shared (call.execCached shared).2 := by
  refine ⟨fun address houtside ↦ ?_, fun address ↦ ?_⟩
  · rw [(call.execCached_eq shared).2]
    exact BackendCall.exec_apply_outside houtside
  · rcases call.execCached_media shared with hsame | ⟨offset, length, next, -, hflush⟩
    · exact Or.inl (congrFun hsame address)
    · rw [hflush]
      exact shared.flush_media offset length address

/-! ### States -/

/-- The state byte of an entry. -/
def entryByte (memory : Memory) (base slot : ℕ) : UInt8 :=
  memory (entryOffset base slot + entState)

theorem regionAt_eq_none_iff_entryByte {memory : Memory} :
    regionAt base memory slot = none ↔ entryByte memory base slot ≠ RegionState.active.toU8 := by
  rw [regionAt_eq_none_iff]
  exact not_congr RegionState.ofByte_eq_active_iff

theorem regionAt_congr {first second : Memory} (hsame : SameEntry base slot first second) :
    regionAt base first slot = regionAt base second slot := by
  rw [regionAt, regionAt, CatalogEntry.ofMemory_congr hsame]

/-- The state byte and the bytes behind it are the entry. -/
theorem sameEntry_of_persisted
    (hstate : entryByte shared.media base slot = entryByte shared.cached base slot)
    (hrest : Persisted shared (entryOffset base slot + 1) 63) :
    SameEntry base slot shared.media shared.cached := by
  intro i hi
  cases i with
  | zero => exact hstate
  | succ i =>
    have hbyte := hrest i (by unfold catalogEntrySize at hi; omega)
    rwa [Nat.add_assoc, Nat.add_comm 1 i] at hbyte

/-! ### Entries -/

/-- The state of an entry has reached the media, and all of it when it is active. -/
structure AtRest (base : ℕ) (shared : CachedMemory) (slot : ℕ) : Prop where
  state : entryByte shared.media base slot = entryByte shared.cached base slot
  rest : entryByte shared.cached base slot = RegionState.active.toU8 →
    Persisted shared (entryOffset base slot) catalogEntrySize

/-- A crash does not change what the entry is. -/
theorem AtRest.regionAt_media (hrest : AtRest base shared slot) :
    regionAt base shared.media slot = regionAt base shared.cached slot := by
  by_cases hactive : entryByte shared.cached base slot = RegionState.active.toU8
  · exact regionAt_congr (hrest.rest hactive)
  · rw [regionAt_eq_none_iff_entryByte.mpr hactive,
      regionAt_eq_none_iff_entryByte.mpr (by rwa [hrest.state])]

/-- An entry whose bytes were flushed is at rest. -/
theorem AtRest.of_persisted (hpersisted : Persisted shared (entryOffset base slot) 64) :
    AtRest base shared slot :=
  ⟨hpersisted 0 (by decide), fun _ ↦ hpersisted⟩

/-- An entry that a change does not reach stays at rest. -/
theorem AtRest.changes (hrest : AtRest base shared slot) {offset length : ℕ}
    (hchanges : Changes offset length shared after)
    (houtside : offset + length ≤ entryOffset base slot ∨
      entryOffset base slot + catalogEntrySize ≤ offset) :
    AtRest base after slot ∧ SameEntry base slot after.cached shared.cached := by
  have hsize : catalogEntrySize = 64 := rfl
  have hsame : SameEntry base slot after.cached shared.cached :=
    fun i hi ↦ hchanges.cached _ (by omega)
  have hstate : entryByte after.cached base slot = entryByte shared.cached base slot :=
    hsame 0 (by decide)
  refine ⟨⟨?_, fun hactive ↦ ?_⟩, hsame⟩
  · have hbyte : Persisted shared (entryOffset base slot + entState) 1 := by
      intro i hi
      obtain rfl : i = 0 := by omega
      exact hrest.state
    exact hchanges.persisted hbyte (by unfold entState; omega) 0 (by decide)
  · rw [hstate] at hactive
    exact hchanges.persisted (hrest.rest hactive) (by omega)

/-! ### Catalogs -/

/-- The magic number has reached the media. -/
structure MagicAtRest (base : ℕ) (shared : CachedMemory) : Prop where
  persisted : Persisted shared (base + catHdrMagic) 8
  word_eq : loadWord shared.cached (base + catHdrMagic) 8 = allocMagic

theorem MagicAtRest.media_eq (hmagic : MagicAtRest base shared) :
    loadWord shared.media (base + catHdrMagic) 8 = allocMagic := by
  rw [loadWord_congr hmagic.persisted.load, hmagic.word_eq]

/-- A change behind the magic number leaves it at rest. -/
theorem MagicAtRest.changes (hmagic : MagicAtRest base shared) {offset length : ℕ}
    (hchanges : Changes offset length shared after) (hoffset : base + 8 ≤ offset) :
    MagicAtRest base after := by
  have hfield : catHdrMagic = 0 := rfl
  refine ⟨hchanges.persisted hmagic.persisted (by omega), ?_⟩
  rw [← hmagic.word_eq]
  exact loadWord_congr (load_congr fun i hi ↦ hchanges.cached _ (by omega))

/-- All entries are at rest. -/
structure SettledCatalog (base : ℕ) (shared : CachedMemory) : Prop where
  magic : MagicAtRest base shared
  entry : ∀ slot < maxRegions, AtRest base shared slot

/-- A crash loses nothing. -/
theorem SettledCatalog.activeRegions_media (hsettled : SettledCatalog base shared) :
    activeRegions base shared.media = activeRegions base shared.cached :=
  activeRegions_congr fun slot hslot ↦ (hsettled.entry slot hslot).regionAt_media

/-- All entries but one are at rest and as they were. -/
structure Elsewhere (base slot : ℕ) (before shared : CachedMemory) : Prop where
  magic : MagicAtRest base shared
  entry : ∀ other < maxRegions, other ≠ slot → AtRest base shared other
  same : ∀ other < maxRegions, other ≠ slot → SameEntry base other shared.cached before.cached

theorem SettledCatalog.elsewhere (hsettled : SettledCatalog base shared) (slot : ℕ) :
    Elsewhere base slot shared shared where
  magic := hsettled.magic
  entry := fun other hother _ ↦ hsettled.entry other hother
  same := fun other _ _ ↦ .refl base other shared.cached

/-- A change inside the one entry. -/
theorem Elsewhere.changes (helsewhere : Elsewhere base slot before shared) {offset length : ℕ}
    (hchanges : Changes offset length shared after) (hlow : entryOffset base slot ≤ offset)
    (hhigh : offset + length ≤ entryOffset base slot + catalogEntrySize) :
    Elsewhere base slot before after := by
  have hheader := header_le_entryOffset base slot
  have hsize : catalogHeaderSize = 64 := rfl
  have hstep : ∀ other < maxRegions, other ≠ slot →
      AtRest base after other ∧ SameEntry base other after.cached shared.cached := by
    intro other hother hne
    have hdisjoint := @entryOffset_disjoint base other slot hne
    exact (helsewhere.entry other hother hne).changes hchanges (by omega)
  exact
    { magic := helsewhere.magic.changes hchanges (by omega)
      entry := fun other hother hne ↦ (hstep other hother hne).1
      same := fun other hother hne ↦
        (hstep other hother hne).2.trans (helsewhere.same other hother hne) }

/-- Lines that are written back leave the other entries at rest. -/
theorem Elsewhere.settles (helsewhere : Elsewhere base slot before shared)
    (hsettles : Settles shared after) : Elsewhere base slot before after :=
  helsewhere.changes (hsettles.changes (entryOffset base slot) 0) (Nat.le_refl _) (by omega)

/-- The one entry comes to rest as well. -/
theorem Elsewhere.settled (helsewhere : Elsewhere base slot before shared)
    (hrest : AtRest base shared slot) : SettledCatalog base shared where
  magic := helsewhere.magic
  entry := fun other hother ↦ by
    by_cases hsame : other = slot
    · rwa [hsame]
    · exact helsewhere.entry other hother hsame

/-- A change of the header behind the magic number leaves a settled catalog settled. -/
theorem SettledCatalog.changes_header (hsettled : SettledCatalog base shared) {offset length : ℕ}
    (hchanges : Changes offset length shared after) (hlow : base + 8 ≤ offset)
    (hhigh : offset + length ≤ base + catalogHeaderSize) : SettledCatalog base after where
  magic := hsettled.magic.changes hchanges hlow
  entry := fun slot hslot ↦ ((hsettled.entry slot hslot).changes hchanges
    (Or.inl (hhigh.trans (header_le_entryOffset base slot)))).1

/-- Lines that are written back leave a settled catalog settled. -/
theorem SettledCatalog.settles (hsettled : SettledCatalog base shared)
    (hsettles : Settles shared after) : SettledCatalog base after :=
  hsettled.changes_header (hsettles.changes (base + 8) 0) (Nat.le_refl _)
    (Nat.add_le_add_left (by decide : 8 ≤ catalogHeaderSize) base)

/-- Storing the count leaves a settled catalog settled, with the same entries. -/
theorem SettledCatalog.changes_count (hsettled : SettledCatalog base shared)
    (hchanges : Changes (base + catHdrRegionCount) 8 shared after) : SettledCatalog base after :=
  hsettled.changes_header hchanges (Nat.le_refl _)
    (Nat.add_le_add_left (by decide : catHdrRegionCount + 8 ≤ catalogHeaderSize) _)

/-- The regions of the other entries survive a crash. -/
theorem Elsewhere.regionAt_media (helsewhere : Elsewhere base slot before shared)
    (hother : other < maxRegions) (hne : other ≠ slot) :
    regionAt base shared.media other = regionAt base before.cached other := by
  rw [(helsewhere.entry other hother hne).regionAt_media,
    regionAt_congr (helsewhere.same other hother hne)]

/-- Catalogs that agree on one slot and on all others have the same regions. -/
theorem activeRegions_eq_of_slot {first second : Memory}
    (hslot : regionAt base first slot = regionAt base second slot)
    (hothers : ∀ other < maxRegions, other ≠ slot →
      regionAt base first other = regionAt base second other) :
    activeRegions base first = activeRegions base second :=
  activeRegions_congr fun other hother ↦ by
    by_cases hsame : other = slot
    · rwa [hsame]
    · exact hothers other hother hsame

end Fence
