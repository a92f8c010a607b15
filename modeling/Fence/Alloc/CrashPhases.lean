import Fence.Alloc.AtRest

/-!
# How far a call has got, on the media

A call changes one entry of a settled catalog. While `create_region` writes it, the entry is active
neither in the cache nor on the media (`Vacant`). It becomes active in the cache when all else of it
has reached the media (`Activated`), and is at rest again when it was flushed. `free_region` leaves
the old entry whole while its state may still be on the media (`Releasing`). `CreatePoint.Safe` and
`FreePoint.Safe` say which of these holds at which program point, and every step preserves them.
-/

set_option autoImplicit false
set_option relaxedAutoImplicit false

namespace Fence

open ByteMemory ByteMemory.CachedMemory Interleaving

variable {base poolSize slot : ℕ} {before shared after : CachedMemory}

/-! ### Phases of an entry -/

/-- Nothing has changed since the call was made. -/
structure AsBefore (base : ℕ) (before shared : CachedMemory) : Prop where
  cached_eq : shared.cached = before.cached
  settled : SettledCatalog base shared

/-- The entry is active neither in the cache nor on the media. With `flushed`, all but its state is
on the media. -/
structure Vacant (base slot : ℕ) (before : CachedMemory) (flushed : Prop) (shared : CachedMemory) :
    Prop where
  elsewhere : Elsewhere base slot before shared
  cached_ne : entryByte shared.cached base slot ≠ RegionState.active.toU8
  media_ne : entryByte shared.media base slot ≠ RegionState.active.toU8
  rest : flushed → Persisted shared (entryOffset base slot + 1) 63

/-- The entry is active in the cache, and all but its state is on the media. -/
structure Activated (base slot : ℕ) (before shared : CachedMemory) : Prop where
  elsewhere : Elsewhere base slot before shared
  cached_eq : entryByte shared.cached base slot = RegionState.active.toU8
  rest : Persisted shared (entryOffset base slot + 1) 63

/-- The entry is not active in the cache any more. All but its state is on the media, as it was. -/
structure Releasing (base slot : ℕ) (before shared : CachedMemory) : Prop where
  elsewhere : Elsewhere base slot before shared
  cached_ne : entryByte shared.cached base slot ≠ RegionState.active.toU8
  rest : Persisted shared (entryOffset base slot + 1) 63
  same : ∀ i < 63, shared.cached (entryOffset base slot + 1 + i) =
    before.cached (entryOffset base slot + 1 + i)

theorem Vacant.imp {flushed weaker : Prop} (hvacant : Vacant base slot before flushed shared)
    (himp : weaker → flushed) : Vacant base slot before weaker shared :=
  ⟨hvacant.elsewhere, hvacant.cached_ne, hvacant.media_ne, fun hweaker ↦
    hvacant.rest (himp hweaker)⟩

/-! ### Lines written back -/

theorem AsBefore.settles (hbefore : AsBefore base before shared)
    (hsettles : Settles shared after) : AsBefore base before after :=
  ⟨hsettles.cached_eq.trans hbefore.cached_eq, hbefore.settled.settles hsettles⟩

/-- A state that is neither in the cache nor on the media does not come up. -/
theorem entryByte_settles {value : UInt8} (hsettles : Settles shared after)
    (hcached : entryByte shared.cached base slot ≠ value)
    (hmedia : entryByte shared.media base slot ≠ value) :
    entryByte after.cached base slot ≠ value ∧ entryByte after.media base slot ≠ value := by
  refine ⟨by rwa [hsettles.cached_eq], ?_⟩
  rcases hsettles.media (entryOffset base slot + entState) with hsame | hnew
  · exact fun hvalue ↦ hmedia (hsame.symm.trans hvalue)
  · exact fun hvalue ↦ hcached (hnew.symm.trans hvalue)

theorem Vacant.settles {flushed : Prop} (hvacant : Vacant base slot before flushed shared)
    (hsettles : Settles shared after) : Vacant base slot before flushed after := by
  obtain ⟨hcached, hmedia⟩ := entryByte_settles hsettles hvacant.cached_ne hvacant.media_ne
  exact ⟨hvacant.elsewhere.settles hsettles, hcached, hmedia,
    fun hflushed ↦ hsettles.persisted (hvacant.rest hflushed)⟩

theorem Activated.settles (hactivated : Activated base slot before shared)
    (hsettles : Settles shared after) : Activated base slot before after :=
  ⟨hactivated.elsewhere.settles hsettles, by rw [hsettles.cached_eq]; exact hactivated.cached_eq,
    hsettles.persisted hactivated.rest⟩

theorem Releasing.settles (hreleasing : Releasing base slot before shared)
    (hsettles : Settles shared after) : Releasing base slot before after := by
  refine ⟨hreleasing.elsewhere.settles hsettles, ?_, hsettles.persisted hreleasing.rest, ?_⟩
  · rw [hsettles.cached_eq]
    exact hreleasing.cached_ne
  · rw [hsettles.cached_eq]
    exact hreleasing.same

/-! ### Stores and flushes -/

/-- A store of bytes of the entry behind its state. -/
theorem Vacant.write {flushed : Prop} (hvacant : Vacant base slot before flushed shared)
    {offset length : ℕ} (hlow : entryOffset base slot + 1 ≤ offset)
    (hhigh : offset + length ≤ entryOffset base slot + catalogEntrySize)
    (hchanges : Changes offset length shared after) (hmedia : after.media = shared.media) :
    Vacant base slot before False after := by
  refine ⟨hvacant.elsewhere.changes hchanges (by omega) hhigh, ?_, ?_, False.elim⟩
  · rw [entryByte, hchanges.cached _ (by unfold entState; omega)]
    exact hvacant.cached_ne
  · rw [hmedia]
    exact hvacant.media_ne

/-- The entry is flushed before its state is stored. -/
theorem Vacant.flush {flushed : Prop} (hvacant : Vacant base slot before flushed shared) :
    Vacant base slot before True (shared.flush cacheline (entryOffset base slot) 64) := by
  have hsettles : Settles shared (shared.flush cacheline (entryOffset base slot) 64) :=
    settles_flush _ _ _
  obtain ⟨hcached, hmedia⟩ := entryByte_settles hsettles hvacant.cached_ne hvacant.media_ne
  refine ⟨hvacant.elsewhere.settles hsettles, hcached, hmedia, fun _ ↦ ?_⟩
  exact (persisted_flush _ _ shared).mono (by omega) (by omega)

/-- The memory with another state of an entry in the cache. -/
def storeState (base slot : ℕ) (state : RegionState) (shared : CachedMemory) : CachedMemory :=
  { shared with cached := store shared.cached (entryOffset base slot + entState) [state.toU8] }

theorem changes_storeState (base slot : ℕ) (state : RegionState) (shared : CachedMemory) :
    Changes (entryOffset base slot) 1 shared (storeState base slot state shared) :=
  ⟨fun _ houtside ↦ store_apply_outside houtside, fun _ ↦ Or.inl rfl⟩

theorem entryByte_storeState (base slot : ℕ) (state : RegionState) (shared : CachedMemory) :
    entryByte (storeState base slot state shared).cached base slot = state.toU8 :=
  store_one_self _ _ _

theorem persisted_storeState {state : RegionState}
    (hrest : Persisted shared (entryOffset base slot + 1) 63) :
    Persisted (storeState base slot state shared) (entryOffset base slot + 1) 63 :=
  (changes_storeState base slot state shared).persisted hrest (Or.inr (Nat.le_refl _))

theorem Elsewhere.storeState (helsewhere : Elsewhere base slot before shared)
    (state : RegionState) : Elsewhere base slot before (storeState base slot state shared) :=
  helsewhere.changes (changes_storeState base slot state shared) (Nat.le_refl _)
    (by unfold catalogEntrySize; omega)

/-- A state that is not active is stored. -/
theorem Vacant.storeState {flushed : Prop} (hvacant : Vacant base slot before flushed shared)
    {state : RegionState} (hstate : state ≠ .active) :
    Vacant base slot before flushed (Fence.storeState base slot state shared) where
  elsewhere := hvacant.elsewhere.storeState state
  cached_ne := by
    rw [entryByte_storeState]
    cases state <;> first | decide | exact absurd rfl hstate
  media_ne := hvacant.media_ne
  rest := fun hflushed ↦ persisted_storeState (hvacant.rest hflushed)

/-- The entry becomes active in the cache. -/
theorem Vacant.activate (hvacant : Vacant base slot before True shared) :
    Activated base slot before (Fence.storeState base slot .active shared) :=
  ⟨hvacant.elsewhere.storeState .active, entryByte_storeState base slot .active shared,
    persisted_storeState (hvacant.rest trivial)⟩

/-- Once the entry is flushed the catalog is settled. -/
theorem Elsewhere.flush (helsewhere : Elsewhere base slot before shared) :
    SettledCatalog base (shared.flush cacheline (entryOffset base slot) 64) :=
  (helsewhere.settles (settles_flush _ _ _)).settled (.of_persisted (persisted_flush _ _ shared))

/-- An active entry is released in the cache. -/
theorem AsBefore.release (hbefore : AsBefore base before shared) (hslot : slot < maxRegions)
    (hactive : entryByte before.cached base slot = RegionState.active.toU8) :
    Releasing base slot before (Fence.storeState base slot .freeing shared) := by
  have hrest := (hbefore.settled.entry slot hslot).rest (by rwa [hbefore.cached_eq])
  have helsewhere : Elsewhere base slot before shared :=
    ⟨hbefore.settled.magic, fun other hother _ ↦ hbefore.settled.entry other hother,
      fun other _ _ ↦ by rw [hbefore.cached_eq]; exact .refl base other before.cached⟩
  refine ⟨helsewhere.storeState .freeing, ?_, ?_, fun i hi ↦ ?_⟩
  · rw [entryByte_storeState]
    decide
  · exact persisted_storeState (hrest.mono (by omega) (by unfold catalogEntrySize; omega))
  · rw [(changes_storeState base slot .freeing shared).cached _ (by omega), hbefore.cached_eq]

/-- The released state is flushed. -/
theorem Releasing.flush (hreleasing : Releasing base slot before shared) :
    Vacant base slot before False (shared.flush cacheline (entryOffset base slot) 64) := by
  have hpersisted := @persisted_flush cacheline (entryOffset base slot) 64 shared
  refine ⟨hreleasing.elsewhere.settles (settles_flush _ _ _), hreleasing.cached_ne, ?_, False.elim⟩
  exact fun hactive ↦ hreleasing.cached_ne ((hpersisted 0 (by decide)).symm.trans hactive)

/-- An entry that is not active, of a settled catalog. -/
theorem AsBefore.vacant (hbefore : AsBefore base before shared) (hslot : slot < maxRegions)
    (hfree : entryByte before.cached base slot ≠ RegionState.active.toU8) :
    Vacant base slot before False shared where
  elsewhere := ⟨hbefore.settled.magic, fun other hother _ ↦ hbefore.settled.entry other hother,
    fun other _ _ ↦ by rw [hbefore.cached_eq]; exact .refl base other before.cached⟩
  cached_ne := by rwa [hbefore.cached_eq]
  media_ne := by rwa [(hbefore.settled.entry slot hslot).state, hbefore.cached_eq]
  rest := False.elim

/-! ### What a crash leaves -/

theorem AsBefore.activeRegions_media (hbefore : AsBefore base before shared) :
    activeRegions base shared.media = activeRegions base before.cached := by
  rw [hbefore.settled.activeRegions_media, hbefore.cached_eq]

/-- The entry is not a region on the media. -/
theorem Vacant.activeRegions_media {flushed : Prop}
    (hvacant : Vacant base slot before flushed shared) {memory : Memory}
    (hnone : regionAt base memory slot = none)
    (hothers : ∀ other, other ≠ slot →
      regionAt base memory other = regionAt base before.cached other) :
    activeRegions base shared.media = activeRegions base memory := by
  refine @activeRegions_eq_of_slot base slot _ _ ?_ fun other hother hne ↦ ?_
  · rw [hnone, regionAt_eq_none_iff_entryByte.mpr hvacant.media_ne]
  · rw [hothers other hne, hvacant.elsewhere.regionAt_media hother hne]

/-- The entry is a region on the media as it is in the cache, or none. -/
theorem Activated.activeRegions_media (hactivated : Activated base slot before shared)
    (hnone : regionAt base before.cached slot = none) :
    activeRegions base shared.media = activeRegions base before.cached ∨
      activeRegions base shared.media = activeRegions base shared.cached := by
  by_cases hmedia : entryByte shared.media base slot = RegionState.active.toU8
  · refine Or.inr (@activeRegions_eq_of_slot base slot _ _ ?_ fun other hother hne ↦ ?_)
    · exact regionAt_congr (sameEntry_of_persisted (hmedia.trans hactivated.cached_eq.symm)
        hactivated.rest)
    · exact (hactivated.elsewhere.entry other hother hne).regionAt_media
  · refine Or.inl (@activeRegions_eq_of_slot base slot _ _ ?_ fun other hother hne ↦ ?_)
    · rw [hnone, regionAt_eq_none_iff_entryByte.mpr hmedia]
    · exact hactivated.elsewhere.regionAt_media hother hne

/-- The entry is a region on the media as it was, or none. -/
theorem Releasing.activeRegions_media (hreleasing : Releasing base slot before shared)
    (hactive : entryByte before.cached base slot = RegionState.active.toU8) {memory : Memory}
    (hnone : regionAt base memory slot = none)
    (hothers : ∀ other, other ≠ slot →
      regionAt base memory other = regionAt base before.cached other) :
    activeRegions base shared.media = activeRegions base before.cached ∨
      activeRegions base shared.media = activeRegions base memory := by
  by_cases hmedia : entryByte shared.media base slot = RegionState.active.toU8
  · refine Or.inl (@activeRegions_eq_of_slot base slot _ _ ?_ fun other hother hne ↦ ?_)
    · refine regionAt_congr fun i hi ↦ ?_
      cases i with
      | zero => exact hmedia.trans hactive.symm
      | succ i =>
        have hlast : i < 63 := by unfold catalogEntrySize at hi; omega
        have hbyte := (hreleasing.rest i hlast).trans (hreleasing.same i hlast)
        rwa [Nat.add_assoc, Nat.add_comm 1 i] at hbyte
    · exact hreleasing.elsewhere.regionAt_media hother hne
  · refine Or.inr (@activeRegions_eq_of_slot base slot _ _ ?_ fun other hother hne ↦ ?_)
    · rw [hnone, regionAt_eq_none_iff_entryByte.mpr hmedia]
    · rw [hothers other hne, hreleasing.elsewhere.regionAt_media hother hne]

end Fence
