import Fence.Alloc.Entries

/-!
# The codec of catalog entries

To the routines of `catalog.rs` a catalog is an array of entries: `write_entry` replaces one of them
(`ofMemory_writtenEntry_eq_update`) and leaves the header alone, and `read_entry` returns the entry
of an index and nothing else (`readsEntry_iff`). So an entry is read back as it was written,
whatever the bytes before it were, and no other entry is disturbed (`entry_roundTrip`).
-/

set_option autoImplicit false
set_option relaxedAutoImplicit false

namespace Fence

open ByteMemory Interleaving

variable {base index : ℕ} {memory later : Memory} {entry : CatalogEntry}

/-- `read_entry` returns an entry. -/
def ReadsEntry (memory : Memory) (base index : ℕ) (entry : CatalogEntry) : Prop :=
  (routineMachine (Catalog.readEntry base index)).Ends (.running .loadState) memory
    (.returned entry) memory

/-- `write_entry` turns a memory into another. -/
def WritesEntry (memory : Memory) (base index : ℕ) (entry : CatalogEntry) (later : Memory) : Prop :=
  (routineMachine (Catalog.writeEntry base index entry)).Ends (.running .writeNameLen) memory
    (.returned ()) later

/-- `read_entry` returns the entry its bytes hold, and no other. -/
theorem readsEntry_iff :
    ReadsEntry memory base index entry ↔ CatalogEntry.ofMemory memory base index = entry := by
  constructor
  · intro hreads
    have hsame := (readEntry_ends base index memory).unique hreads (fun _ ↦ rfl) (fun _ ↦ rfl)
    exact Task.returned.inj hsame.1
  · rintro rfl
    exact readEntry_ends base index memory

/-- `write_entry` leaves one memory, and no other. -/
theorem writesEntry_iff :
    WritesEntry memory base index entry later ↔ writtenEntry memory base index entry = later := by
  constructor
  · intro hwrites
    exact ((writeEntry_ends base index entry memory).unique hwrites (fun _ ↦ rfl)
      (fun _ ↦ rfl)).2
  · rintro rfl
    exact writeEntry_ends base index entry memory

/-- Writing an entry does not touch another one. -/
theorem sameEntry_writtenEntry {other : ℕ} (hne : other ≠ index) :
    SameEntry base other (writtenEntry memory base index entry) memory := by
  intro i hi
  have hapart : entryOffset base other + catalogEntrySize ≤ entryOffset base index ∨
      entryOffset base index + catalogEntrySize ≤ entryOffset base other :=
    entryOffset_disjoint hne
  exact writtenEntry_apply_outside (by omega)

/-- Writing an entry replaces it in the array of the entries. -/
theorem ofMemory_writtenEntry_eq_update (hfits : entry.Fits) :
    CatalogEntry.ofMemory (writtenEntry memory base index entry) base =
      Function.update (CatalogEntry.ofMemory memory base) index entry := by
  funext other
  by_cases hsame : other = index
  · rw [hsame, Function.update_self]
    exact CatalogEntry.ofMemory_writtenEntry hfits
  · rw [Function.update_of_ne hsame]
    exact CatalogEntry.ofMemory_congr (sameEntry_writtenEntry hsame)

/-! ### Alignment -/

/-- The words of an entry are aligned when the catalog is. -/
theorem entryOffset_add_aligned {field : ℕ} (hbase : base % 8 = 0) (hfield : field % 8 = 0) :
    (entryOffset base index + field) % 8 = 0 := by
  rw [entryOffset_eq]
  omega

/-- `read_entry` loads its words at multiples of eight, as the backend asks for. -/
theorem Catalog.readEntry_aligned (hbase : base % 8 = 0) (point : ReadEntryPoint)
    (hword : (Catalog.readEntry base index point).isWord = true) :
    (Catalog.readEntry base index point).offset % 8 = 0 := by
  cases point with
  | loadOffset => exact entryOffset_add_aligned hbase (by decide : entOffset % 8 = 0)
  | loadSize => exact entryOffset_add_aligned hbase (by decide : entSize % 8 = 0)
  | loadEpoch => exact entryOffset_add_aligned hbase (by decide : entEpoch % 8 = 0)
  | _ => cases hword

/-- `write_entry` stores its words at multiples of eight. -/
theorem Catalog.writeEntry_aligned (hbase : base % 8 = 0) (point : WriteEntryPoint)
    (hword : (Catalog.writeEntry base index entry point).isWord = true) :
    (Catalog.writeEntry base index entry point).offset % 8 = 0 := by
  cases point with
  | storeOffset => exact entryOffset_add_aligned hbase (by decide : entOffset % 8 = 0)
  | storeSize => exact entryOffset_add_aligned hbase (by decide : entSize % 8 = 0)
  | storeEpoch => exact entryOffset_add_aligned hbase (by decide : entEpoch % 8 = 0)
  | _ => cases hword

/-! ### The round trip -/

/-- After `write_entry`, `read_entry` returns the entry that was written. For every other entry it
returns what it returned before, and the header is what it was. -/
theorem entry_roundTrip (base index : ℕ) (entry : CatalogEntry) (hfits : entry.Fits)
    (memory : Memory) :
    ∃ later, WritesEntry memory base index entry later ∧ ReadsEntry later base index entry ∧
      (∀ other, other ≠ index → ∃ found,
        ReadsEntry memory base other found ∧ ReadsEntry later base other found) ∧
      ∀ i < catalogHeaderSize, later (base + i) = memory (base + i) := by
  have hentries : CatalogEntry.ofMemory (writtenEntry memory base index entry) base =
      Function.update (CatalogEntry.ofMemory memory base) index entry :=
    ofMemory_writtenEntry_eq_update hfits
  refine ⟨writtenEntry memory base index entry, writesEntry_iff.mpr rfl, ?_, ?_, ?_⟩
  · rw [readsEntry_iff, hentries, Function.update_self]
  · intro other hne
    refine ⟨CatalogEntry.ofMemory memory base other, readsEntry_iff.mpr rfl, ?_⟩
    rw [readsEntry_iff, hentries, Function.update_of_ne hne]
  · intro i hi
    have hheader := header_le_entryOffset base index
    exact writtenEntry_apply_outside (Or.inl (by omega))

/-- A name of characters of one, two and three bytes, over bytes that are no name. -/
theorem entry_roundTrip_utf8 : ∃ later,
    WritesEntry (fun _ ↦ 255) 8 3 ⟨.active, "région 日本", 18446744073709551615, 64, 7⟩ later ∧
      ReadsEntry later 8 3 ⟨.active, "région 日本", 18446744073709551615, 64, 7⟩ ∧
      (∀ other, other ≠ 3 → ∃ found,
        ReadsEntry (fun _ ↦ 255) 8 other found ∧ ReadsEntry later 8 other found) ∧
      ∀ i < catalogHeaderSize, later (8 + i) = 255 :=
  entry_roundTrip 8 3 ⟨.active, "région 日本", 18446744073709551615, 64, 7⟩
    ⟨by decide, by decide, by decide, by decide⟩ fun _ ↦ 255

end Fence
