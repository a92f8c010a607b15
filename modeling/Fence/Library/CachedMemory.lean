import Fence.Library.ByteMemory

/-!
# A volatile cache in front of the media

A coherent cache of lines of one width. All readers and writers see the cached bytes. A flush
writes the lines that cover a run of bytes to the media, any line may be written back at any
moment, and a crash leaves the media. Both are `persist`, which copies a set of lines. So every
byte of the media is either what it was or what the cache holds (`persist_media`), which is all
that invariants about what survives a crash need.
-/

set_option autoImplicit false
set_option relaxedAutoImplicit false

namespace ByteMemory

/-- What readers and writers see, and what a crash leaves. -/
@[ext] structure CachedMemory where
  cached : Memory
  media : Memory

namespace CachedMemory

variable (width : ℕ)

/-- A memory whose cache is clean. -/
def clean (memory : Memory) : CachedMemory := ⟨memory, memory⟩

/-- What a power failure leaves: the cache is what the media holds. -/
def powerFailure (memory : CachedMemory) : CachedMemory := clean memory.media

/-- The memory after some lines were written to the media. -/
def persist (memory : CachedMemory) (lines : ℕ → Prop) [DecidablePred lines] : CachedMemory where
  cached := memory.cached
  media := fun address ↦
    if lines (address / width) then memory.cached address else memory.media address

/-- One line is written back. -/
def writeBack (line : ℕ) (memory : CachedMemory) : CachedMemory :=
  memory.persist width fun other ↦ other = line

/-- The line has a byte of the run. A run of no bytes has no lines. -/
def Covers (offset length line : ℕ) : Prop :=
  0 < length ∧ offset / width ≤ line ∧ line * width < offset + length

instance (offset length : ℕ) : DecidablePred (Covers width offset length) := fun _ ↦
  inferInstanceAs (Decidable (_ ∧ _ ∧ _))

/-- The lines that cover a run of bytes are written back. -/
def flush (offset length : ℕ) (memory : CachedMemory) : CachedMemory :=
  memory.persist width (Covers width offset length)

variable {width}

@[simp] theorem persist_cached (memory : CachedMemory) (lines : ℕ → Prop)
    [DecidablePred lines] : (memory.persist width lines).cached = memory.cached := rfl

/-- A byte of the media stays as it is or becomes that of the cache. -/
theorem persist_media (memory : CachedMemory) (lines : ℕ → Prop) [DecidablePred lines]
    (address : ℕ) : (memory.persist width lines).media address = memory.media address ∨
      (memory.persist width lines).media address = memory.cached address := by
  unfold persist
  by_cases hline : lines (address / width)
  · exact Or.inr (if_pos hline)
  · exact Or.inl (if_neg hline)

/-- What is written to the media depends on which lines are, not on how they are given. -/
theorem persist_congr {lines others : ℕ → Prop} [DecidablePred lines] [DecidablePred others]
    (hlines : ∀ line, lines line ↔ others line) (memory : CachedMemory) :
    memory.persist width lines = memory.persist width others := by
  have hmedia (address : ℕ) :
      (memory.persist width lines).media address = (memory.persist width others).media address :=
    if_congr (hlines (address / width)) rfl rfl
  exact CachedMemory.ext rfl (funext hmedia)

@[simp] theorem writeBack_cached (line : ℕ) (memory : CachedMemory) :
    (memory.writeBack width line).cached = memory.cached := rfl

theorem writeBack_media (line : ℕ) (memory : CachedMemory) (address : ℕ) :
    (memory.writeBack width line).media address = memory.media address ∨
      (memory.writeBack width line).media address = memory.cached address :=
  memory.persist_media _ address

theorem writeBack_media_of_eq {line : ℕ} {memory : CachedMemory} {address : ℕ}
    (hline : address / width = line) :
    (memory.writeBack width line).media address = memory.cached address := if_pos hline

theorem writeBack_media_of_ne {line : ℕ} {memory : CachedMemory} {address : ℕ}
    (hline : address / width ≠ line) :
    (memory.writeBack width line).media address = memory.media address := if_neg hline

@[simp] theorem flush_cached (offset length : ℕ) (memory : CachedMemory) :
    (memory.flush width offset length).cached = memory.cached := rfl

theorem flush_media (offset length : ℕ) (memory : CachedMemory) (address : ℕ) :
    (memory.flush width offset length).media address = memory.media address ∨
      (memory.flush width offset length).media address = memory.cached address :=
  memory.persist_media _ address

/-- A flush of no bytes does nothing. -/
theorem flush_zero (offset : ℕ) (memory : CachedMemory) :
    memory.flush width offset 0 = memory := rfl

/-- A flush brings every byte of its run to the media. -/
theorem flush_media_inside {offset length : ℕ} {memory : CachedMemory} {address : ℕ}
    (hlow : offset ≤ address) (hhigh : address < offset + length) :
    (memory.flush width offset length).media address = memory.cached address := by
  refine if_pos ⟨by omega, Nat.div_le_div_right hlow, ?_⟩
  exact Nat.lt_of_le_of_lt (Nat.div_mul_le_self address width) hhigh

/-- A flush leaves the lines before its run alone. -/
theorem flush_media_before {offset length : ℕ} {memory : CachedMemory} {address : ℕ}
    (hline : address / width < offset / width) :
    (memory.flush width offset length).media address = memory.media address :=
  if_neg fun hcovers ↦ Nat.not_le_of_lt hline hcovers.2.1

/-! ### Runs that have reached the media -/

/-- A run of bytes is on the media as the cache holds it. -/
def Persisted (memory : CachedMemory) (offset length : ℕ) : Prop :=
  ∀ i < length, memory.media (offset + i) = memory.cached (offset + i)

/-- The cache stays, and every byte of the media stays or becomes that of the cache. -/
structure Settles (before after : CachedMemory) : Prop where
  cached_eq : after.cached = before.cached
  media : ∀ address, after.media address = before.media address ∨
    after.media address = before.cached address

theorem settles_writeBack (line : ℕ) (memory : CachedMemory) :
    Settles memory (memory.writeBack width line) :=
  ⟨rfl, memory.writeBack_media line⟩

theorem settles_flush (offset length : ℕ) (memory : CachedMemory) :
    Settles memory (memory.flush width offset length) :=
  ⟨rfl, memory.flush_media offset length⟩

/-- A byte that is on the media stays there. -/
theorem Settles.media_eq {before after : CachedMemory} (hsettles : Settles before after)
    {address : ℕ} (hbyte : before.media address = before.cached address) :
    after.media address = before.cached address := by
  rcases hsettles.media address with hsame | hnew
  · rw [hsame, hbyte]
  · exact hnew

theorem Settles.persisted {before after : CachedMemory} (hsettles : Settles before after)
    {offset length : ℕ} (hpersisted : Persisted before offset length) :
    Persisted after offset length := fun i hi ↦ by
  rw [hsettles.media_eq (hpersisted i hi), hsettles.cached_eq]

/-- A flush brings its run to the media. -/
theorem persisted_flush (offset length : ℕ) (memory : CachedMemory) :
    Persisted (memory.flush width offset length) offset length :=
  fun _ hi ↦ flush_media_inside (Nat.le_add_right _ _) (Nat.add_lt_add_left hi _)

theorem Persisted.mono {memory : CachedMemory} {offset length other count : ℕ}
    (hpersisted : Persisted memory offset length) (hlow : offset ≤ other)
    (hhigh : other + count ≤ offset + length) : Persisted memory other count := by
  intro i hi
  obtain ⟨skip, rfl⟩ := Nat.exists_eq_add_of_le hlow
  rw [Nat.add_assoc]
  exact hpersisted (skip + i) (by omega)

/-- The cache stays outside a run, and a byte of the media stays or becomes that of the cache. -/
structure Changes (offset length : ℕ) (before after : CachedMemory) : Prop where
  cached : ∀ address, address < offset ∨ offset + length ≤ address →
    after.cached address = before.cached address
  media : ∀ address, after.media address = before.media address ∨
    after.media address = before.cached address

theorem Settles.changes {before after : CachedMemory} (hsettles : Settles before after)
    (offset length : ℕ) : Changes offset length before after :=
  ⟨fun address _ ↦ congrFun hsettles.cached_eq address, hsettles.media⟩

/-- What is on the media stays there while another run changes. -/
theorem Changes.persisted {offset length other count : ℕ} {before after : CachedMemory}
    (hchanges : Changes offset length before after) (hpersisted : Persisted before other count)
    (houtside : other + count ≤ offset ∨ offset + length ≤ other) :
    Persisted after other count := by
  intro i hi
  rw [hchanges.cached (other + i) (by omega)]
  rcases hchanges.media (other + i) with hsame | hnew
  · rw [hsame, hpersisted i hi]
  · exact hnew

theorem Persisted.load {memory : CachedMemory} {offset length : ℕ}
    (hpersisted : Persisted memory offset length) :
    ByteMemory.load memory.media offset length = ByteMemory.load memory.cached offset length :=
  load_congr hpersisted

end CachedMemory

end ByteMemory
