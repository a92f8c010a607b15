import Fence.Protocol.Steps

/-!
# The counters of the hosts

Every host has a block of counters behind the records. `counter` reads one of them off a memory.
A store into the header or into a record leaves all of them alone, and an increment moves one of
them on, modulo the range of a word (`bump`).
-/

set_option autoImplicit false
set_option relaxedAutoImplicit false

namespace Fence

open ByteMemory Interleaving

variable {g : PoolGeometry} {memory : Memory}

/-- The counters of a block, by their offsets in it. -/
def metricsFields : List ℕ :=
  [metricsAppendsTotal, metricsAppendsFailed, metricsBytesWritten, metricsReadsTotal,
    metricsChecksumFailures, metricsRecoveryRuns, metricsAbandonedFound]

variable (g memory) in
/-- A counter of a host. -/
def counter (hostId field : ℕ) : ℕ := loadWord memory (g.metricsOffset hostId + field) 8

/-- An amount added to a counter of a host. -/
structure Increment where
  hostId : UInt16
  field : ℕ
  amount : ℕ

/-- The counters after an increment. -/
def bump (counters : ℕ → ℕ → ℕ) (increment : Increment) : ℕ → ℕ → ℕ := fun hostId field ↦
  if hostId = increment.hostId.toNat ∧ field = increment.field then
    (counters hostId field + increment.amount) % 2 ^ 64
  else counters hostId field

variable (g) in
/-- From one memory to another the counters have moved on by the increments. -/
def Counted (increments : List Increment) (memory later : Memory) : Prop :=
  ∀ hostId, ∀ field ∈ metricsFields,
    counter g later hostId field = increments.foldl bump (counter g memory) hostId field

theorem Counted.refl (memory : Memory) : Counted g [] memory memory := fun _ _ _ ↦ rfl

/-- A counter that is the same in two tables is the same after increments. -/
theorem bump_congr {counters others : ℕ → ℕ → ℕ} {hostId field : ℕ}
    (hsame : counters hostId field = others hostId field) (increments : List Increment) :
    increments.foldl bump counters hostId field = increments.foldl bump others hostId field := by
  induction increments generalizing counters others with
  | nil => exact hsame
  | cons increment rest ih =>
    refine ih ?_
    simp only [bump, hsame]

theorem Counted.trans {first second : List Increment} {between later : Memory}
    (hfirst : Counted g first memory between) (hsecond : Counted g second between later) :
    Counted g (first ++ second) memory later := by
  intro hostId field hfield
  rw [List.foldl_append, hsecond hostId field hfield]
  exact bump_congr (hfirst hostId field hfield) second

/-- A counter lies in the block of its host. -/
theorem metricsFields_bounds {field : ℕ} (hfield : field ∈ metricsFields) :
    field + 8 ≤ cacheline ∧ field % 8 = 0 := by
  simp only [metricsFields, List.mem_cons, List.not_mem_nil, or_false] at hfield
  rcases hfield with rfl | rfl | rfl | rfl | rfl | rfl | rfl <;> decide

theorem headerSize_le_metricsOffset (hostId : ℕ) : headerSize ≤ g.metricsOffset hostId := by
  unfold PoolGeometry.metricsOffset
  omega

/-- A store into the header leaves the counters alone. -/
theorem Counted.store_header {offset : ℕ} {bytes : List UInt8}
    (hheader : offset + bytes.length ≤ headerSize) :
    Counted g [] memory (store memory offset bytes) := by
  intro hostId field hfield
  have hmetrics := headerSize_le_metricsOffset (g := g) hostId
  exact loadWord_store_outside (by omega)

/-- A store into a record leaves the counters alone. -/
theorem Counted.store_slot {slot offset : ℕ} {bytes : List UInt8} (hslot : slot < g.capacity)
    (hfits : offset + bytes.length ≤ g.recordSize) :
    Counted g [] memory (store memory (g.recordOffset slot + offset) bytes) := by
  intro hostId field hfield
  have hmetrics := PoolGeometry.recordOffset_add_le_metricsOffset hslot hostId
  exact loadWord_store_outside (by omega)

/-- Creating a pool leaves the counters as they were. -/
theorem Counted.createHeader (memory : Memory) : Counted g [] memory (createHeader g memory) := by
  have hheader : ∀ {between : Memory} {offset value : ℕ}, offset + 8 ≤ headerSize →
      Counted g [] memory between → Counted g [] memory (storeWord between offset 8 value) :=
    fun hfits hbetween ↦ hbetween.trans (Counted.store_header (by rwa [length_leBytes]))
  rw [Fence.createHeader]
  iterate 7 refine hheader (by decide) ?_
  exact .refl memory

/-- An increment moves its counter on. -/
theorem Counted.increment {Next : Type} {next : Next} {hostId : UInt16} {field : ℕ} (amount : ℕ)
    (hfield : field ∈ metricsFields) :
    Counted g [⟨hostId, field, amount⟩] memory
      ((Metrics.incrementCounter g field hostId amount next).exec memory).2 := by
  intro host held hheld
  have hbounds := metricsFields_bounds hfield
  have hbounds' := metricsFields_bounds hheld
  simp only [Metrics.incrementCounter, BackendCall.exec, List.foldl_cons, List.foldl_nil, bump]
  split_ifs with hsame
  · obtain ⟨rfl, rfl⟩ := hsame
    rw [counter, loadWord_storeWord_self, counter]
    exact Nat.mod_eq_of_lt (Nat.mod_lt _ (by decide))
  · refine loadWord_store_outside ?_
    rw [length_leBytes]
    unfold PoolGeometry.metricsOffset
    unfold cacheline at hbounds hbounds' ⊢
    by_cases hhost : host = hostId.toNat
    · have hother : held ≠ field := fun h ↦ hsame ⟨hhost, h⟩
      rw [hhost]
      omega
    · omega

end Fence
