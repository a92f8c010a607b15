import Fence.Protocol.Durable
import Fence.Protocol.ReadAlone
import Fence.Protocol.RecoverAlone

/-!
# Reopening a pool after a crash

After a crash a pool is reopened by running `recover` on what the media holds. That routine is the
recovery of `recovery.rs` followed by its metrics, so it ends with the memory of `Recovered` up to
the metrics (`Reopened.exists_recovered`). What this says about the pool is stated for the media
of a cached run: a committed slot there holds a complete record, so recovery keeps it
(`Durable.kept_iff`).
-/

set_option autoImplicit false
set_option relaxedAutoImplicit false

namespace Fence

open ByteMemory Interleaving

variable {g : PoolGeometry} {hasher : Hasher}

/-! ### The routine that reopens -/

variable (g hasher) in
/-- A `recover` call of some host that runs alone on the media returns with a memory. -/
def Reopened (media recovered : Memory) : Prop :=
  ∃ hostId count report, (runtimeMachine g hasher).solo count
    (Request.call g (.recover hostId)) media = (.recover hostId (.returned report), recovered)

/-- Reopening comes to an end on every media. -/
theorem exists_reopened (media : Memory) : ∃ recovered, Reopened g hasher media recovered := by
  obtain ⟨-, later, ⟨count, hcount⟩, -⟩ := recover_ends g hasher media 0
  exact ⟨later, 0, count, _, hcount⟩

/-- Reopening leaves the pool that recovery leads to. -/
theorem Reopened.exists_recovered {media recovered : Memory}
    (hreopened : Reopened g hasher media recovered) :
    ∃ memory, Recovered g hasher media memory ∧
      Pool.ofMemory g recovered = Pool.ofMemory g memory := by
  obtain ⟨hostId, count, report, hsolo⟩ := hreopened
  obtain ⟨memory, later, hends, hrecovered, hpool, -⟩ := recover_ends g hasher media hostId
  have hreopens : (runtimeMachine g hasher).Ends (Request.call g (.recover hostId)) media
      (.recover hostId (.returned report)) recovered := ⟨count, hsolo⟩
  obtain ⟨-, rfl⟩ := hreopens.unique hends (fun _ ↦ rfl) fun _ ↦ rfl
  exact ⟨memory, hrecovered, hpool⟩

/-! ### The pool after reopening -/

section Pool

variable {media recovered : Memory} {slot : ℕ}

/-- Reopening leaves the reserve tail alone. -/
theorem Reopened.reserveTail_eq (hreopened : Reopened g hasher media recovered) :
    (Pool.ofMemory g recovered).reserveTail = (Pool.ofMemory g media).reserveTail := by
  obtain ⟨memory, hrecovered, hpool⟩ := hreopened.exists_recovered
  rw [hpool]
  exact hrecovered.between.reserveTail_eq

/-- After reopening the committed slots are those that recovery keeps. -/
theorem Reopened.committed_iff (hreopened : Reopened g hasher media recovered)
    (hslot : slot < g.capacity) :
    (Pool.ofMemory g recovered).state slot = stateCommitted ↔ Kept g hasher media slot := by
  obtain ⟨memory, hrecovered, hpool⟩ := hreopened.exists_recovered
  rw [hpool, Pool.ofMemory_state hslot]
  exact hrecovered.committed_iff hslot

/-- After reopening the committed tail has passed the slots up to the first that is not kept. -/
theorem Reopened.lt_tail_iff (hreopened : Reopened g hasher media recovered)
    (hslot : slot < g.capacity) :
    slot < (Pool.ofMemory g recovered).committedTail ↔
      ∀ between, (Pool.ofMemory g media).committedTail ≤ between → between ≤ slot →
        Kept g hasher media between := by
  obtain ⟨memory, hrecovered, hpool⟩ := hreopened.exists_recovered
  rw [hpool]
  exact hrecovered.lt_tail_iff hslot

/-- Reopening leaves the fields of records alone. -/
theorem Reopened.written (hreopened : Reopened g hasher media recovered) {entry : Entry}
    {stage : ℕ} (hslot : slot < g.capacity) (hsize : entry.data.length ≤ g.payloadSize)
    (hwritten : Written hasher entry slot stage ((Pool.ofMemory g media).slot slot)) :
    Written hasher entry slot stage ((Pool.ofMemory g recovered).slot slot) := by
  obtain ⟨memory, hrecovered, hpool⟩ := hreopened.exists_recovered
  intro field hfield hstage
  have hfits := recordFields_bounds hsize hfield
  have hload := hwritten field hfield hstage
  rw [Pool.load_ofMemory_slot hslot hfits] at hload
  rw [hpool, Pool.load_ofMemory_slot hslot hfits,
    hrecovered.between.load_record hslot (recordFields_stage hfield).2.2 hfits, hload]

end Pool

/-! ### The media of a run -/

/-- A record that was flushed is complete on the media. -/
theorem Durable.complete {config : Config Call CachedMemory} (hdurable : Durable g hasher config)
    {slot : ℕ} {entry : Entry} (hstored : Stored config.threads slot entry) :
    slot < g.capacity ∧ entry.data.length ≤ g.payloadSize ∧
      Complete hasher entry slot ((Pool.ofMemory g config.shared.media).slot slot) := by
  obtain ⟨hslot, hsize, -⟩ := hdurable.rely.complete_of_stored slot entry hstored
  have hwritten := hdurable.persisted.written slot entry (hstored.mono_stage (by decide))
  exact ⟨hslot, hsize, hwritten.complete (Nat.le_refl _) hslot hsize⟩

/-- Recovery keeps exactly the slots whose committed state has reached the media. -/
theorem Durable.kept_iff {config : Config Call CachedMemory} (hdurable : Durable g hasher config)
    {slot : ℕ} (hslot : slot < g.capacity) :
    Kept g hasher config.shared.media slot ↔
      (Pool.ofMemory g config.shared.media).state slot = stateCommitted := by
  rw [Pool.ofMemory_state hslot]
  refine ⟨And.left, fun hstate ↦ ⟨hstate, fun htorn ↦ ?_⟩⟩
  obtain ⟨entry, hstored⟩ := hdurable.persisted.committed slot hslot
    (by rw [Pool.ofMemory_state hslot]; exact hstate)
  obtain ⟨-, hsize, hcomplete⟩ := hdurable.complete hstored
  have hok := hcomplete.checksumOk hslot hsize
  rw [htorn.2.2.2 hstate] at hok
  cases hok

end Fence
