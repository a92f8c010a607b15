import Fence.Protocol.Advance
import Fence.Protocol.ReadAlone
import Mathlib.Data.List.Nodup

/-!
# When all appends have returned

When all appends have returned, the indices they returned are the first ones, each once
(`Invariant.okIndices_perm`), and the committed tail has reached the reserve tail
(`Advancing.committedTail_eq`). When all trims have, too, every record that was not trimmed can be
read (`Advancing.reads`). Reads may be in flight.
-/

set_option autoImplicit false
set_option relaxedAutoImplicit false

namespace Fence

open ByteMemory Interleaving

variable {g : PoolGeometry} {hasher : Hasher}

/-! ### Returned calls -/

/-- The call has returned. -/
def Call.isReturned : Call → Bool
  | .append _ (.returned _) => true
  | .read _ _ (.returned _) => true
  | .trim _ (.returned _) => true
  | .recover _ (.returned _) => true
  | _ => false

/-- The call is an append. -/
def Call.isAppend : Call → Bool
  | .append _ _ => true
  | _ => false

/-- The index an append returned. -/
def Call.okIndex : Call → Option ℕ
  | .append _ (.returned (.ok index)) => some index
  | _ => none

/-- The indices the appends have returned. -/
def okIndices (threads : List Call) : List ℕ := threads.filterMap Call.okIndex

/-- Every call started so far has returned. -/
def AllReturned (threads : List Call) : Prop := ∀ call ∈ threads, call.isReturned = true

instance (threads : List Call) : Decidable (AllReturned threads) :=
  inferInstanceAs (Decidable (∀ call ∈ threads, _))

/-- Every append started so far has returned. -/
def AppendsReturned (threads : List Call) : Prop :=
  ∀ call ∈ threads, call.isAppend = true → call.isReturned = true

instance (threads : List Call) : Decidable (AppendsReturned threads) :=
  inferInstanceAs (Decidable (∀ call ∈ threads, _))

theorem AllReturned.appends {threads : List Call} (hreturned : AllReturned threads) :
    AppendsReturned threads :=
  fun call hmem _ ↦ hreturned call hmem

theorem Call.okIndex_eq_some {call : Call} {index : ℕ} (hok : call.okIndex = some index) :
    ∃ entry, call = .append entry (.returned (.ok index)) := by
  match call, hok with
  | .append entry (.returned (.ok held)), hok =>
    obtain rfl := Option.some.inj hok
    exact ⟨entry, rfl⟩

/-- A call that holds a slot and is no append in flight has returned its index. -/
theorem Call.okIndex_of_reservedSlot {call : Call} {slot : ℕ}
    (hreturned : call.isAppend = true → call.isReturned = true)
    (hslot : call.reservedSlot = some slot) : ∃ index, call.okIndex = some index ∧
      slot = index - 1 := by
  match call with
  | .append entry (.returned (.ok index)) => exact ⟨index, rfl, (Option.some.inj hslot).symm⟩
  | .append entry (.returned (.error error)) => cases hslot
  | .append entry (.running point) => cases hreturned rfl
  | .read _ _ _ => cases hslot
  | .trim _ _ => cases hslot
  | .recover _ _ => cases hslot

theorem Call.pendingUndo_of_isReturned {call : Call}
    (hreturned : call.isAppend = true → call.isReturned = true) : call.pendingUndo = false := by
  match call with
  | .append _ (.returned _) => rfl
  | .append _ (.running _) => cases hreturned rfl
  | .read _ _ _ => rfl
  | .trim _ _ => rfl
  | .recover _ _ => rfl

/-- A call that owes something is an append in flight. -/
theorem Call.Owes.not_returned {call : Call} {tail slot : ℕ} (howes : call.Owes tail slot) :
    call.isAppend = true ∧ call.isReturned = false := by
  rcases howes.cases with ⟨entry, held, rfl⟩ | ⟨entry, held, point, rfl⟩
  · exact ⟨rfl, rfl⟩
  · exact ⟨rfl, rfl⟩

section Returned

variable {config : Config Call Memory}

/-- The append that returned an index holds the slot before it. -/
theorem Invariant.holds_of_okIndex (hinvariant : Invariant g hasher config) {place index : ℕ}
    {call : Call} (hcall : config.threads[place]? = some call)
    (hok : call.okIndex = some index) :
    0 < index ∧ Holds config.threads place (index - 1) := by
  obtain ⟨entry, rfl⟩ := Call.okIndex_eq_some hok
  obtain ⟨-, hpos, -⟩ := hinvariant.contents.sound _ (List.mem_of_getElem? hcall)
  exact ⟨hpos, _, hcall, rfl⟩

/-- No index is returned twice. -/
theorem Invariant.okIndices_nodup (hinvariant : Invariant g hasher config) :
    (okIndices config.threads).Nodup := by
  rw [okIndices, List.Nodup, List.pairwise_filterMap, List.pairwise_iff_getElem]
  intro place other hplace hother hless index hindex later hlater hsame
  subst hsame
  have hfirst := hinvariant.holds_of_okIndex (List.getElem?_eq_getElem hplace) hindex
  have hsecond := hinvariant.holds_of_okIndex (List.getElem?_eq_getElem hother) hlater
  have := hinvariant.reserved.exclusive _ _ _ hfirst.2 hsecond.2
  omega

variable (hreturned : AppendsReturned config.threads)

include hreturned

/-- When all appends have returned, no reservation is left to be undone. -/
theorem Invariant.reserveTail_le (hinvariant : Invariant g hasher config) :
    (Pool.ofMemory g config.shared).reserveTail ≤ g.capacity := by
  have hnone : pendingUndos config.threads = 0 := by
    rw [pendingUndos, List.countP_eq_zero]
    intro call hmem
    rw [Call.pendingUndo_of_isReturned (hreturned call hmem)]
    exact Bool.false_ne_true
  have hpending := hinvariant.reserved.pending
  rw [hnone, Nat.max_zero] at hpending
  omega

/-- When all appends have returned, the indices returned are the first ones, each once. -/
theorem Invariant.okIndices_perm (hinvariant : Invariant g hasher config) :
    (okIndices config.threads).Perm
      ((List.range (Pool.ofMemory g config.shared).reserveTail).map Nat.succ) := by
  have hfull := hinvariant.reserveTail_le hreturned
  refine (List.perm_ext_iff_of_nodup hinvariant.okIndices_nodup
    (List.Nodup.map Nat.succ_injective List.nodup_range)).mpr fun index ↦ ?_
  constructor
  · intro hmem
    obtain ⟨call, hcall, hok⟩ := List.mem_filterMap.mp hmem
    obtain ⟨place, hplace⟩ := List.mem_iff_getElem?.mp hcall
    obtain ⟨hpos, hholds⟩ := hinvariant.holds_of_okIndex hplace hok
    have hbounds := hinvariant.reserved.bounds _ _ hholds
    exact List.mem_map.mpr ⟨index - 1, List.mem_range.mpr hbounds.2.2, by omega⟩
  · intro hmem
    obtain ⟨slot, hslot, rfl⟩ := List.mem_map.mp hmem
    have hlow := List.mem_range.mp hslot
    obtain ⟨place, call, hcall, hreserves⟩ :=
      hinvariant.reserved.covered slot (Nat.zero_le _) (by omega) hlow
    have hheld := List.mem_of_getElem? hcall
    obtain ⟨index, hok, rfl⟩ := Call.okIndex_of_reservedSlot (hreturned call hheld) hreserves
    obtain ⟨hpos, -⟩ := hinvariant.holds_of_okIndex hcall hok
    refine List.mem_filterMap.mpr ⟨call, hheld, ?_⟩
    rw [hok, Nat.succ_eq_add_one, Nat.sub_add_cancel hpos]

/-- When all appends have returned, the committed tail has reached the reserve tail. -/
theorem Advancing.committedTail_eq (hadvancing : Advancing g hasher config) :
    (Pool.ofMemory g config.shared).committedTail =
      (Pool.ofMemory g config.shared).reserveTail := by
  have hinvariant := hadvancing.invariant
  have hfull := hinvariant.reserveTail_le hreturned
  refine Nat.le_antisymm ?_ ?_
  · by_contra hgt
    obtain ⟨entry, hstored⟩ := hinvariant.contents.published
      (Pool.ofMemory g config.shared).reserveTail (Nat.lt_of_not_le hgt)
    exact Nat.lt_irrefl _ (hinvariant.reserved.slot_bounds hstored).2
  · -- the slot at the tail would be committed, and no call is left that owes its advance
    by_contra hlt
    have hslot : (Pool.ofMemory g config.shared).committedTail < g.capacity := by omega
    obtain ⟨place, call, hcall, hreserves⟩ := hinvariant.reserved.covered
      (Pool.ofMemory g config.shared).committedTail (Nat.zero_le _) hslot (Nat.lt_of_not_le hlt)
    have hmem := List.mem_of_getElem? hcall
    obtain ⟨index, hok, hindex⟩ := Call.okIndex_of_reservedSlot (hreturned call hmem) hreserves
    obtain ⟨entry, rfl⟩ := Call.okIndex_eq_some hok
    have hstored : Stored config.threads (Pool.ofMemory g config.shared).committedTail entry :=
      ⟨_, hmem, 13, by decide, by rw [hindex]; rfl⟩
    have hcommitted : (Pool.ofMemory g config.shared).state
        (Pool.ofMemory g config.shared).committedTail = stateCommitted := by
      rcases hinvariant.contents.state_of_stored hstored with hcommitted | habandoned
      · exact hcommitted
      · exact absurd (hadvancing.trimmed _ hslot habandoned).1 (Nat.lt_irrefl _)
    obtain ⟨owing, howing, howes⟩ := hadvancing.owed _ hslot (Nat.le_refl _)
      fun between hlow hhigh ↦ by rwa [Nat.le_antisymm hhigh hlow]
    obtain ⟨happend, hrunning⟩ := howes.not_returned
    rw [hreturned owing howing happend] at hrunning
    cases hrunning

/-- When all appends and trims have returned, every record above the bounds of the trims can be
read. -/
theorem Advancing.reads (hadvancing : Advancing g hasher config) {entry : Entry} {index : UInt64}
    (happended : .append entry (.returned (.ok index.toNat)) ∈ config.threads)
    (htrims : ∀ upTo task, .trim upTo task ∈ config.threads →
      (Call.trim upTo task).isReturned = true)
    (hkept : ∀ upTo result, .trim upTo (.returned (.ok result)) ∈ config.threads →
      upTo.toNat < index.toNat) :
    Reads g hasher config.shared index (entry.record (index.toNat - 1)) := by
  have hinvariant := hadvancing.invariant
  obtain ⟨-, hpos, -⟩ := hinvariant.contents.sound _ happended
  have hstored : Stored config.threads (index.toNat - 1) entry :=
    ⟨_, happended, 13, by decide, rfl⟩
  obtain ⟨hslot, hsize, hcomplete⟩ := hinvariant.rely.complete_of_stored _ _ hstored
  have htail := (hinvariant.reserved.slot_bounds hstored).2
  rw [← hadvancing.committedTail_eq hreturned] at htail
  refine reads_of_complete (by omega) hslot hsize htail ?_ hcomplete
  rcases hinvariant.contents.state_of_stored hstored with hcommitted | habandoned
  · exact hcommitted
  · obtain ⟨-, call, hmem, hdoes⟩ := hadvancing.trimmed _ hslot habandoned
    match call, hdoes with
    | .trim upTo (.returned (.ok result)), hdoes =>
      have habove := hkept upTo result hmem
      have hbelow : index.toNat - 1 < upTo.toNat := hdoes
      omega
    | .trim upTo (.running point), _ => cases htrims upTo _ hmem

end Returned

end Fence
