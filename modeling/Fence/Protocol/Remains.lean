import Fence.Protocol.Backed

/-!
# What a power failure leaves

A failure takes all calls with it and leaves the media. `remains` lists the calls that are gone,
each stuck where the media shows it: an append whose record is committed in the cache has stored its
state, one whose slot is still free on the media has not begun, and one whose slot lies past the
reserve tail on the media was never given it. What the reserve tail there lies past the capacity by
was lost by undos that never happened. As long as the reserve tail on the media covers the slots
that have reached it (`SavedTailCovers`), the pool that is left satisfies the invariant again, with
the calls that are gone and no others (`Carried.remains`), whether or not a recovery follows.
-/

set_option autoImplicit false
set_option relaxedAutoImplicit false

namespace Fence

open ByteMemory Interleaving

variable (g : PoolGeometry)

/-- No slot past the reserve tail of a media has been begun there. -/
def SavedTailCovers (media : Memory) : Prop :=
  ∀ slot < g.capacity, (Pool.ofMemory g media).reserveTail ≤ slot →
    (Pool.ofMemory g media).state slot = stateFree

instance (media : Memory) : Decidable (SavedTailCovers g media) :=
  inferInstanceAs (Decidable (∀ slot < g.capacity, _ → _))

/-- Where a call that is gone is stuck, seen from the media. -/
def Call.left (media : Pool) (call : Call) : Call :=
  match call.reservation with
  | some ⟨slot, entry, stage⟩ =>
    if media.reserveTail ≤ slot then call.request.call g
    else if 9 ≤ stage then .append entry (.running (.flushState slot))
    else if media.state slot = stateFree then .append entry (.running (.storeWriting slot))
    else .append entry (.running (.storeTerm slot))
  | none => call.request.call g

/-- An append that will never give back the slot past capacity it took. -/
def lostUndo : Call := .append ⟨0, 0, []⟩ (.running (.undo g.capacity))

/-- The calls that are gone, behind as many lost undos as the reserve tail lies past the
capacity. -/
def remains (media : Pool) (threads : List Call) : List Call :=
  List.replicate (media.reserveTail - g.capacity) (lostUndo g) ++ threads.map (Call.left g media)

variable {g} {hasher : Hasher}

/-! ### Calls that are stuck -/

section Left

variable {media : Pool} {call : Call} {slot : ℕ} {entry : Entry}

/-- A call that is gone keeps its slot, if it lies below the reserve tail. -/
theorem Call.reservation_left {reached : ℕ}
    (hreservation : call.reservation = some ⟨slot, entry, reached⟩)
    (hslot : slot < media.reserveTail) :
    ∃ stage, (call.left g media).reservation = some ⟨slot, entry, stage⟩ ∧
      (9 ≤ reached → 9 ≤ stage) := by
  rw [Call.left, hreservation]
  dsimp only
  rw [if_neg (Nat.not_le_of_lt hslot)]
  split_ifs with hstored hfree
  · exact ⟨9, rfl, fun _ ↦ Nat.le_refl _⟩
  · exact ⟨0, rfl, fun hreached ↦ absurd hreached hstored⟩
  · exact ⟨1, rfl, fun hreached ↦ absurd hreached hstored⟩

/-- The three stages a call that is gone can be stuck at. -/
theorem Call.reservation_left_cases {stage : ℕ}
    (hleft : (call.left g media).reservation = some ⟨slot, entry, stage⟩) :
    ∃ reached, call.reservation = some ⟨slot, entry, reached⟩ ∧ slot < media.reserveTail ∧
      (9 ≤ reached ∧ stage = 9 ∨
        reached < 9 ∧ (stage = 0 ∧ media.state slot = stateFree ∨
          stage = 1 ∧ media.state slot ≠ stateFree)) := by
  rw [Call.left] at hleft
  cases hreservation : call.reservation with
  | none =>
    rw [hreservation] at hleft
    rw [call.request.call_reservation.1] at hleft
    cases hleft
  | some held =>
    obtain ⟨place, written, reached⟩ := held
    rw [hreservation] at hleft
    dsimp only at hleft
    split_ifs at hleft with htail hstored hfree
    · rw [call.request.call_reservation.1] at hleft
      cases hleft
    · cases hleft
      exact ⟨reached, rfl, Nat.lt_of_not_le htail, Or.inl ⟨hstored, rfl⟩⟩
    · cases hleft
      exact ⟨reached, rfl, Nat.lt_of_not_le htail,
        Or.inr ⟨Nat.lt_of_not_le hstored, Or.inl ⟨rfl, hfree⟩⟩⟩
    · cases hleft
      exact ⟨reached, rfl, Nat.lt_of_not_le htail,
        Or.inr ⟨Nat.lt_of_not_le hstored, Or.inr ⟨rfl, hfree⟩⟩⟩

theorem Call.pendingUndo_left : (call.left g media).pendingUndo = false := by
  rw [Call.left]
  cases call.reservation with
  | none => exact call.request.call_reservation.2
  | some held =>
    dsimp only
    split_ifs
    · exact call.request.call_reservation.2
    · rfl
    · rfl
    · rfl

/-- The entry of an append that holds a slot fits the record. -/
theorem Call.Sound.size {tail stage : ℕ} {threads : List Call}
    (hsound : call.Sound g hasher tail threads)
    (hreservation : call.reservation = some ⟨slot, entry, stage⟩) :
    entry.data.length ≤ g.payloadSize := by
  cases call with
  | append written task =>
    cases Call.request_of_reservation hreservation
    cases task with
    | running point => exact hsound.1
    | returned outcome =>
      cases outcome with
      | ok index => exact hsound.1
      | error failure => cases hreservation
  | read hostId index task => cases hreservation
  | trim upTo task => cases hreservation
  | recover hostId task => cases hreservation

/-- A call that is stuck at a slot of the pool is sound. -/
theorem Call.left_sound {tail later : ℕ} {threads others : List Call}
    (hsound : call.Sound g hasher tail threads)
    (hslot : ∀ slot, call.reservedSlot = some slot → slot < g.capacity) :
    (call.left g media).Sound g hasher later others := by
  rw [Call.left]
  cases hreservation : call.reservation with
  | none => exact call.request.call_sound _
  | some held =>
    have hsize := hsound.size hreservation
    have hcapacity := hslot held.slot (by rw [Call.reservedSlot, hreservation]; rfl)
    dsimp only
    split_ifs
    · exact call.request.call_sound _
    · exact ⟨hsize, hcapacity⟩
    · exact ⟨hsize, hcapacity⟩
    · exact ⟨hsize, hcapacity⟩

end Left

/-! ### Lists of calls that are gone -/

section Lists

variable {lost : ℕ} {threads : List Call} {media : Pool} {slot : ℕ}

/-- Lost undos hold no slots. -/
theorem holds_lostUndo_append {index : ℕ} :
    Holds (List.replicate lost (lostUndo g) ++ threads) index slot ↔
      ∃ place, index = lost + place ∧ Holds threads place slot := by
  constructor
  · rintro ⟨call, hcall, hslot⟩
    by_cases hlost : index < lost
    · rw [List.getElem?_append_left (by rwa [List.length_replicate])] at hcall
      rw [(List.mem_replicate.mp (List.mem_of_getElem? hcall)).2] at hslot
      cases hslot
    · rw [List.getElem?_append_right (by rw [List.length_replicate]; omega),
        List.length_replicate] at hcall
      exact ⟨index - lost, by omega, call, hcall, hslot⟩
  · rintro ⟨place, rfl, call, hcall, hslot⟩
    have hplace := @getElem?_gone_append (List.replicate lost (lostUndo g)) _ _ _ hcall
    rw [List.length_replicate] at hplace
    exact ⟨call, hplace, hslot⟩

theorem reached_lostUndo_append {entry : Entry} {stage : ℕ} :
    Reached (List.replicate lost (lostUndo g) ++ threads) slot entry stage ↔
      Reached threads slot entry stage := by
  constructor
  · rintro ⟨call, hmem, reached, hle, hreservation⟩
    rcases List.mem_append.mp hmem with hlost | hthread
    · rw [(List.mem_replicate.mp hlost).2] at hreservation
      cases hreservation
    · exact ⟨call, hthread, reached, hle, hreservation⟩
  · rintro ⟨call, hmem, reached, hle, hreservation⟩
    exact ⟨call, List.mem_append_right _ hmem, reached, hle, hreservation⟩

theorem holds_map_left {index : ℕ} :
    Holds (threads.map (Call.left g media)) index slot ↔
      Holds threads index slot ∧ slot < media.reserveTail := by
  unfold Holds
  rw [List.getElem?_map]
  constructor
  · rintro ⟨left, hleft, hslot⟩
    obtain ⟨call, hcall, rfl⟩ := Option.map_eq_some_iff.mp hleft
    obtain ⟨⟨held, entry, stage⟩, hreservation, rfl⟩ := Option.map_eq_some_iff.mp hslot
    obtain ⟨reached, hbefore, htail, -⟩ := Call.reservation_left_cases hreservation
    exact ⟨⟨call, hcall, by rw [Call.reservedSlot, hbefore]; rfl⟩, htail⟩
  · rintro ⟨⟨call, hcall, hslot⟩, htail⟩
    obtain ⟨⟨held, entry, reached⟩, hreservation, rfl⟩ := Option.map_eq_some_iff.mp hslot
    obtain ⟨stage, hleft, -⟩ := Call.reservation_left (g := g) hreservation htail
    exact ⟨call.left g media, by rw [hcall, Option.map_some],
      by rw [Call.reservedSlot, hleft]; rfl⟩

/-- What was stored stays stored, if it lies below the reserve tail. -/
theorem Stored.left {entry : Entry} (hstored : Stored threads slot entry)
    (hslot : slot < media.reserveTail) :
    Stored (threads.map (Call.left g media)) slot entry := by
  obtain ⟨call, hmem, reached, hle, hreservation⟩ := hstored
  obtain ⟨stage, hleft, hstage⟩ := Call.reservation_left (g := g) hreservation hslot
  exact ⟨_, List.mem_map_of_mem hmem, stage, hstage hle, hleft⟩

/-- A call that is gone and stuck past its first flush has stored its state. -/
theorem stored_of_reached_left {entry : Entry}
    (hreached : Reached (threads.map (Call.left g media)) slot entry 8) :
    Stored threads slot entry := by
  obtain ⟨left, hmem, stage, hle, hreservation⟩ := hreached
  obtain ⟨call, hcall, rfl⟩ := List.mem_map.mp hmem
  obtain ⟨reached, hbefore, -, ⟨hstored, -⟩ | ⟨-, hstage⟩⟩ :=
    Call.reservation_left_cases hreservation
  · exact ⟨call, hcall, reached, hstored, hbefore⟩
  · omega

theorem pendingUndos_remains :
    pendingUndos (remains g media threads) = media.reserveTail - g.capacity := by
  have hnone : (threads.map (Call.left g media)).countP Call.pendingUndo = 0 := by
    refine List.countP_eq_zero.mpr fun left hmem ↦ ?_
    obtain ⟨call, -, rfl⟩ := List.mem_map.mp hmem
    rw [Call.pendingUndo_left]
    exact Bool.false_ne_true
  have hlost : (lostUndo g).pendingUndo = true := rfl
  rw [pendingUndos, remains, List.countP_append, List.countP_replicate, if_pos hlost, hnone,
    Nat.add_zero]

end Lists

/-! ### The invariant after the failure -/

section Failure

variable {first lost : ℕ} {gone : List Call} {config : Config Call CachedMemory}
  (hcarried : Carried g hasher first (List.replicate lost (lostUndo g) ++ gone) config)

include hcarried

/-- The calls before the failure, without the undos lost before. -/
theorem Carried.backed_calls :
    Backed g hasher (List.replicate lost (lostUndo g) ++ (gone ++ config.threads))
      config.shared.media := by
  rw [← List.append_assoc]
  exact hcarried.backed

/-- Two calls before the failure do not share a slot. -/
theorem Carried.exclusive_calls {index other slot : ℕ}
    (hholds : Holds (gone ++ config.threads) index slot)
    (hother : Holds (gone ++ config.threads) other slot) : index = other := by
  have hexclusive := hcarried.inherited.reserved.exclusive (lost + index) (lost + other) slot
  rw [List.append_assoc] at hexclusive
  have hsame := hexclusive (holds_lostUndo_append.mpr ⟨index, rfl, hholds⟩)
    (holds_lostUndo_append.mpr ⟨other, rfl, hother⟩)
  omega

theorem Carried.slot_lt {index slot : ℕ} (hholds : Holds (gone ++ config.threads) index slot) :
    slot < g.capacity := by
  have hbounds := hcarried.inherited.reserved.bounds (lost + index) slot
  rw [List.append_assoc] at hbounds
  exact (hbounds (holds_lostUndo_append.mpr ⟨index, rfl, hholds⟩)).2.1

variable (hcovers : SavedTailCovers g config.shared.media)

/-- Below the reserve tail of the media every slot is held by a call that is gone. -/
theorem Carried.handed_remains {slot : ℕ} (hcapacity : slot < g.capacity)
    (hslot : slot < (Pool.ofMemory g config.shared.media).reserveTail) :
    ∃ index, Holds (remains g (Pool.ofMemory g config.shared.media) (gone ++ config.threads))
      index slot := by
  obtain ⟨index, hholds⟩ := hcarried.backed_calls.handed slot hcapacity hslot
  obtain ⟨place, -, hheld⟩ := holds_lostUndo_append.mp hholds
  exact ⟨_, holds_lostUndo_append.mpr ⟨place, rfl, holds_map_left.mpr ⟨hheld, hslot⟩⟩⟩

theorem Carried.reserved_remains :
    Reserved g.capacity 0
      (remains g (Pool.ofMemory g config.shared.media) (gone ++ config.threads))
      (Pool.ofMemory g config.shared.media).reserveTail where
  first_le := Nat.zero_le _
  bounds := by
    intro index slot hholds
    obtain ⟨place, -, hheld⟩ := holds_lostUndo_append.mp hholds
    obtain ⟨hbefore, htail⟩ := holds_map_left.mp hheld
    exact ⟨Nat.zero_le _, hcarried.slot_lt hbefore, htail⟩
  exclusive := by
    intro index other slot hholds hother
    obtain ⟨place, rfl, hheld⟩ := holds_lostUndo_append.mp hholds
    obtain ⟨second, rfl, hsecond⟩ := holds_lostUndo_append.mp hother
    rw [hcarried.exclusive_calls (holds_map_left.mp hheld).1 (holds_map_left.mp hsecond).1]
  covered := fun slot _ hcapacity hslot ↦ hcarried.handed_remains hcapacity hslot
  pending := by rw [pendingUndos_remains, Nat.max_zero]

/-- The slot of a call that is gone holds what its place says. -/
theorem Carried.matches_left {call : Call} (hmem : call ∈ gone ++ config.threads) :
    Matches hasher
      ((Pool.ofMemory g config.shared.media).writeOff
        (Pool.ofMemory g config.shared.media).reserveTail)
      (call.left g (Pool.ofMemory g config.shared.media)) := by
  intro slot entry stage hleft
  obtain ⟨reached, hreservation, htail, hcases⟩ := Call.reservation_left_cases hleft
  obtain ⟨index, hindex⟩ := List.mem_iff_getElem?.mp hmem
  have hholds := holds_of_reservation hindex hreservation
  have hslot := hcarried.slot_lt hholds
  have hknown := hcarried.backed_calls.known slot hslot
  rw [Written.writeOff_iff, Pool.state_writeOff]
  rcases hcases with ⟨hstored, rfl⟩ | ⟨hlow, ⟨rfl, hfree⟩ | ⟨rfl, hbegun⟩⟩
  · have hflushed : Reached (List.replicate lost (lostUndo g) ++ (gone ++ config.threads)) slot
        entry 8 := reached_lostUndo_append.mpr ⟨call, hmem, reached, by omega, hreservation⟩
    refine ⟨(hcarried.backed_calls.written slot entry hflushed).mono (Or.inr (by decide)), ?_⟩
    have hnot := hcarried.backed_calls.begun slot entry hflushed
    rcases hknown with hfree | hwriting | hcommitted | habandoned
    · exact absurd hfree hnot
    · rw [if_pos ⟨htail, hwriting⟩]
      exact Or.inr rfl
    · rw [hcommitted]
      exact Or.inl (if_neg fun hoff ↦ absurd hoff.2 (by decide))
    · rw [habandoned]
      exact Or.inr (if_neg fun hoff ↦ absurd hoff.2 (by decide))
  · rw [if_neg fun hoff ↦ absurd (hfree.symm.trans hoff.2) (by decide)]
    exact ⟨.of_le_one _ (Nat.zero_le _), StateAt.zero_iff.mpr hfree⟩
  · refine ⟨.of_le_one _ (Nat.le_refl _), ?_⟩
    rcases hknown with hfree | hwriting | hcommitted | habandoned
    · exact absurd hfree hbegun
    · rw [if_pos ⟨htail, hwriting⟩]
      exact .of_abandoned (Nat.le_refl _)
    · -- a committed state byte is that of an append that stored it
      obtain ⟨other, hstored⟩ := hcarried.backed_calls.committed slot hslot hcommitted
      obtain ⟨held, hheld, later, hlater, hother⟩ := reached_lostUndo_append.mp hstored
      obtain ⟨place, hplace⟩ := List.mem_iff_getElem?.mp hheld
      obtain rfl := hcarried.exclusive_calls hholds (holds_of_reservation hplace hother)
      obtain rfl := Option.some.inj (hindex.symm.trans hplace)
      rw [hreservation, Option.some.injEq, Reservation.mk.injEq] at hother
      omega
    · rw [habandoned, if_neg fun hoff ↦ absurd hoff.2 (by decide)]
      exact .of_abandoned (Nat.le_refl _)

include hcovers

/-- A stored slot lies below the reserve tail of the media. -/
theorem Carried.lt_savedTail {slot : ℕ} {entry : Entry}
    (hstored : Stored (gone ++ config.threads) slot entry) :
    slot < (Pool.ofMemory g config.shared.media).reserveTail := by
  by_contra hbeyond
  obtain ⟨index, hholds⟩ := hstored.holds
  have hreached : Reached (gone ++ config.threads) slot entry 8 := hstored.mono_stage (by decide)
  exact hcarried.backed_calls.begun slot entry (reached_lostUndo_append.mpr hreached)
    (hcovers slot (hcarried.slot_lt hholds) (Nat.le_of_not_lt hbeyond))

theorem Carried.stored_remains {slot : ℕ} {entry : Entry}
    (hstored : Stored (List.replicate lost (lostUndo g) ++ (gone ++ config.threads)) slot entry) :
    Stored (remains g (Pool.ofMemory g config.shared.media) (gone ++ config.threads)) slot entry :=
  have hcalls := reached_lostUndo_append.mp hstored
  reached_lostUndo_append.mpr (Stored.left hcalls (hcarried.lt_savedTail hcovers hcalls))

theorem Carried.contents_remains :
    Contents g hasher
      (remains g (Pool.ofMemory g config.shared.media) (gone ++ config.threads))
      ((Pool.ofMemory g config.shared.media).writeOff
        (Pool.ofMemory g config.shared.media).reserveTail) where
  written := by
    intro call hmem
    rcases List.mem_append.mp hmem with hlost | hleft
    · rw [(List.mem_replicate.mp hlost).2]
      exact .of_reservation_none rfl
    · obtain ⟨before, hbefore, rfl⟩ := List.mem_map.mp hleft
      exact hcarried.matches_left hbefore
  free := by
    intro slot hslot htail
    exact Pool.state_writeOff_free.mpr (hcovers slot hslot htail)
  published := by
    intro slot hslot
    obtain ⟨entry, hstored⟩ := hcarried.backed_calls.published slot hslot
    exact ⟨entry, hcarried.stored_remains hcovers hstored⟩
  sound := by
    intro call hmem
    rcases List.mem_append.mp hmem with hlost | hleft
    · rw [(List.mem_replicate.mp hlost).2]
      exact ⟨Nat.zero_le _, trivial⟩
    · obtain ⟨before, hbefore, rfl⟩ := List.mem_map.mp hleft
      obtain ⟨index, hindex⟩ := List.mem_iff_getElem?.mp hbefore
      have hsound := hcarried.inherited.contents.sound before
        (by rw [List.append_assoc]; exact List.mem_append_right _ hbefore)
      exact Call.left_sound hsound fun slot hslot ↦ hcarried.slot_lt ⟨before, hindex, hslot⟩

theorem Carried.backed_remains :
    Backed g hasher (remains g (Pool.ofMemory g config.shared.media) (gone ++ config.threads))
      config.shared.media := by
  have hbacked := hcarried.backed_calls
  have hreached : ∀ slot entry,
      Reached (remains g (Pool.ofMemory g config.shared.media) (gone ++ config.threads)) slot entry
        8 → Reached (List.replicate lost (lostUndo g) ++ (gone ++ config.threads)) slot entry 8 :=
    fun slot entry hleft ↦ reached_lostUndo_append.mpr
      ((stored_of_reached_left (reached_lostUndo_append.mp hleft)).mono_stage (by decide))
  exact
    { known := hbacked.known
      written := fun slot entry hleft ↦ hbacked.written slot entry (hreached slot entry hleft)
      begun := fun slot entry hleft ↦ hbacked.begun slot entry (hreached slot entry hleft)
      committed := fun slot hslot hstate ↦ (hbacked.committed slot hslot hstate).imp
        fun _ ↦ hcarried.stored_remains hcovers
      published := fun slot hslot ↦ (hbacked.published slot hslot).imp
        fun _ ↦ hcarried.stored_remains hcovers
      handed := fun slot hcapacity hslot ↦ hcarried.handed_remains hcapacity hslot }

/-- The pool that a power failure leaves satisfies the invariant, with the calls that are gone. -/
theorem Carried.remains :
    Carried g hasher (Pool.ofMemory g config.shared.media).reserveTail
      (remains g (Pool.ofMemory g config.shared.media) (gone ++ config.threads))
      ⟨config.shared.powerFailure, []⟩ := by
  have hnone : Fence.remains g (Pool.ofMemory g config.shared.media) (gone ++ config.threads) ++
      ([] : List Call) = Fence.remains g (Pool.ofMemory g config.shared.media)
        (gone ++ config.threads) := List.append_nil _
  have hreserved := hcarried.reserved_remains
  have hcontents := hcarried.contents_remains hcovers
  have hbacked := hcarried.backed_remains hcovers
  rw [← hnone] at hreserved hcontents hbacked
  exact
    { inherited :=
        { reserved := hreserved
          contents := hcontents
          held := fun slot hcapacity hslot ↦ hcarried.handed_remains hcapacity hslot }
      backed := hbacked
      tail_le := Nat.le_refl _ }

end Failure

end Fence
