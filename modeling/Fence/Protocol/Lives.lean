import Fence.Protocol.ReadMoments
import Fence.Protocol.Remains

/-!
# The lives of a pool

A life is a run of any calls on what a power failure has left, or on a pool just created, until the
next failure. `Opened` lists the memories a life can begin with, together with the calls of all
lives before, under the one condition that at every failure the reserve tail on the media covers
the slots that have reached it. The invariant of the log holds through every life, with the calls
that are gone standing where the media shows them (`Opened.carried`), and those calls are
remembered: a slot that an earlier append stored or an earlier read was answered from still belongs
to the same entry (`Remembers`).
-/

set_option autoImplicit false
set_option relaxedAutoImplicit false

namespace Fence

open ByteMemory Interleaving

variable (g : PoolGeometry) (hasher : Hasher)

/-- One life on a memory. -/
def life (memory : CachedMemory) (schedule : List (Action Request ℕ)) :
    Config Call CachedMemory :=
  (cachedMachine g hasher).run schedule ⟨memory, []⟩

/-- The calls of a life are too few to make the reserve tail wrap. -/
def ShortLife (memory : CachedMemory) (schedule : List (Action Request ℕ)) : Prop :=
  max g.capacity (Pool.ofMemory g memory.cached).reserveTail +
    (life g hasher memory schedule).threads.length < 2 ^ 64

instance (memory : CachedMemory) (schedule : List (Action Request ℕ)) :
    Decidable (ShortLife g hasher memory schedule) := inferInstanceAs (Decidable (_ < _))

/-- The memories a life can begin with, and the calls of the lives before it. -/
inductive Opened : List Call → CachedMemory → Prop
  | created : Opened [] (freshCached g).shared
  | reopened {past : List Call} {memory : CachedMemory} {schedule : List (Action Request ℕ)}
    (hopened : Opened past memory) (hshort : ShortLife g hasher memory schedule)
    (hcovers : SavedTailCovers g (life g hasher memory schedule).shared.media) :
    Opened (past ++ (life g hasher memory schedule).threads)
      (life g hasher memory schedule).shared.powerFailure

variable {g hasher}

/-! ### Runs of one life -/

section Run

variable {first : ℕ} {gone : List Call} {config : Config Call CachedMemory}

/-- What was reached stays reached. -/
theorem Carried.extends_apply (hcarried : Carried g hasher first gone config)
    (action : Action Request ℕ) :
    Extends (gone ++ config.threads)
      (gone ++ ((cachedMachine g hasher).apply config action).threads) := by
  cases action with
  | start request =>
    have hextends : Extends (gone ++ config.threads) _ := extends_append (request.call g)
    rwa [List.append_assoc] at hextends
  | env line => exact fun _ _ _ hreached ↦ hreached
  | step index =>
    cases hcall : config.threads[index]? with
    | none =>
      rw [apply_step_of_none _ hcall]
      exact fun _ _ _ hreached ↦ hreached
    | some call =>
      have hcall' : (withoutMedia config).threads[index]? = some call := hcall
      have hadvances := (hcarried.inherited.stepSpec hcall').1.advances
      have hafter : ((cachedMachine g hasher).step call config.shared).1 =
          (call.step g hasher config.shared.cached).1 := (call.stepCached_eq config.shared).1
      rw [apply_step_of_getElem? _ hcall, ← set_gone_append, hafter]
      exact extends_set (getElem?_gone_append hcall) hadvances

theorem pendingUndos_append_le (gone threads : List Call) :
    pendingUndos (gone ++ threads) ≤ pendingUndos gone + threads.length := by
  rw [pendingUndos, List.countP_append]
  exact Nat.add_le_add_left List.countP_le_length _

/-- A run keeps the invariant, as long as it does not start too many calls. -/
theorem Carried.run (hcarried : Carried g hasher first gone config)
    {schedule : List (Action Request ℕ)}
    (hshort : pendingUndos gone + ((cachedMachine g hasher).run schedule config).threads.length <
      2 ^ 64 - g.capacity) :
    Carried g hasher first gone ((cachedMachine g hasher).run schedule config) ∧
      Extends (gone ++ config.threads)
        (gone ++ ((cachedMachine g hasher).run schedule config).threads) := by
  induction schedule generalizing config with
  | nil => exact ⟨hcarried, fun _ _ _ hreached ↦ hreached⟩
  | cons action rest ih =>
    rw [run_cons] at hshort ⊢
    have hmore := length_threads_le_run (cachedMachine g hasher) rest
      ((cachedMachine g hasher).apply config action)
    have hpending := pendingUndos_append_le gone
      ((cachedMachine g hasher).apply config action).threads
    obtain ⟨hend, hextends⟩ := ih (hcarried.apply (by omega)) hshort
    exact ⟨hend, fun slot entry stage hreached ↦
      hextends slot entry stage (hcarried.extends_apply action slot entry stage hreached)⟩

/-- In a short life never too many undos are pending. -/
theorem Carried.pendingUndos_lt {memory : CachedMemory}
    (hcarried : Carried g hasher first gone ⟨memory, []⟩) {schedule : List (Action Request ℕ)}
    (hshort : ShortLife g hasher memory schedule) :
    pendingUndos gone + (life g hasher memory schedule).threads.length < 2 ^ 64 - g.capacity := by
  have hpending : pendingUndos (gone ++ []) =
      (Pool.ofMemory g memory.cached).reserveTail - max g.capacity 0 :=
    hcarried.inherited.reserved.pending
  rw [List.append_nil, Nat.max_zero] at hpending
  unfold ShortLife at hshort
  omega

/-- A run of a short life keeps the invariant. -/
theorem Carried.lives {memory : CachedMemory}
    (hcarried : Carried g hasher first gone ⟨memory, []⟩) {schedule : List (Action Request ℕ)}
    (hshort : ShortLife g hasher memory schedule) :
    Carried g hasher first gone (life g hasher memory schedule) :=
  (hcarried.run (hcarried.pendingUndos_lt hshort)).1

/-- A life in two parts. -/
theorem life_append (memory : CachedMemory) (before after : List (Action Request ℕ)) :
    life g hasher memory (before ++ after) =
      (cachedMachine g hasher).run after (life g hasher memory before) := run_append _ _ _ _

/-- A life that is cut short is short. -/
theorem ShortLife.of_append {memory : CachedMemory} {before after : List (Action Request ℕ)}
    (hshort : ShortLife g hasher memory (before ++ after)) : ShortLife g hasher memory before := by
  have hmore := length_threads_le_run (cachedMachine g hasher) after (life g hasher memory before)
  unfold ShortLife at hshort ⊢
  rw [life_append] at hshort
  omega

/-- What was reached in a part of a life stays reached. -/
theorem Carried.extends_life {memory : CachedMemory}
    (hcarried : Carried g hasher first gone ⟨memory, []⟩)
    {before after : List (Action Request ℕ)}
    (hshort : ShortLife g hasher memory (before ++ after)) :
    Extends (gone ++ (life g hasher memory before).threads)
      (gone ++ (life g hasher memory (before ++ after)).threads) := by
  have hbounded := hcarried.pendingUndos_lt hshort
  rw [life_append] at hbounded ⊢
  exact ((hcarried.lives hshort.of_append).run hbounded).2

/-- What a read returned was the answer of the published log at one of its own steps, which lies in
the part of the life in which it was started. -/
theorem Carried.read_moment {memory : CachedMemory}
    (hcarried : Carried g hasher first gone ⟨memory, []⟩)
    {before after : List (Action Request ℕ)}
    (hshort : ShortLife g hasher memory (before ++ after)) {index : ℕ} {hostId : UInt16}
    {readIndex : UInt64} {outcome : Except FenceError (Option Record)}
    (hstarted : (life g hasher memory before).threads.length ≤ index)
    (hreturned : (life g hasher memory (before ++ after)).threads[index]? =
      some (.read hostId readIndex (.returned outcome))) :
    ∃ middle rest point, after = middle ++ .step index :: rest ∧
      (life g hasher memory (before ++ middle)).threads[index]? =
        some (.read hostId readIndex (.running point)) ∧
      outcome = (publishedLog g (life g hasher memory (before ++ middle)).shared.cached).read
        readIndex.toNat := by
  obtain ⟨middle, rest, call, rfl, hcall, hbefore, hdecided⟩ := exists_entering_step_after
    (cachedMachine g hasher) Call.Decided (fun request ↦ request.not_decided) hstarted hreturned
    trivial
  rw [← List.append_assoc] at hshort hreturned
  have hmoment := hcarried.lives hshort.of_append
  have hend := hcarried.lives hshort
  have hsound := hend.inherited.contents.sound _
    (List.mem_append_right _ (List.mem_of_getElem? hreturned))
  rw [life_append] at hreturned
  obtain ⟨⟨point, rfl⟩, houtcome⟩ := hmoment.inherited.rely.outcome_eq_of_decides
    (fun call shared ↦ (call.stepCached_eq shared).1) rfl hcall
    (hmoment.inherited.contents.sound call
      (List.mem_append_right _ (List.mem_of_getElem? hcall)))
    hbefore hdecided hreturned (hcarried.extends_life hshort) hsound
    fun _ _ _ ↦ hend.inherited.reserved.entry_unique
  exact ⟨middle, rest, point, rfl, hcall, houtcome⟩

end Run

/-! ### What is remembered -/

/-- The calls of earlier lives, and where they are stuck now: an append that stored its record holds
its slot still, and so does the append that a read was answered from. -/
structure Remembers (calls gone : List Call) : Prop where
  stored : ∀ (index : ℕ) (call : Call), calls[index]? = some call →
    ∀ (slot : ℕ) (entry : Entry) (stage : ℕ), 9 ≤ stage →
      call.reservation = some ⟨slot, entry, stage⟩ → ∃ left later, gone[index]? = some left ∧
        9 ≤ later ∧ left.reservation = some ⟨slot, entry, later⟩
  started : ∀ left ∈ gone, ∀ (slot : ℕ) (entry : Entry) (stage : ℕ),
    left.reservation = some ⟨slot, entry, stage⟩ → ∃ call ∈ calls, call.request = .append entry
  found : ∀ (hostId : UInt16) (index : UInt64) (record : Record),
    .read hostId index (.returned (.ok (some record))) ∈ calls →
      ∃ slot, slot + 1 = index.toNat ∧ Seen gone slot fun entry ↦ record = entry.record slot
  intact : ∀ (hostId : UInt16) (index : UInt64) (made : ℕ),
    .read hostId index (.returned (.error (.checksumMismatch made))) ∉ calls
  length_eq : gone.length = calls.length

theorem Remembers.nil : Remembers [] [] where
  stored := by
    intro index call hcall
    cases hcall
  started := by
    intro left hmem
    cases hmem
  found := by
    intro hostId index record hmem
    cases hmem
  intact := fun _ _ _ hmem ↦ by cases hmem
  length_eq := rfl

section Remember

variable {past gone : List Call} {first lost : ℕ} {config : Config Call CachedMemory}

/-- The calls in flight are remembered as they are. -/
theorem Remembers.live (hremembers : Remembers past gone)
    (hcarried : Carried g hasher first (List.replicate lost (lostUndo g) ++ gone) config) :
    Remembers (past ++ config.threads) (gone ++ config.threads) where
  stored := by
    intro index call hcall slot entry stage hstage hreservation
    by_cases hpast : index < past.length
    · rw [List.getElem?_append_left hpast] at hcall
      obtain ⟨left, later, hleft, hlater⟩ :=
        hremembers.stored index call hcall slot entry stage hstage hreservation
      refine ⟨left, later, ?_, hlater⟩
      rwa [List.getElem?_append_left (by rwa [hremembers.length_eq])]
    · rw [List.getElem?_append_right (Nat.le_of_not_lt hpast)] at hcall
      refine ⟨call, stage, ?_, hstage, hreservation⟩
      rwa [List.getElem?_append_right (by rw [hremembers.length_eq]; omega), hremembers.length_eq]
  started := by
    intro left hmem slot entry stage hreservation
    rcases List.mem_append.mp hmem with hgone | hthread
    · obtain ⟨call, hcall, hrequest⟩ := hremembers.started left hgone slot entry stage hreservation
      exact ⟨call, List.mem_append_left _ hcall, hrequest⟩
    · exact ⟨left, List.mem_append_right _ hthread, Call.request_of_reservation hreservation⟩
  found := by
    intro hostId index record hmem
    rcases List.mem_append.mp hmem with hpast | hthread
    · obtain ⟨slot, hslot, entry, ⟨left, hleft, rest⟩, hrecord⟩ :=
        hremembers.found hostId index record hpast
      exact ⟨slot, hslot, entry, ⟨left, List.mem_append_left _ hleft, rest⟩, hrecord⟩
    · obtain ⟨slot, hslot, entry, hstored, hrecord⟩ :=
        hcarried.inherited.contents.sound _ (List.mem_append_right _ hthread)
      have hcalls : Stored (List.replicate lost (lostUndo g) ++ gone ++ config.threads) slot
        entry := hstored
      rw [List.append_assoc] at hcalls
      exact ⟨slot, hslot, entry, reached_lostUndo_append.mp hcalls, hrecord⟩
  intact := by
    intro hostId index made hmem
    rcases List.mem_append.mp hmem with hpast | hthread
    · exact hremembers.intact hostId index made hpast
    · exact hcarried.inherited.contents.sound _ (List.mem_append_right _ hthread)
  length_eq := by rw [List.length_append, List.length_append, hremembers.length_eq]

/-- What is stored below the reserve tail of the media is remembered through a failure. -/
theorem Remembers.left {calls : List Call} {media : Pool} (hremembers : Remembers calls gone)
    (hsaved : ∀ slot entry, Stored gone slot entry → slot < media.reserveTail) :
    Remembers calls (gone.map (Call.left g media)) where
  stored := by
    intro index call hcall slot entry stage hstage hreservation
    obtain ⟨held, later, hheld, hlater, hreserved⟩ :=
      hremembers.stored index call hcall slot entry stage hstage hreservation
    have htail := hsaved slot entry ⟨held, List.mem_of_getElem? hheld, later, hlater, hreserved⟩
    obtain ⟨last, hlast, hnine⟩ := Call.reservation_left (g := g) hreserved htail
    exact ⟨held.left g media, last, by rw [List.getElem?_map, hheld, Option.map_some],
      hnine hlater, hlast⟩
  started := by
    intro left hmem slot entry stage hreservation
    obtain ⟨held, hheld, rfl⟩ := List.mem_map.mp hmem
    obtain ⟨reached, hbefore, -⟩ := Call.reservation_left_cases hreservation
    exact hremembers.started held hheld slot entry reached hbefore
  found := by
    intro hostId index record hmem
    obtain ⟨slot, hslot, entry, hstored, hrecord⟩ := hremembers.found hostId index record hmem
    exact ⟨slot, hslot, entry, hstored.left (hsaved slot entry hstored), hrecord⟩
  intact := hremembers.intact
  length_eq := by rw [List.length_map, hremembers.length_eq]

end Remember

/-- At the beginning of every life the invariant holds, and the calls before are remembered. -/
theorem Opened.carried {past : List Call} {memory : CachedMemory}
    (hopened : Opened g hasher past memory) :
    ∃ first lost gone,
      Carried g hasher first (List.replicate lost (lostUndo g) ++ gone) ⟨memory, []⟩ ∧
        Remembers past gone := by
  induction hopened with
  | created => exact ⟨0, 0, [], Carried.fresh, .nil⟩
  | reopened hopened hshort hcovers ih =>
    obtain ⟨first, lost, gone, hcarried, hremembers⟩ := ih
    have hend := hcarried.lives hshort
    exact ⟨_, _, _, hend.remains hcovers, (hremembers.live hend).left
      fun slot entry hstored ↦ hend.lt_savedTail hcovers hstored⟩

end Fence
