import Fence.Protocol.Durable
import Fence.Protocol.WrittenOff

/-!
# What the media holds for the calls to come

`Backed` is what the media holds of the slots that were handed out, whatever lines have been written
back: a record is complete there before its append goes on to commit it, a committed state byte is
that of an append that stored it, what lies below the tail there is stored, and what lies below the
reserve tail there was handed out. The two tails share a line, so the media always has both as they
were at one moment (`media_tails_apply`).
-/

set_option autoImplicit false
set_option relaxedAutoImplicit false

namespace Fence

open ByteMemory Interleaving

variable {g : PoolGeometry} {hasher : Hasher}

/-- A state byte that `append`, `trim` and `recover` write, or that of a slot nobody has begun. -/
def KnownState (state : UInt8) : Prop :=
  state = stateFree ∨ state = stateWriting ∨ state = stateCommitted ∨ state = stateAbandoned

variable (g hasher) in
/-- What the media holds of the slots that were handed out. -/
structure Backed (threads : List Call) (media : Memory) : Prop where
  known : ∀ slot < g.capacity, KnownState ((Pool.ofMemory g media).state slot)
  written : ∀ slot entry, Reached threads slot entry 8 →
    Written hasher entry slot 7 ((Pool.ofMemory g media).slot slot)
  begun : ∀ slot entry, Reached threads slot entry 8 →
    (Pool.ofMemory g media).state slot ≠ stateFree
  committed : ∀ slot < g.capacity, (Pool.ofMemory g media).state slot = stateCommitted →
    ∃ entry, Stored threads slot entry
  published : ∀ slot < (Pool.ofMemory g media).committedTail, ∃ entry, Stored threads slot entry
  handed : ∀ slot < g.capacity, slot < (Pool.ofMemory g media).reserveTail →
    ∃ index, Holds threads index slot

/-- Both tails of the later memory are those of one other memory. -/
def TailsOf (g : PoolGeometry) (memory later : Memory) : Prop :=
  (Pool.ofMemory g later).committedTail = (Pool.ofMemory g memory).committedTail ∧
    (Pool.ofMemory g later).reserveTail = (Pool.ofMemory g memory).reserveTail

/-- Memories that agree on the header have the same tails. -/
theorem TailsOf.of_header {memory later : Memory}
    (hsame : ∀ address < headerSize, later address = memory address) : TailsOf g memory later := by
  have hword : ∀ offset, offset + 8 ≤ headerSize →
      loadWord later offset 8 = loadWord memory offset 8 :=
    fun offset hfits ↦ loadWord_congr (load_congr fun i hi ↦ hsame _ (by omega))
  exact ⟨hword hdrCommittedTail (by decide), hword hdrReserveTail (by decide)⟩

/-- An action leaves both tails on the media alone, or writes back both. -/
theorem media_tails_apply (config : Config Call CachedMemory) (action : Action Request ℕ) :
    TailsOf g config.shared.media ((cachedMachine g hasher).apply config action).shared.media ∨
      TailsOf g config.shared.cached
        ((cachedMachine g hasher).apply config action).shared.media := by
  rcases @media_apply_cases g hasher config action with hsame | ⟨hcached, -⟩
  · exact Or.inl (.of_header hsame)
  · exact Or.inr (.of_header hcached)

theorem StateAt.known {stage : ℕ} {state : UInt8} (hstate : StateAt stage state) :
    KnownState state := by
  unfold StateAt at hstate
  unfold KnownState
  split_ifs at hstate
  · exact Or.inl hstate
  · rcases hstate with hwriting | habandoned
    · exact Or.inr (Or.inl hwriting)
    · exact Or.inr (Or.inr (Or.inr habandoned))
  · exact Or.inr (Or.inr hstate)

/-- A slot whose append has begun is not free. -/
theorem StateAt.ne_free {stage : ℕ} {state : UInt8} (hstate : StateAt stage state)
    (hstage : 1 ≤ stage) : state ≠ stateFree := by
  unfold StateAt at hstate
  rw [if_neg (by omega)] at hstate
  split_ifs at hstate
  · rcases hstate with rfl | rfl <;> decide
  · rcases hstate with rfl | rfl <;> decide

/-! ### The records in the cache -/

section Cached

variable {first : ℕ} {gone : List Call} {config : Config Call Memory}
  (hinherited : Inherited g hasher first gone config)

include hinherited

/-- A record that is filled is complete, and its slot is not free. -/
theorem Inherited.filled {slot : ℕ} {entry : Entry} {stage : ℕ}
    (hreached : Reached (gone ++ config.threads) slot entry stage) (hstage : 7 ≤ stage) :
    Written hasher entry slot 7 ((Pool.ofMemory g config.shared).slot slot) ∧
      (Pool.ofMemory g config.shared).state slot ≠ stateFree := by
  refine ⟨Written.writeOff_iff.mp (hinherited.contents.written_of_reached hreached hstage), ?_⟩
  obtain ⟨call, hmem, reached, hlow, hreservation⟩ := hreached
  have hstate := (hinherited.contents.written call hmem _ _ _ hreservation).2
  exact mt Pool.state_writeOff_free.mpr (hstate.ne_free (by omega))

/-- No slot has a state byte that nobody writes. -/
theorem Inherited.known {slot : ℕ} (hslot : slot < g.capacity) :
    KnownState ((Pool.ofMemory g config.shared).state slot) := by
  have hknown : KnownState (((Pool.ofMemory g config.shared).writeOff first).state slot) := by
    by_cases htail : slot < (Pool.ofMemory g config.shared).reserveTail
    · obtain ⟨index, call, hcall, hreserves⟩ :=
        hinherited.reserved.covered slot (Nat.zero_le _) hslot htail
      obtain ⟨⟨held, entry, stage⟩, hreservation, rfl⟩ := Option.map_eq_some_iff.mp hreserves
      exact (hinherited.contents.written call (List.mem_of_getElem? hcall) _ _ _
        hreservation).2.known
    · exact Or.inl (hinherited.contents.free slot hslot (Nat.le_of_not_lt htail))
  rw [Pool.state_writeOff] at hknown
  split_ifs at hknown with hoff
  · exact Or.inr (Or.inl hoff.2)
  · exact hknown

/-- Bringing bytes of the cache to the media keeps what it holds. -/
theorem Backed.mix {media later : Memory} (hbacked : Backed g hasher (gone ++ config.threads) media)
    (hmixes : Mixes media config.shared later)
    (htails : TailsOf g media later ∨ TailsOf g config.shared later) :
    Backed g hasher (gone ++ config.threads) later where
  known := by
    intro slot hslot
    rw [Pool.state]
    rcases hmixes.slot (g := g) slot recState with hsame | hsame
    · rw [hsame]
      exact hbacked.known slot hslot
    · rw [hsame]
      exact hinherited.known hslot
  written := by
    intro slot entry hreached
    exact (hbacked.written slot entry hreached).mix
      (hinherited.filled hreached (by decide)).1 (hmixes.slot slot)
  begun := by
    intro slot entry hreached
    rcases hmixes.slot (g := g) slot recState with hsame | hsame
    · rw [Pool.state, hsame]
      exact hbacked.begun slot entry hreached
    · rw [Pool.state, hsame]
      exact (hinherited.filled hreached (by decide)).2
  committed := by
    intro slot hslot hstate
    rcases hmixes.slot (g := g) slot recState with hsame | hsame
    · exact hbacked.committed slot hslot (hsame.symm.trans hstate)
    · exact hinherited.rely.stored_of_committed slot hslot (hsame.symm.trans hstate)
  published := by
    intro slot hslot
    rcases htails with ⟨hsame, -⟩ | ⟨hsame, -⟩
    · exact hbacked.published slot (hsame ▸ hslot)
    · exact hinherited.contents.published slot (hsame ▸ hslot)
  handed := by
    intro slot hcapacity hslot
    rcases htails with ⟨-, hsame⟩ | ⟨-, hsame⟩
    · exact hbacked.handed slot hcapacity (hsame ▸ hslot)
    · exact hinherited.reserved.covered slot (Nat.zero_le _) hcapacity (hsame ▸ hslot)

end Cached

/-! ### Actions -/

variable (g hasher) in
/-- The invariant of calls on a cached memory that other calls, now gone, have left behind. -/
structure Carried (first : ℕ) (gone : List Call) (config : Config Call CachedMemory) : Prop where
  inherited : Inherited g hasher first gone (withoutMedia config)
  backed : Backed g hasher (gone ++ config.threads) config.shared.media
  tail_le : (Pool.ofMemory g config.shared.media).committedTail ≤
    (Pool.ofMemory g config.shared.cached).committedTail

section Apply

variable {first : ℕ} {gone : List Call} {config : Config Call CachedMemory}
  {action : Action Request ℕ} (hcarried : Carried g hasher first gone config)

include hcarried

/-- A call that was just started holds no slot, so the media holds nothing of it. -/
theorem Carried.backed_start (request : Request) :
    Backed g hasher (gone ++ (config.threads ++ [request.call g])) config.shared.media := by
  have hbacked := hcarried.backed
  rw [← List.append_assoc]
  have hextends : Extends (gone ++ config.threads) _ := extends_append (request.call g)
  have hold : ∀ slot entry, Reached (gone ++ config.threads ++ [request.call g]) slot entry 8 →
      Reached (gone ++ config.threads) slot entry 8 := by
    rintro slot entry ⟨call, hmem, reached, hle, hreservation⟩
    rcases List.mem_append.mp hmem with hbefore | hnew
    · exact ⟨call, hbefore, reached, hle, hreservation⟩
    · rw [List.mem_singleton.mp hnew, request.call_reservation.1] at hreservation
      cases hreservation
  exact
    { known := hbacked.known
      written := fun slot entry hreached ↦ hbacked.written slot entry (hold _ _ hreached)
      begun := fun slot entry hreached ↦ hbacked.begun slot entry (hold _ _ hreached)
      committed := fun slot hslot hstate ↦
        hextends.exists_reached (hbacked.committed slot hslot hstate)
      published := fun slot hslot ↦ hextends.exists_reached (hbacked.published slot hslot)
      handed := fun slot hcapacity hslot ↦ (hbacked.handed slot hcapacity hslot).imp fun _ ↦
        (holds_append request.call_reservedSlot).mpr }

/-- A step keeps what the media holds. -/
theorem Carried.backed_step {index : ℕ} {call : Call} (hcall : config.threads[index]? = some call)
    (htails : TailsOf g config.shared.media (call.stepCached g hasher config.shared).2.media) :
    Backed g hasher (gone ++ config.threads.set index (call.stepCached g hasher config.shared).1)
      (call.stepCached g hasher config.shared).2.media := by
  have hplace := @getElem?_gone_append gone _ _ _ hcall
  have hcall' : (withoutMedia config).threads[index]? = some call := hcall
  obtain ⟨heffect, -⟩ := hcarried.inherited.stepSpec hcall'
  have hafter : (call.stepCached g hasher config.shared).1 =
      (call.step g hasher (withoutMedia config).shared).1 := (call.stepCached_eq config.shared).1
  rw [← hafter] at heffect
  rw [← set_gone_append]
  have hmixed := hcarried.backed.mix hcarried.inherited
    (@Call.stepCached_media g hasher call config.shared) (Or.inl htails)
  have hextends : Extends (gone ++ config.threads) _ := extends_set hplace heffect.advances
  -- a call that gets past its flush has just brought its record to the media
  have hflushed : ∀ slot entry, call.reservation = some ⟨slot, entry, 7⟩ →
      Written hasher entry slot 7
        ((Pool.ofMemory g (call.stepCached g hasher config.shared).2.media).slot slot) ∧
      (Pool.ofMemory g (call.stepCached g hasher config.shared).2.media).state slot ≠
        stateFree := by
    intro slot entry hreservation
    have hreached : Reached (gone ++ config.threads) slot entry 7 :=
      ⟨call, List.mem_of_getElem? hplace, 7, Nat.le_refl _, hreservation⟩
    have hslot := (hcarried.inherited.reserved.slot_bounds hreached).1
    have hfilled : Written hasher entry slot 7
          ((Pool.ofMemory g config.shared.cached).slot slot) ∧
        (Pool.ofMemory g config.shared.cached).slot slot recState ≠ stateFree :=
      hcarried.inherited.filled hreached (Nat.le_refl _)
    rw [← ofMemory_flush_record hslot] at hfilled
    rw [Call.eq_flushRecord hreservation]
    exact hfilled
  exact
    { known := hmixed.known
      written := by
        intro slot entry hreached
        rcases heffect.reached_set hplace (Or.inl rfl) hreached with hold | hnew
        · exact hmixed.written slot entry hold
        · exact (hflushed slot entry hnew).1
      begun := by
        intro slot entry hreached
        rcases heffect.reached_set hplace (Or.inl rfl) hreached with hold | hnew
        · exact hmixed.begun slot entry hold
        · exact (hflushed slot entry hnew).2
      committed := fun slot hslot hstate ↦
        hextends.exists_reached (hmixed.committed slot hslot hstate)
      published := fun slot hslot ↦ hextends.exists_reached (hmixed.published slot hslot)
      handed := by
        intro slot hcapacity hslot
        obtain ⟨other, held, hheld, hreserves⟩ := hmixed.handed slot hcapacity hslot
        obtain ⟨⟨place, entry, stage⟩, hreservation, rfl⟩ := Option.map_eq_some_iff.mp hreserves
        exact (hextends _ _ _
          ⟨held, List.mem_of_getElem? hheld, stage, Nat.le_refl _, hreservation⟩ :
            Reached _ place entry stage).holds }

/-- No action lowers the committed tail. -/
theorem Carried.tail_le_apply (action : Action Request ℕ) :
    (Pool.ofMemory g config.shared.cached).committedTail ≤ (Pool.ofMemory g
      ((cachedMachine g hasher).apply config action).shared.cached).committedTail := by
  cases action with
  | start request => exact Nat.le_refl _
  | env line => exact Nat.le_refl _
  | step index =>
    cases hcall : config.threads[index]? with
    | none => rw [apply_step_of_none _ hcall]
    | some call =>
      have hcall' : (withoutMedia config).threads[index]? = some call := hcall
      rw [apply_step_of_getElem? _ hcall]
      refine Nat.le_trans (hcarried.inherited.stepSpec hcall').1.committedTail_le ?_
      exact Nat.le_of_eq (congrArg (fun memory ↦ (Pool.ofMemory g memory).committedTail)
        (call.stepCached_eq config.shared).2.symm)

/-- Every action keeps the invariant, as long as not too many undos are pending. -/
theorem Carried.apply
    (hbounded : pendingUndos (gone ++ ((cachedMachine g hasher).apply config action).threads) <
      2 ^ 64 - g.capacity) :
    Carried g hasher first gone ((cachedMachine g hasher).apply config action) where
  inherited := by
    cases action with
    | start request =>
      rw [cachedMachine_apply_start]
      refine hcarried.inherited.apply ?_
      rw [← cachedMachine_apply_start]
      exact hbounded
    | step index =>
      rw [cachedMachine_apply_step]
      refine hcarried.inherited.apply ?_
      rw [← cachedMachine_apply_step]
      exact hbounded
    | env line => exact hcarried.inherited
  backed := by
    cases action with
    | start request => exact hcarried.backed_start request
    | env line =>
      exact hcarried.backed.mix hcarried.inherited
        (CachedMemory.writeBack_media line config.shared)
        (@media_tails_apply g hasher config (.env line))
    | step index =>
      cases hcall : config.threads[index]? with
      | none =>
        rw [apply_step_of_none _ hcall]
        exact hcarried.backed
      | some call =>
        rw [apply_step_of_getElem? _ hcall]
        exact hcarried.backed_step hcall
          (.of_header fun address ↦ call.stepCached_media_header config.shared)
  tail_le := by
    have hle := hcarried.tail_le_apply action
    rcases @media_tails_apply g hasher config action with ⟨hsame, -⟩ | ⟨hsame, -⟩
    · rw [hsame]
      exact hcarried.tail_le.trans hle
    · rw [hsame]
      exact hle

end Apply

/-- Every action changes the log that readers are shown as a change of the log. -/
theorem Carried.publishedLog_change {first : ℕ} {gone : List Call}
    {config : Config Call CachedMemory} (hcarried : Carried g hasher first gone config)
    (action : Action Request ℕ) :
    (publishedLog g config.shared.cached).Change
      (publishedLog g ((cachedMachine g hasher).apply config action).shared.cached) := by
  cases action with
  | start request => exact .stay
  | env line => exact .stay
  | step index =>
    have hchange := hcarried.inherited.publishedLog_change (.step index)
    rw [← cachedMachine_apply_step] at hchange
    exact hchange

/-- The media shows the entries that the cache shows, as far as its tail goes. -/
theorem Carried.entries_prefix {first : ℕ} {gone : List Call}
    {config : Config Call CachedMemory} (hcarried : Carried g hasher first gone config) :
    (publishedLog g config.shared.media).map LogEntry.entry <+:
      (publishedLog g config.shared.cached).map LogEntry.entry := by
  have hsame : (publishedLog g config.shared.media).map LogEntry.entry =
      (List.range (Pool.ofMemory g config.shared.media).committedTail).map
        fun slot ↦ ((Pool.ofMemory g config.shared.cached).item slot).entry := by
    rw [publishedLog, Pool.publishedLog, List.map_map]
    refine List.map_congr_left fun slot hslot ↦ ?_
    obtain ⟨entry, hstored⟩ := hcarried.backed.published slot (List.mem_range.mp hslot)
    obtain ⟨hcapacity, hsize, hcomplete⟩ :=
      hcarried.inherited.rely.complete_of_stored slot entry hstored
    have hmedia := (hcarried.backed.written slot entry
      (hstored.mono_stage (by decide))).complete (Nat.le_refl _) hcapacity hsize
    exact hmedia.storedEntry_eq.trans hcomplete.storedEntry_eq.symm
  have hrange : List.range (Pool.ofMemory g config.shared.media).committedTail <+:
      List.range (Pool.ofMemory g config.shared.cached).committedTail := by
    rw [← Nat.min_eq_left hcarried.tail_le, ← List.take_range]
    exact List.take_prefix _ _
  rw [hsame, publishedLog, Pool.publishedLog, List.map_map]
  exact hrange.map _

/-- A pool just created satisfies the invariant. -/
theorem Carried.fresh : Carried g hasher 0 [] (freshCached g) where
  inherited := Inherited.fresh
  backed := by
    have hpool : Pool.ofMemory g (freshCached g).shared.media = ⟨0, 0, fun _ _ ↦ 0⟩ := by
      rw [freshCached_shared]
      exact ofMemory_freshMemory
    have hnone : ∀ slot entry, ¬ Reached ([] ++ (freshCached g).threads) slot entry 8 := by
      rintro slot entry ⟨call, hmem, -⟩
      cases hmem
    exact
      { known := by
          intro slot _
          rw [hpool]
          exact Or.inl rfl
        written := fun slot entry hreached ↦ (hnone _ _ hreached).elim
        begun := fun slot entry hreached ↦ (hnone _ _ hreached).elim
        committed := by
          intro slot hslot hstate
          rw [hpool] at hstate
          exact absurd hstate (by decide : (0 : UInt8) ≠ stateCommitted)
        published := by
          intro slot hslot
          rw [hpool] at hslot
          exact absurd hslot (Nat.not_lt_zero _)
        handed := by
          intro slot hcapacity hslot
          rw [hpool] at hslot
          exact absurd hslot (Nat.not_lt_zero _) }
  tail_le := by
    rw [freshCached_shared]
    exact Nat.le_refl _

end Fence
