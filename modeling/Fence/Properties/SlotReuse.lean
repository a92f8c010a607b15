import Fence.Properties.ReserveWrap
import Fence.Protocol.Reopen

/-!
# Slots handed out again after a crash

Nothing flushes the header, and recovery takes the reserve tail it finds there as given. So after
a crash the reserve tail may lie below a slot whose record has reached the media, and the next
append is given that slot (`not_noSlotReuse_of_crash`). At no crash point of a run is a slot reused
exactly when every step that brings a committed state byte to the media finds the reserve tail
there past the slot already (`no_slot_reuse_iff`).
-/

set_option autoImplicit false
set_option relaxedAutoImplicit false

namespace Fence

open ByteMemory Interleaving

variable {g : PoolGeometry} {hasher : Hasher} {config : Config Call CachedMemory}
  {action : Action Request ℕ}

/-- What a crash in this state leads to: after reopening the reserve tail lies past every
committed slot, and no later append is given the slot of an append that had returned. -/
structure NoSlotReuse (g : PoolGeometry) (hasher : Hasher) (config : Config Call CachedMemory) :
    Prop where
  above : ∀ recovered, Reopened g hasher config.shared.media recovered →
    ∀ slot < g.capacity, (Pool.ofMemory g recovered).state slot = stateCommitted →
      slot < (Pool.ofMemory g recovered).reserveTail
  kept : ∀ recovered, Reopened g hasher config.shared.media recovered →
    ∀ later : List (Action Request Empty),
      (runtimeMachine g hasher).Along
        (TailBounded (Pool.ofMemory g recovered).reserveTail g hasher) later ⟨recovered, []⟩ →
      ∀ (entry : Entry) (index : ℕ), .append entry (.returned (.ok index)) ∈ config.threads →
        ∀ place, ¬ Holds ((runtimeMachine g hasher).run later ⟨recovered, []⟩).threads place
          (index - 1)

variable (g hasher) in
/-- An action that brings a committed state byte to the media finds the reserve tail there past
the slot. -/
def CommitsBelowTail (config : Config Call CachedMemory) (action : Action Request ℕ) : Prop :=
  ∀ slot < g.capacity,
    (Pool.ofMemory g ((cachedMachine g hasher).apply config action).shared.media).state slot =
      stateCommitted →
    (Pool.ofMemory g config.shared.media).state slot = stateCommitted ∨
      slot < (Pool.ofMemory g config.shared.media).reserveTail

instance (config : Config Call CachedMemory) (action : Action Request ℕ) :
    Decidable (CommitsBelowTail g hasher config action) :=
  inferInstanceAs (Decidable (∀ slot, slot < _ → _))

/-! ### The media, action by action -/

/-- An action brings the cached reserve tail to the media and leaves the slots there alone, or
leaves the reserve tail there alone. -/
theorem media_reserveTail_apply (config : Config Call CachedMemory) (action : Action Request ℕ) :
    (Pool.ofMemory g ((cachedMachine g hasher).apply config action).shared.media).reserveTail =
      (Pool.ofMemory g config.shared.media).reserveTail ∨
    (Pool.ofMemory g ((cachedMachine g hasher).apply config action).shared.media).reserveTail =
      (Pool.ofMemory g config.shared.cached).reserveTail ∧
    ∀ slot < g.capacity,
      (Pool.ofMemory g ((cachedMachine g hasher).apply config action).shared.media).state slot =
        (Pool.ofMemory g config.shared.media).state slot := by
  have hword : ∀ {first second : Memory}, (∀ address < headerSize, first address = second address) →
      (Pool.ofMemory g first).reserveTail = (Pool.ofMemory g second).reserveTail := by
    intro first second hagree
    refine loadWord_congr (load_congr fun i hi ↦ hagree _ ?_)
    unfold hdrReserveTail headerSize
    omega
  rcases @media_apply_cases g hasher config action with hsame | ⟨hcached, hslots⟩
  · exact Or.inl (hword hsame)
  · refine Or.inr ⟨hword hcached, fun slot hslot ↦ ?_⟩
    rw [Pool.ofMemory_state hslot, Pool.ofMemory_state hslot]
    exact hslots _ (Nat.le_trans (g.headerSize_le_recordOffset slot) (Nat.le_add_right _ _))

/-- The invariant of runs whose actions commit below the tail. -/
structure CommittedBelow (g : PoolGeometry) (hasher : Hasher) (config : Config Call CachedMemory) :
    Prop where
  durable : DurableTrimming g hasher config
  below : ∀ slot < g.capacity, (Pool.ofMemory g config.shared.media).state slot = stateCommitted →
    slot < (Pool.ofMemory g config.shared.media).reserveTail

theorem CommittedBelow.apply (hbelow : CommittedBelow g hasher config)
    (hbounded : UndosBoundedCached g hasher config action)
    (hrecover : startsRecover action = false)
    (hcommits : CommitsBelowTail g hasher config action) :
    CommittedBelow g hasher ((cachedMachine g hasher).apply config action) where
  durable := hbelow.durable.apply hbounded hrecover
  below := by
    intro slot hslot hstate
    rcases @media_reserveTail_apply g hasher config action with
      hsame | ⟨hcached, hslots⟩
    · rw [hsame]
      rcases hcommits slot hslot hstate with hbefore | hlt
      · exact hbelow.below slot hslot hbefore
      · exact hlt
    · -- the header was written back, and the cached reserve tail lies past every stored slot
      rw [hcached]
      rw [hslots slot hslot] at hstate
      obtain ⟨entry, hstored⟩ := hbelow.durable.persisted.committed slot hslot hstate
      exact (hbelow.durable.invariant.reserved.slot_bounds hstored).2

theorem CommittedBelow.fresh : CommittedBelow g hasher (freshCached g) where
  durable := DurableTrimming.fresh
  below := by
    intro slot hslot hstate
    obtain ⟨entry, call, hmem, -⟩ :=
      (@Durable.fresh g hasher).persisted.committed slot hslot hstate
    cases hmem

/-- Without trims no slot is reused after a crash in a state of such a run. -/
theorem CommittedBelow.noSlotReuse (hbelow : CommittedBelow g hasher config)
    (huntrimmed : ∀ call ∈ config.threads, ∀ slot, ¬ call.Trims slot) :
    NoSlotReuse g hasher config where
  above := by
    intro recovered hreopened slot hslot hstate
    rw [hreopened.reserveTail_eq]
    exact hbelow.below slot hslot ((hbelow.durable.kept_iff hslot).mp
      ((hreopened.committed_iff hslot).mp hstate))
  kept := by
    intro recovered hreopened later hbounded entry index hmem place hholds
    have hreached : Reached config.threads (index - 1) entry 10 := ⟨_, hmem, 13, by decide, rfl⟩
    have hslot := (hbelow.durable.invariant.reserved.slot_bounds hreached).1
    have hstate : (Pool.ofMemory g config.shared.media).state (index - 1) = stateCommitted := by
      rcases hbelow.durable.persisted.flushed _ _ hreached with hcommitted | habandoned
      · exact hcommitted
      · obtain ⟨call, hcall, htrims⟩ := hbelow.durable.trimmed _ hslot habandoned
        exact (huntrimmed call hcall _ htrims).elim
    have hlow := ((reserved_of_run hbounded).bounds place _ hholds).1
    rw [hreopened.reserveTail_eq] at hlow
    exact absurd (hbelow.below _ hslot hstate) (Nat.not_lt.mpr hlow)

/-! ### The theorem -/

/-- After a crash right after an action that commits past the tail, a slot is reused. -/
theorem CommitsBelowTail.of_noSlotReuse (hdurable : Durable g hasher config)
    (hbounded : UndosBoundedCached g hasher config action)
    (hsafe : NoSlotReuse g hasher ((cachedMachine g hasher).apply config action)) :
    CommitsBelowTail g hasher config action := by
  intro slot hslot hstate
  obtain ⟨recovered, hreopened⟩ := @exists_reopened g hasher
    ((cachedMachine g hasher).apply config action).shared.media
  have hkept := ((hdurable.apply hbounded).kept_iff hslot).mpr hstate
  have hlt := hsafe.above recovered hreopened slot hslot ((hreopened.committed_iff hslot).mpr hkept)
  rw [hreopened.reserveTail_eq] at hlt
  rcases @media_reserveTail_apply g hasher config action with
    hsame | ⟨-, hslots⟩
  · exact Or.inr (hsame ▸ hlt)
  · exact Or.inl ((hslots slot hslot).symm.trans hstate)

/-- In a run of appends and reads in which the pending undos stay bounded, no crash leads to the
reuse of a slot exactly when every action commits below the reserve tail on the media. -/
theorem no_slot_reuse_iff {schedule : List (Action Request ℕ)}
    (honly : ∀ action ∈ schedule, startsTrim action = false ∧ startsRecover action = false)
    (hbounded : (cachedMachine g hasher).Along (UndosBoundedCached g hasher) schedule
      (freshCached g)) :
    (∀ before after, schedule = before ++ after →
      NoSlotReuse g hasher ((cachedMachine g hasher).run before (freshCached g))) ↔
    (cachedMachine g hasher).Along (CommitsBelowTail g hasher) schedule (freshCached g) := by
  constructor
  · intro hsafe
    refine along_iff_forall_split.mpr ?_
    rintro before action after rfl
    obtain ⟨hbefore, hnext, -⟩ := along_append.mp hbounded
    refine (CommitsBelowTail.of_noSlotReuse (durable_of_run hbefore) hnext) ?_
    have hrun := hsafe (before ++ [action]) after (by simp)
    rwa [run_append] at hrun
  · rintro hcommits before after rfl
    have hbelow : CommittedBelow g hasher
        ((cachedMachine g hasher).run before (freshCached g)) := by
      refine invariant_run (CommittedBelow g hasher)
        (fun _ _ hbelow hcondition ↦ hbelow.apply hcondition.1.1 hcondition.1.2 hcondition.2)
        (along_and.mpr ⟨along_and.mpr ⟨(along_append.mp hbounded).1, ?_⟩,
          (along_append.mp hcommits).1⟩) CommittedBelow.fresh
      exact along_of_forall_mem (fun action ↦ startsRecover action = false)
        (fun action hmem ↦ (honly action (List.mem_append_left _ hmem)).2) _
    refine hbelow.noSlotReuse fun call hmem slot htrims ↦ ?_
    obtain ⟨upTo, hrequest, -⟩ := htrims.request
    have hstarted := start_mem_of_mem_cachedRun hmem
    rw [hrequest] at hstarted
    have := (honly _ (List.mem_append_left _ hstarted)).1
    cases this

/-- An append whose reservation is written back before its record is committed. -/
theorem no_slot_reuse_onePool :
    NoSlotReuse onePool crc32fast ((cachedMachine onePool crc32fast).run
      (alone (.append firstEntry) 0 1 ++ [.env 0] ++ List.replicate 15 (.step 0))
      (freshCached onePool)) :=
  (no_slot_reuse_iff (by decide) (by decide +kernel)).mpr (by decide +kernel) _ []
    (List.append_nil _).symm

/-- A crash after one append, with no line written back, leaves the reserve tail at zero and the
slot committed. -/
theorem not_noSlotReuse_of_crash :
    ¬ NoSlotReuse onePool crc32fast ((cachedMachine onePool crc32fast).run
      (alone (.append firstEntry) 0 16) (freshCached onePool)) := by
  intro hsafe
  have hreturned : .append firstEntry (.returned (.ok 1)) ∈ ((cachedMachine onePool crc32fast).run
      (alone (.append firstEntry) 0 16) (freshCached onePool)).threads := by decide +kernel
  have hreopened : Reopened onePool crc32fast ((cachedMachine onePool crc32fast).run
      (alone (.append firstEntry) 0 16) (freshCached onePool)).shared.media _ :=
    ⟨0, 5, ⟨0, 1, 0⟩, Prod.ext (by decide +kernel) rfl⟩
  -- the next append is given the slot of the record that survived
  refine hsafe.kept _ hreopened (alone (.append secondEntry) 0 1) (by decide +kernel) firstEntry 1
    hreturned 0 ?_
  exact ⟨.append secondEntry (.running (.storeWriting 0)), by decide +kernel, rfl⟩

end Fence
