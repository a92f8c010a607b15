import Fence.Alloc.CreatorSteps
import Mathlib.Data.List.Perm.Subperm

/-!
# Runs of creators

`Creating` is what holds of any number of `create_region` calls in flight on one pool: each knows
and holds what its program point says, every entry that is not free is held by one of them, the
regions they hold have different slots and do not overlap, and the header counts those that have
counted theirs. A step keeps it (`Creating.step`) when the slot of a first store is free and nobody
else writes it, and when a count is stored that is still the one loaded (`Uncontested`).
-/

set_option autoImplicit false
set_option relaxedAutoImplicit false

namespace Fence

open ByteMemory Interleaving

variable {base poolSize : ℕ} {config : Config AllocCall Memory}

/-- The creators at work on a pool. -/
structure Creating (base : ℕ) (config : Config AllocCall Memory) : Prop where
  knows : ∀ call ∈ config.threads, call.Knows base config.shared
  holds : ∀ call ∈ config.threads, call.Holds base config.shared
  taken : ∀ slot < maxRegions,
    IsFree base config.shared slot ∨ ∃ call ∈ config.threads, call.Took slot
  apart : ∀ {i j : ℕ} {first second : AllocCall} {region held : RegionHandle}, i ≠ j →
    config.threads[i]? = some first → config.threads[j]? = some second →
      first.held = some region → second.held = some held →
        region.slot ≠ held.slot ∧ region.Apart held
  count : regionCount base config.shared = config.threads.countP AllocCall.counted

/-! ### Entries and counts -/

/-- An entry is free or taken. -/
theorem Creating.marked (hcreating : Creating base config) {slot : ℕ} (hslot : slot < maxRegions) :
    IsFree base config.shared slot ∨ (CatalogEntry.ofMemory config.shared base slot).Marked := by
  rcases hcreating.taken slot hslot with hfree | ⟨call, hmem, region, hregion, rfl, htaken⟩
  · exact Or.inl hfree
  · exact Or.inr ((hcreating.holds call hmem region hregion).marked htaken).1

/-- The regions that are held have different slots and do not overlap. -/
theorem Creating.pairwise_held (hcreating : Creating base config) :
    (config.threads.filterMap AllocCall.held).Pairwise fun first second ↦
      first.slot ≠ second.slot ∧ first.Apart second := by
  refine List.pairwise_filterMap.mpr (List.pairwise_iff_getElem.mpr ?_)
  intro i j hi hj hlt region hregion held hheld
  exact hcreating.apart (Nat.ne_of_lt hlt) (List.getElem?_eq_getElem hi)
    (List.getElem?_eq_getElem hj) hregion hheld

theorem AllocCall.held_of_counted {call : AllocCall} (hcounted : call.counted = true) :
    call.held.isSome = true := by
  cases call with
  | createRegion name size task =>
    cases task with
    | running point => cases point <;> first | rfl | cases hcounted
    | returned result => cases result <;> first | rfl | cases hcounted
  | _ => cases hcounted

/-- There are no more counted regions than slots. -/
theorem Creating.count_le (hcreating : Creating base config) :
    regionCount base config.shared ≤ maxRegions := by
  have hnodup : ((config.threads.filterMap AllocCall.held).map RegionHandle.slot).Nodup :=
    List.pairwise_map.mpr (hcreating.pairwise_held.imp fun hne ↦ hne.1)
  have hslots : ((config.threads.filterMap AllocCall.held).map RegionHandle.slot) ⊆
      List.range maxRegions := by
    intro slot hmem
    obtain ⟨region, hregion, rfl⟩ := List.mem_map.mp hmem
    obtain ⟨call, hcall, hheld⟩ := List.mem_filterMap.mp hregion
    exact List.mem_range.mpr (hcreating.holds call hcall region hheld).chosen.slot_lt
  have hlength := (hnodup.subperm hslots).length_le
  rw [List.length_map, List.length_range, List.length_filterMap_eq_countP] at hlength
  rw [hcreating.count]
  exact Nat.le_trans (List.countP_mono_left fun call _ ↦ AllocCall.held_of_counted) hlength

/-! ### One step -/

/-- A step of one call, whose region is apart from all others if it is new. -/
theorem Creating.replace (hcreating : Creating base config) {index : ℕ} {call next : AllocCall}
    {later : Memory} (hcall : config.threads[index]? = some call)
    (hstep : CreatorStep base config.shared later call next)
    (hapart : ∀ {other : ℕ} {thread : AllocCall} {region held : RegionHandle}, other ≠ index →
      config.threads[other]? = some thread → next.held = some region → thread.held = some held →
        region.slot ≠ held.slot ∧ region.Apart held) :
    Creating base ⟨later, config.threads.set index next⟩ where
  knows := forall_mem_set (AllocCall.Knows base later) hcall hstep.knows fun _ other _ hother ↦
    (hcreating.knows other (List.mem_of_getElem? hother)).mono hstep.frame
  holds := by
    refine forall_mem_set
      (AllocCall.Holds base later) hcall hstep.holds fun other thread hne hother ↦ ?_
    refine (hcreating.holds thread (List.mem_of_getElem? hother)).mono hstep.frame fun
      held hheld ↦ ?_
    exact hstep.others held.slot fun region hregion ↦ (hapart hne hother hregion hheld).1
  taken := by
    intro slot hslot
    obtain ⟨hindex, -⟩ := List.getElem?_eq_some_iff.mp hcall
    rcases hcreating.taken slot hslot with hfree | htook
    · rcases hstep.taken slot hslot hfree with hstill | hnext
      · exact Or.inl hstill
      · exact Or.inr ⟨next, List.mem_set hindex next, hnext⟩
    · exact Or.inr (exists_mem_set hcall (hstep.kept slot) (fun _ _ htook ↦ htook) htook)
  apart := by
    obtain ⟨hindex, -⟩ := List.getElem?_eq_some_iff.mp hcall
    intro i j first second region held hne hfirst hsecond hregion hheld
    by_cases hi : i = index
    · subst hi
      rw [List.getElem?_set_self hindex, Option.some.injEq] at hfirst
      rw [List.getElem?_set_ne hne] at hsecond
      subst hfirst
      exact hapart (Ne.symm hne) hsecond hregion hheld
    · rw [List.getElem?_set_ne (Ne.symm hi)] at hfirst
      by_cases hj : j = index
      · subst hj
        rw [List.getElem?_set_self hindex, Option.some.injEq] at hsecond
        subst hsecond
        obtain ⟨hslot, hdisjoint⟩ := hapart hne hfirst hheld hregion
        exact ⟨Ne.symm hslot, hdisjoint.symm⟩
      · rw [List.getElem?_set_ne (Ne.symm hj)] at hsecond
        exact hcreating.apart hne hfirst hsecond hregion hheld
  count := by
    obtain ⟨hindex, hget⟩ := List.getElem?_eq_some_iff.mp hcall
    have hcount := hstep.count
    have hpos : call.counted = true → 0 < config.threads.countP AllocCall.counted :=
      fun hcounted ↦ List.countP_pos_iff.mpr ⟨call, List.mem_of_getElem? hcall, hcounted⟩
    rw [hcreating.count] at hcount
    rw [List.countP_set hindex, hget]
    cases hcounted : call.counted <;> cases hnext : next.counted <;>
      simp only [hcounted, hnext, Bool.toNat_false, Bool.toNat_true, Bool.false_eq_true, if_true,
        if_false, true_implies] at hcount hpos ⊢ <;> omega

/-- At its first store a creator is the only one on its slot. -/
def CreatePoint.Alone (threads : List AllocCall) : CreatePoint → Prop
  | .writeEntry slot _ .writeNameLen => ∀ call ∈ threads, ¬ call.Writes slot
  | _ => True

/-- The creator that takes a step has a property. -/
def CreatorSteps (property : Config AllocCall Memory → ℕ → CreatePoint → Prop)
    (config : Config AllocCall Memory) : Action AllocRequest Empty → Prop
  | .step index =>
    match config.threads[index]? with
    | some (.createRegion _ size (.running point)) => property config size.toNat point
    | _ => True
  | _ => True

/-- No sum that a creator uses has wrapped. -/
def NoSumWraps (base : ℕ) : Config AllocCall Memory → Action AllocRequest Empty → Prop :=
  CreatorSteps fun config size point ↦ point.Exact base config.shared size

/-- What a creator has loaded is still so when it stores: its slot is free at its first store, and
nobody else writes there; the count is the one loaded when it stores the next one. -/
def Uncontested (base : ℕ) : Config AllocCall Memory → Action AllocRequest Empty → Prop :=
  CreatorSteps fun config _ point ↦ point.Current base config.shared ∧ point.Alone config.threads

/-- A first store claims a region apart from all others. -/
theorem Creating.apart_of_firstStore (hcreating : Creating base config) {call : AllocCall}
    {region held : RegionHandle} (hfirst : FirstStore base config.shared call region)
    (halone : ∀ call ∈ config.threads, ¬ call.Writes region.slot) {thread : AllocCall}
    (hthread : thread ∈ config.threads) (hheld : thread.held = some held) :
    region.slot ≠ held.slot ∧ region.Apart held := by
  have hregion := hcreating.holds thread hthread held hheld
  by_cases htaken : thread.heldState = .free
  · -- both slots are the first free one, so the other call writes this one
    have hsame := eq_of_isFree hfirst.free hfirst.chosen.below (hregion.state_eq.trans htaken)
      hregion.chosen.below
    exact absurd ⟨held, hheld, hsame.symm, htaken⟩ (halone thread hthread)
  · obtain ⟨hmarked, hhandle⟩ := hregion.marked htaken
    have hoffset := congrArg RegionHandle.offset hhandle
    have hsize := congrArg RegionHandle.size hhandle
    simp only [CatalogEntry.handle] at hoffset hsize
    have hend := end_le_nextOffset hfirst.exact hregion.chosen.slot_lt hmarked
      (by rw [hoffset, hsize]; exact hregion.end_lt)
    rw [hoffset, hsize, ← hfirst.offset_eq] at hend
    refine ⟨fun hsame ↦ hmarked.ne_free ?_, Or.inr hend⟩
    rw [← hsame]
    exact hfirst.free

/-- The action starts a `create_region` or lets a call take a step. -/
def CreatesOnly : Action AllocRequest Empty → Prop
  | .start (.createRegion _ _) => True
  | .start _ => False
  | _ => True

theorem Searching.start (name : String) (size : UInt64) (memory : Memory) :
    Searching base memory (.createRegion name size (startCreate name)) := by
  unfold startCreate
  split_ifs with hname
  · exact searching_error _
  · exact ⟨⟨Nat.le_of_not_lt hname, trivial⟩, rfl, rfl⟩

/-- A call is started. -/
theorem Creating.start (hcreating : Creating base config) (name : String) (size : UInt64) :
    Creating base { config with
      threads := config.threads ++ [.createRegion name size (startCreate name)] } := by
  have hnew := @Searching.start base name size config.shared
  have hold : ∀ {i : ℕ} {call : AllocCall} {region : RegionHandle},
      (config.threads ++ [.createRegion name size (startCreate name)])[i]? = some call →
      call.held = some region → config.threads[i]? = some call := by
    intro i call region hcall hregion
    rcases Nat.lt_or_ge i config.threads.length with hlt | hge
    · rwa [List.getElem?_append_left hlt] at hcall
    · rw [List.getElem?_append_right hge] at hcall
      obtain rfl := List.mem_singleton.mp (List.mem_of_getElem? hcall)
      rw [hnew.held] at hregion
      cases hregion
  refine ⟨?_, ?_, fun slot hslot ↦ ?_, ?_, ?_⟩
  · intro call hmem
    rcases List.mem_append.mp hmem with hcall | hcall
    · exact hcreating.knows call hcall
    · rw [List.mem_singleton.mp hcall]
      exact hnew.knows
  · intro call hmem region hregion
    rcases List.mem_append.mp hmem with hcall | hcall
    · exact hcreating.holds call hcall region hregion
    · rw [List.mem_singleton.mp hcall, hnew.held] at hregion
      cases hregion
  · rcases hcreating.taken slot hslot with hfree | ⟨call, hcall, htook⟩
    · exact Or.inl hfree
    · exact Or.inr ⟨call, List.mem_append_left _ hcall, htook⟩
  · exact fun hne hfirst hsecond hregion hheld ↦
      hcreating.apart hne (hold hfirst hregion) (hold hsecond hheld) hregion hheld
  · rw [List.countP_append, List.countP_singleton, hnew.counted, ← hcreating.count]
    rfl

/-- An uncontested step keeps the invariant. -/
theorem Creating.apply (hcreating : Creating base config) {action : Action AllocRequest Empty}
    (hcreates : CreatesOnly action) (hexact : NoSumWraps base config action)
    (huncontested : Uncontested base config action) :
    Creating base ((allocatorMachine base poolSize).apply config action) := by
  cases action with
  | env event => exact event.elim
  | start request =>
    cases request with
    | createRegion name size => exact hcreating.start name size
    | _ => exact hcreates.elim
  | step index =>
    cases hcall : config.threads[index]? with
    | none =>
      rw [apply_step_of_none _ hcall]
      exact hcreating
    | some call =>
      rw [apply_step_of_getElem? _ hcall]
      have hmem := List.mem_of_getElem? hcall
      have hknows := hcreating.knows call hmem
      cases call with
      | createRegion name size task =>
        cases task with
        | returned result =>
          have hhalted : (allocatorMachine base poolSize).step
              (.createRegion name size (.returned result)) config.shared =
              (.createRegion name size (.returned result), config.shared) := rfl
          obtain ⟨hindex, hget⟩ := List.getElem?_eq_some_iff.mp hcall
          rw [hhalted, ← hget, List.set_getElem_self]
          exact hcreating
        | running point =>
          simp only [NoSumWraps, Uncontested, CreatorSteps, hcall] at hexact huncontested
          have hcount := Nat.lt_of_le_of_lt (Nat.succ_le_succ hcreating.count_le)
            (by decide : maxRegions + 1 < 2 ^ 64)
          have hstep := @creatorStep base poolSize config.shared name size point hknows
            (hcreating.holds _ hmem) (fun slot hslot ↦ hcreating.marked hslot) hcount hexact
            huncontested.1
          have hrunning : (allocatorMachine base poolSize).step
              (.createRegion name size (.running point)) config.shared = _ :=
            (AllocCall.runs_createRegion name size).step_running point config.shared
          rw [hrunning]
          refine hcreating.replace hcall hstep fun hne hother hregion hheld ↦ ?_
          rcases hstep.claimed _ hregion with hclaimed | hfirst
          · exact hcreating.apart (Ne.symm hne) hcall hother hclaimed hheld
          · obtain ⟨other, hpoint⟩ := hfirst.point
            obtain ⟨rfl, -, hpoint⟩ := AllocCall.createRegion.inj hpoint
            obtain rfl := Task.running.inj hpoint
            exact hcreating.apart_of_firstStore hfirst huncontested.2 (List.mem_of_getElem? hother)
              hheld
      | _ => exact hknows.elim

end Fence
