import Fence.Alloc.CreatorRuns
import Fence.Alloc.HeldTable

/-!
# Concurrent creations

When no step of any creator is contested, the regions that any number of interleaved `create_region`
calls have returned have different slots and do not overlap, and once all calls have returned the
catalog lists and counts them (`disjointCreations_of_run`). A slot is searched for with loads and
taken with a store, so two creators that search an empty pool at the same time return the same slot
and the same bytes (`creations_collide`).
-/

set_option autoImplicit false
set_option relaxedAutoImplicit false

namespace Fence

open ByteMemory Interleaving

variable {base poolSize : ℕ} {memory start : Memory} {config : Config AllocCall Memory}

/-! ### Regions that were returned -/

/-- The region a call has returned. -/
def AllocCall.created : AllocCall → Option RegionHandle
  | .createRegion _ _ (.returned (.ok region)) => some region
  | _ => none

/-- The regions that were returned are apart, and the catalog lists and counts them in the end. -/
structure DisjointCreations (base poolSize : ℕ) (config : Config AllocCall Memory) : Prop where
  apart : (config.threads.filterMap AllocCall.created).Pairwise fun first second ↦
    first.slot ≠ second.slot ∧ first.Apart second
  listed : (∀ call ∈ config.threads, call.answer.isSome = true) → ∃ regions,
    (allocatorMachine base poolSize).Ends (AllocRequest.listRegions.call poolSize) config.shared
      (.listRegions (.returned regions)) config.shared ∧
    ∀ region ∈ config.threads.filterMap AllocCall.created, region ∈ regions
  count : (∀ call ∈ config.threads, call.answer.isSome = true) →
    regionCount base config.shared = (config.threads.filterMap AllocCall.created).length

theorem AllocCall.held_of_created {call : AllocCall} {region : RegionHandle}
    (hcreated : call.created = some region) :
    call.held = some region ∧ call.heldState = .active := by
  cases call with
  | createRegion name size task =>
    cases task with
    | running point => cases hcreated
    | returned result =>
      cases result with
      | error error => cases hcreated
      | ok other => exact ⟨hcreated, rfl⟩
  | _ => cases hcreated

/-- A call that has returned has counted its region, if it returned one. -/
theorem AllocCall.counted_of_answer {call : AllocCall} (hreturned : call.answer.isSome = true) :
    call.counted = call.created.isSome := by
  cases call with
  | createRegion name size task =>
    cases task with
    | running point => cases hreturned
    | returned result => cases result <;> rfl
  | _ => rfl

/-- What was returned is in the catalog. -/
theorem Creating.disjointCreations (hcreating : Creating base config) :
    DisjointCreations base poolSize config where
  apart := by
    refine List.pairwise_filterMap.mpr (List.pairwise_iff_getElem.mpr ?_)
    intro i j hi hj hlt region hregion other hother
    exact hcreating.apart (Nat.ne_of_lt hlt) (List.getElem?_eq_getElem hi)
      (List.getElem?_eq_getElem hj) (AllocCall.held_of_created hregion).1
      (AllocCall.held_of_created hother).1
  listed := by
    intro _
    refine ⟨_, listRegions_ends base poolSize config.shared, fun region hregion ↦ ?_⟩
    obtain ⟨call, hcall, hcreated⟩ := List.mem_filterMap.mp hregion
    obtain ⟨hheld, hactive⟩ := AllocCall.held_of_created hcreated
    have hregion := hcreating.holds call hcall region hheld
    have hhandle := (hregion.marked (by rw [hactive]; decide)).2
    exact mem_activeRegions_of_regionAt hregion.chosen.slot_lt
      (regionAt_eq_some_iff.mpr ⟨hregion.state_eq.trans hactive, hhandle⟩)
  count := by
    intro hreturned
    rw [hcreating.count, List.length_filterMap_eq_countP]
    refine List.countP_congr fun call hcall ↦ ?_
    rw [AllocCall.counted_of_answer (hreturned call hcall)]

/-- No creator is at work on an empty catalog. -/
theorem EmptyCatalog.creating (hempty : EmptyCatalog base start) : Creating base ⟨start, []⟩ where
  knows := fun call hmem ↦ by cases hmem
  holds := fun call hmem ↦ by cases hmem
  taken := fun slot hslot ↦ Or.inl (hempty.state_eq hslot)
  apart := fun _ hfirst ↦ by simp at hfirst
  count := hempty.regionCount_eq

/-! ### A creator alone -/

/-- What a creator that nobody interrupts has loaded is still so. -/
def CreatePoint.Lone (base : ℕ) (start memory : Memory) : CreatePoint → Prop
  | .findRegion _ => memory = start
  | .findFreeSlot loop => memory = start ∧ ∀ state, loop.point.state? = some state →
      state = (CatalogEntry.ofMemory start base loop.index).state
  | .loadDataStart slot => memory = start ∧ IsFree base start slot
  | .nextFreeOffset slot _ => memory = start ∧ IsFree base start slot
  | .writeEntry slot _ .writeNameLen => memory = start ∧ IsFree base start slot
  | .storeCount _ _ count => count = regionCount base memory
  | _ => True

section Lone

variable {name : String} {size : ℕ} {index : ℕ}

theorem lone_slotHead (base index : ℕ) (start : Memory) :
    ((RegionAllocator.findFreeSlot.head index ()).fold
      (fun loop ↦ .running (.findFreeSlot loop)) CreatePoint.afterSlot).Holds
        (CreatePoint.Lone base start start) := by
  unfold EntryVisitor.head
  split_ifs
  · exact ⟨rfl, fun _ hstate ↦ nomatch hstate⟩
  · trivial

theorem lone_afterOffset {slot : ℕ} (hfree : IsFree base start slot) (regionOffset : ℕ) :
    (CreatePoint.afterOffset base poolSize size slot regionOffset).Holds
      (CreatePoint.Lone base start start) := by
  unfold CreatePoint.afterOffset
  split_ifs
  · trivial
  · exact ⟨rfl, hfree⟩

/-- The loop of `next_free_offset` goes on, or ends. -/
theorem lone_offset {slot : ℕ} (hfree : IsFree base start slot) (task : Task (EntryLoop ℕ) ℕ) :
    (task.fold (fun loop ↦ .running (.nextFreeOffset slot loop))
      (CreatePoint.afterOffset base poolSize size slot)).Holds
        (CreatePoint.Lone base start start) := by
  cases task with
  | running loop => exact ⟨rfl, hfree⟩
  | returned regionOffset => exact lone_afterOffset hfree regionOffset

/-- One step of a creator that nobody interrupts. -/
theorem CreatePoint.Lone.step {point : CreatePoint} (hlone : point.Lone base start memory) :
    ((RegionAllocator.createRegion base poolSize name size point).exec memory).1.Holds
      (CreatePoint.Lone base start
        ((RegionAllocator.createRegion base poolSize name size point).exec memory).2) := by
  cases point with
  | findRegion loop =>
    obtain rfl : memory = start := hlone
    simp only [RegionAllocator.createRegion, EntryVisitor.exec_next_map]
    cases (((RegionAllocator.findRegion name).next base loop).exec memory).1 with
    | running next => exact rfl
    | returned found =>
      cases found with
      | ok region => trivial
      | error error => exact lone_slotHead base 0 memory
  | findFreeSlot loop =>
    obtain ⟨rfl, hstate⟩ := hlone
    have hread := ReadEntryPoint.state_step hstate
    simp only [RegionAllocator.createRegion, EntryVisitor.exec_next_map]
    rw [EntryVisitor.next, BackendCall.exec_map]
    cases hnext : ((Catalog.readEntry base loop.index loop.point).exec memory).1 with
    | running next =>
      rw [hnext] at hread
      exact ⟨rfl, hread⟩
    | returned entry =>
      rw [hnext] at hread
      show ((RegionAllocator.findFreeSlot.body loop.index loop.gathered entry).fold
        (fun loop ↦ .running (.findFreeSlot loop)) CreatePoint.afterSlot).Holds _
      by_cases hfree : entry.state = .free
      · simp only [EntryVisitor.body, RegionAllocator.findFreeSlot, if_pos hfree]
        exact ⟨rfl, hread.symm.trans hfree⟩
      · simp only [EntryVisitor.body, RegionAllocator.findFreeSlot, if_neg hfree]
        exact lone_slotHead base (loop.index + 1) memory
  | loadDataStart slot =>
    obtain ⟨rfl, hfree⟩ := hlone
    simp only [RegionAllocator.createRegion, BackendCall.exec]
    exact lone_offset hfree _
  | nextFreeOffset slot loop =>
    obtain ⟨rfl, hfree⟩ := hlone
    simp only [RegionAllocator.createRegion, EntryVisitor.exec_next_map]
    exact lone_offset hfree _
  | writeEntry slot regionOffset point =>
    simp only [RegionAllocator.createRegion, BackendCall.exec_map]
    cases point with
    | writeNameLen =>
      simp only [Catalog.writeEntry, BackendCall.exec]
      split_ifs <;> trivial
    | _ => trivial
  | loadCount slot regionOffset => exact rfl
  | _ => trivial

/-- The steps of a creator are uncontested as long as all others stand still and none of them is at
work on an entry. -/
theorem Creating.along_alone (hcreating : Creating base config) {size : UInt64}
    {task : Task CreatePoint (Except AllocError RegionHandle)}
    (hcall : config.threads[index]? = some (.createRegion name size task))
    (hlone : task.Holds (CreatePoint.Lone base config.shared config.shared))
    (hidle : ∀ call ∈ config.threads, ∀ slot, ¬ call.Writes slot)
    (hsums : catalogEnd base config.shared + 63 < 2 ^ 64 ∧
      nextOffset base config.shared + size.toNat < 2 ^ 64) (count : ℕ) :
    (allocatorMachine base poolSize).Along
      (fun config action ↦ NoSumWraps base config action ∧ Uncontested base config action)
      (List.replicate count (.step index)) config := by
  obtain ⟨hindex, hget⟩ := List.getElem?_eq_some_iff.mp hcall
  refine along_of_invariant (fun later ↦ Creating base later ∧ ∃ task,
      later.threads = config.threads.set index (.createRegion name size task) ∧
        task.Holds (CreatePoint.Lone base config.shared later.shared)) ?_
    (along_of_forall_mem (· = .step index) (fun _ hmem ↦ List.eq_of_mem_replicate hmem) _) ?_
  · rintro ⟨memory, threads⟩ action ⟨hcreating, task, rfl, hlone⟩ rfl
    have hself : (config.threads.set index (.createRegion name size task))[index]? =
        some (.createRegion name size task) := List.getElem?_set_self hindex
    have hpoint : ∀ point, task = .running point → point.Exact base memory size.toNat ∧
        point.Current base memory ∧
        point.Alone (config.threads.set index (.createRegion name size task)) := by
      rintro point rfl
      cases point with
      | writeEntry slot regionOffset point =>
        cases point with
        | writeNameLen =>
          obtain ⟨rfl, hfree⟩ := hlone
          obtain ⟨-, -, hoffset⟩ := hcreating.knows _ (List.mem_of_getElem? hself)
          refine ⟨?_, hfree, fun call hmem hwrites ↦ ?_⟩
          · rw [CreatePoint.Exact, hoffset hfree]
            exact hsums
          · rcases List.mem_or_eq_of_mem_set hmem with hother | rfl
            · exact hidle call hother slot hwrites
            · obtain ⟨region, hheld, -⟩ := hwrites
              cases hheld
        | _ => exact ⟨trivial, trivial, trivial⟩
      | storeCount slot regionOffset count => exact ⟨trivial, hlone, trivial⟩
      | _ => exact ⟨trivial, trivial, trivial⟩
    have hguarantee : NoSumWraps base
          ⟨memory, config.threads.set index (.createRegion name size task)⟩ (.step index) ∧
        Uncontested base ⟨memory, config.threads.set index (.createRegion name size task)⟩
          (.step index) := by
      simp only [NoSumWraps, Uncontested, CreatorSteps, hself]
      cases task with
      | returned result => exact ⟨trivial, trivial⟩
      | running point => exact hpoint point rfl
    refine ⟨hguarantee, hcreating.apply trivial hguarantee.1 hguarantee.2, ?_⟩
    rw [apply_step_of_getElem? _ hself]
    simp only [List.set_set]
    cases task with
    | returned result => exact ⟨.returned result, rfl, trivial⟩
    | running point =>
      have hrunning : (allocatorMachine base poolSize).step
          (.createRegion name size (.running point)) memory = _ :=
        (AllocCall.runs_createRegion name size).step_running point memory
      rw [hrunning]
      exact ⟨_, rfl, CreatePoint.Lone.step hlone⟩
  · exact ⟨hcreating, task, by rw [← hget, List.set_getElem_self], hlone⟩

/-- A creator that has just been started holds no slot. -/
theorem AllocCall.not_writes_of_start (name : String) (size : UInt64) (slot : ℕ) :
    ¬ (AllocCall.createRegion name size (startCreate name)).Writes slot := by
  rintro ⟨region, hheld, -⟩
  rw [(@Searching.start 0 name size fun _ ↦ 0).held] at hheld
  cases hheld

/-- A creator that has returned its region has written its entry. -/
theorem AllocCall.not_writes_of_created {call : AllocCall} {region : RegionHandle}
    (hcreated : call.created = some region) (slot : ℕ) : ¬ call.Writes slot := by
  rintro ⟨held, -, -, hstate⟩
  rw [(AllocCall.held_of_created hcreated).2] at hstate
  cases hstate

/-- A creator that has just been started is alone. -/
theorem lone_startCreate (base : ℕ) (start : Memory) (name : String) :
    (startCreate name).Holds (CreatePoint.Lone base start start) := by
  unfold startCreate
  split_ifs
  · trivial
  · exact rfl

end Lone

/-! ### The theorem -/

/-- A run whose steps are uncontested keeps the invariant. -/
theorem Creating.run (hcreating : Creating base config)
    {schedule : List (Action AllocRequest Empty)}
    (hcreates : ∀ action ∈ schedule, CreatesOnly action)
    (halong : (allocatorMachine base poolSize).Along
      (fun config action ↦ NoSumWraps base config action ∧ Uncontested base config action) schedule
      config) : Creating base ((allocatorMachine base poolSize).run schedule config) :=
  invariant_run (Creating base)
    (fun _ _ hcreating hcondition ↦
      hcreating.apply hcondition.1 hcondition.2.1 hcondition.2.2)
    (along_and.mpr ⟨along_of_forall_mem CreatesOnly hcreates _, halong⟩) hcreating

/-- Creators whose steps are uncontested return regions that are apart. -/
theorem disjointCreations_of_run {call : AllocCall}
    (hinit : (allocatorMachine base poolSize).Ends (AllocRequest.init.call poolSize) memory call
      start) (haccepted : call.answer = some (.ready (.ok ())))
    {schedule : List (Action AllocRequest Empty)}
    (hcreates : ∀ action ∈ schedule, CreatesOnly action)
    (hexact : (allocatorMachine base poolSize).Along (NoSumWraps base) schedule ⟨start, []⟩)
    (huncontested : (allocatorMachine base poolSize).Along (Uncontested base) schedule
      ⟨start, []⟩) :
    DisjointCreations base poolSize
      ((allocatorMachine base poolSize).run schedule ⟨start, []⟩) := by
  obtain ⟨-, hempty⟩ := emptyCatalog_of_init hinit haccepted
  exact (hempty.creating.run hcreates (along_and.mpr ⟨hexact, huncontested⟩)).disjointCreations

theorem AllocCall.created_of_answer {call : AllocCall} {region : RegionHandle}
    (hanswer : call.answer = some (.created (.ok region))) : call.created = some region := by
  cases call with
  | createRegion name size task =>
    cases task with
    | running point => cases hanswer
    | returned result =>
      cases hanswer
      rfl
  | init task | openPool task | freeRegion name task | findRegion name task | listRegions task
  | recover task => cases task <;> cases hanswer

/-- A creator that has just been started takes all its steps while the others stand still. -/
theorem Creating.finish (hcreating : Creating base config) {index count : ℕ} {name : String}
    {size : UInt64} {result : AllocCall} {later : Memory}
    (hcall : config.threads[index]? = some (.createRegion name size (startCreate name)))
    (hidle : ∀ call ∈ config.threads, ∀ slot, ¬ call.Writes slot)
    (hsums : catalogEnd base config.shared + 63 < 2 ^ 64 ∧
      nextOffset base config.shared + size.toNat < 2 ^ 64)
    (hsolo : (allocatorMachine base poolSize).solo count
      (.createRegion name size (startCreate name)) config.shared = (result, later)) :
    (allocatorMachine base poolSize).Along
        (fun config action ↦ NoSumWraps base config action ∧ Uncontested base config action)
        (List.replicate count (.step index)) config ∧
      (allocatorMachine base poolSize).run (List.replicate count (.step index)) config =
        ⟨later, config.threads.set index result⟩ ∧
      Creating base ⟨later, config.threads.set index result⟩ := by
  have halong := @Creating.along_alone base poolSize config name index hcreating size _ hcall
    (lone_startCreate base config.shared name) hidle hsums count
  have hrun := run_replicate_of_solo hcall hsolo
  refine ⟨halong, hrun, hrun ▸ hcreating.run (fun action hmem ↦ ?_) halong⟩
  rw [List.eq_of_mem_replicate hmem]
  exact trivial

/-- Two creators are in flight. The first takes all its steps, then the second takes all of its
own, and both return a region. -/
theorem disjointCreations_of_run_two : ∃ start schedule,
    (allocatorMachine 0 (catalogSize + 128)).Ends (AllocRequest.init.call (catalogSize + 128))
      (fun _ ↦ 0) (.init (.returned (.ok ()))) start ∧
    ((allocatorMachine 0 (catalogSize + 128)).run schedule ⟨start, []⟩).threads.filterMap
      AllocCall.created = [⟨0, "a", catalogSize, 64⟩, ⟨1, "b", catalogSize + 64, 64⟩] ∧
    DisjointCreations 0 (catalogSize + 128)
      ((allocatorMachine 0 (catalogSize + 128)).run schedule ⟨start, []⟩) := by
  obtain ⟨start, hinit, hempty⟩ :=
    @init_ends (catalogSize + 128) 0 (fun _ ↦ 0) (Nat.le_add_right _ _)
  have hsize : catalogSize ≤ catalogSize + 128 := Nat.le_add_right _ _
  have hcat : Catalogued 0 (catalogSize + 128) (.empty _ _) start :=
    hempty.catalogued (by decide) hsize
  obtain ⟨one, two, hserves, hservesNext, -⟩ :=
    @RegionTable.exists_serves_second (0 + (catalogSize + 128)) (by decide)
  obtain ⟨first, middle, ⟨firstCount, hfirst⟩, hfirstAnswer, hmiddle⟩ :=
    hcat.ends_of_serves (by decide) hsize AllocRequest.noConfusion (by decide) hserves
  obtain ⟨second, later, ⟨secondCount, hsecond⟩, hsecondAnswer, -⟩ :=
    hmiddle.ends_of_serves (by decide) hsize AllocRequest.noConfusion (by decide) hservesNext
  have hfirstCreated := AllocCall.created_of_answer hfirstAnswer
  have hsecondCreated := AllocCall.created_of_answer hsecondAnswer
  -- both have been started, and only the first one goes on
  have hboth : Creating 0 ⟨start, [.createRegion "a" 64 (startCreate "a"),
      .createRegion "b" 64 (startCreate "b")]⟩ := (hempty.creating.start "a" 64).start "b" 64
  obtain ⟨halongFirst, hrunFirst, hone⟩ := @Creating.finish 0 _ _ hboth 0 _ _ _ _ _ rfl
    (List.forall_mem_cons.mpr ⟨AllocCall.not_writes_of_start "a" 64,
      List.forall_mem_singleton.mpr (AllocCall.not_writes_of_start "b" 64)⟩)
    (hcat.sums_lt hsize (by decide)) hfirst
  -- the second one goes on once the first has returned
  obtain ⟨halongSecond, hrunSecond, -⟩ := @Creating.finish 0 _ _ hone 1 _ _ _ _ _ rfl
    (List.forall_mem_cons.mpr ⟨AllocCall.not_writes_of_created hfirstCreated,
      List.forall_mem_singleton.mpr (AllocCall.not_writes_of_start "b" 64)⟩)
    (hmiddle.sums_lt hsize (by decide)) hsecond
  have hstarted : (allocatorMachine 0 (catalogSize + 128)).run
      [.start (.createRegion "a" 64), .start (.createRegion "b" 64)] ⟨start, []⟩ =
      ⟨start, [.createRegion "a" 64 (startCreate "a"),
        .createRegion "b" 64 (startCreate "b")]⟩ := rfl
  have halong : (allocatorMachine 0 (catalogSize + 128)).Along
      (fun config action ↦ NoSumWraps 0 config action ∧ Uncontested 0 config action)
      ([.start (.createRegion "a" 64), .start (.createRegion "b" 64)] ++
        (List.replicate firstCount (.step 0) ++ List.replicate secondCount (.step 1)))
      ⟨start, []⟩ :=
    along_append.mpr ⟨⟨⟨trivial, trivial⟩, ⟨trivial, trivial⟩, trivial⟩,
      along_append.mpr ⟨halongFirst, by rwa [hstarted, hrunFirst]⟩⟩
  have hall := along_and.mp halong
  refine ⟨start, _, hinit, ?_, disjointCreations_of_run hinit rfl ?_ hall.1 hall.2⟩
  · rw [run_append, run_append, hstarted, hrunFirst, hrunSecond]
    show [first, second].filterMap AllocCall.created = _
    rw [List.filterMap_cons_some hfirstCreated, List.filterMap_cons_some hsecondCreated]
    rfl
  · intro action hmem
    simp only [List.mem_append, List.mem_cons, List.mem_replicate, List.not_mem_nil,
      or_false] at hmem
    rcases hmem with (rfl | rfl) | ⟨-, rfl⟩ | ⟨-, rfl⟩ <;> exact trivial

/-! ### Two creators on one slot -/

/-- Two creators search an empty pool before either of them stores: both return the same slot and
the same bytes. -/
theorem creations_collide : ∃ start schedule slot offset,
    (allocatorMachine 0 (catalogSize + 64)).Ends (AllocRequest.init.call (catalogSize + 64))
      (fun _ ↦ 0) (.init (.returned (.ok ()))) start ∧
    (∀ action ∈ schedule, action = .start (.createRegion "a" 64) ∨
      action = .start (.createRegion "b" 64) ∨ ∃ index, action = .step index) ∧
    ((allocatorMachine 0 (catalogSize + 64)).run schedule ⟨start, []⟩).threads =
      [.createRegion "a" 64 (.returned (.ok ⟨slot, "a", offset, 64⟩)),
        .createRegion "b" 64 (.returned (.ok ⟨slot, "b", offset, 64⟩))] ∧
    ¬ DisjointCreations 0 (catalogSize + 64)
      ((allocatorMachine 0 (catalogSize + 64)).run schedule ⟨start, []⟩) := by
  obtain ⟨start, hinit, hempty⟩ := init_ends_one
  obtain ⟨slot, hsearch⟩ := hempty.search_ends hempty.room_one
  obtain ⟨firstCount, hfirst⟩ := hsearch "a" (by decide)
  obtain ⟨secondCount, hsecond⟩ := hsearch "b" (by decide)
  obtain ⟨firstRest, hfirstWrites⟩ :=
    @createRegion_write_ends 0 (catalogSize + 64) start "a" 64 slot (nextOffset 0 start)
  obtain ⟨secondRest, hsecondWrites⟩ := @createRegion_write_ends 0 (catalogSize + 64)
    (createdMemory 0 slot (newEntry "a" 64 (nextOffset 0 start)) start) "b" 64 slot
    (nextOffset 0 start)
  have hthreads : ((allocatorMachine 0 (catalogSize + 64)).run
      (alone (.createRegion "a" 64) 0 firstCount ++ alone (.createRegion "b" 64) 1 secondCount ++
        List.replicate firstRest (.step 0) ++ List.replicate secondRest (.step 1))
        ⟨start, []⟩).threads =
      [.createRegion "a" 64 (.returned (.ok ⟨slot, "a", nextOffset 0 start, 64⟩)),
        .createRegion "b" 64 (.returned (.ok ⟨slot, "b", nextOffset 0 start, 64⟩))] := by
    rw [run_append, run_append, run_append]
    have hone : (allocatorMachine 0 (catalogSize + 64)).run
        (alone (.createRegion "a" 64) 0 firstCount) ⟨start, []⟩ = _ := run_alone_of_solo hfirst
    have htwo : ∀ first, (allocatorMachine 0 (catalogSize + 64)).run
        (alone (.createRegion "b" 64) 1 secondCount) ⟨start, [first]⟩ = _ :=
      fun _ ↦ run_alone_of_solo hsecond
    have hthree : ∀ second, (allocatorMachine 0 (catalogSize + 64)).run
        (List.replicate firstRest (.step 0)) ⟨start, [.createRegion "a" 64
          (.running (.writeEntry slot (nextOffset 0 start) .writeNameLen)), second]⟩ = _ :=
      fun _ ↦ run_replicate_of_solo rfl hfirstWrites
    have hfour : ∀ first, (allocatorMachine 0 (catalogSize + 64)).run
        (List.replicate secondRest (.step 1))
        ⟨createdMemory 0 slot (newEntry "a" 64 (nextOffset 0 start)) start,
          [first, .createRegion "b" 64
            (.running (.writeEntry slot (nextOffset 0 start) .writeNameLen))]⟩ = _ :=
      fun _ ↦ run_replicate_of_solo rfl hsecondWrites
    rw [hone, List.nil_append, htwo, List.singleton_append, hthree]
    exact congrArg Config.threads (hfour _)
  refine ⟨start, _, slot, nextOffset 0 start, hinit, ?_, hthreads, fun hdisjoint ↦ ?_⟩
  · intro action hmem
    simp only [List.mem_append, List.mem_replicate] at hmem
    rcases hmem with ((hmem | hmem) | ⟨-, rfl⟩) | ⟨-, rfl⟩
    · exact (eq_of_mem_alone hmem).imp_right Or.inr
    · exact Or.inr (eq_of_mem_alone hmem)
    · exact Or.inr (Or.inr ⟨0, rfl⟩)
    · exact Or.inr (Or.inr ⟨1, rfl⟩)
  · have hapart := hdisjoint.apart
    rw [hthreads] at hapart
    exact ((List.pairwise_cons.mp hapart).1 _ List.mem_cons_self).1 rfl

end Fence
