import Fence.Alloc.CountTallies

/-!
# The region count after a recovery

Creating and freeing calls run one after another on an initialised pool. The process may stop
between any two backend calls, and starts again with `open` and `recover`, which may be stopped as
well (`AllocatorRun`). `recover` frees the entries in transition and leaves the count as it is: a
stop between the store that makes a region active or gives it up and the store of the count leaves
the count wrong for good. `countRestored_iff` says that the count is right after every recovery of a
run exactly when no stop is of that kind.
-/

set_option autoImplicit false
set_option relaxedAutoImplicit false

namespace Fence

open ByteMemory Interleaving

/-- The pool is opened and recovered. Attempts may be stopped, and are made again. -/
inductive Restarts (base poolSize : ℕ) : Memory → Memory → Prop
  | recovered {memory later : Memory} {fixed : ℕ}
    (hsession : (allocatorMachine base poolSize).Session AllocCall.answer
      [.openPool, .recover] memory
      [.ready (.ok ()), .recovered fixed] later) : Restarts base poolSize memory later
  | stoppedOpen {memory between later : Memory} {call : AllocCall}
    (hreaches : (allocatorMachine base poolSize).Reaches
      (AllocRequest.openPool.call poolSize) memory
      call between) (hrestarts : Restarts base poolSize between later) :
    Restarts base poolSize memory later
  | stoppedRecover {memory opened between later : Memory} {call : AllocCall}
    (hopen : (allocatorMachine base poolSize).Ends (AllocRequest.openPool.call poolSize) memory
      (.openPool (.returned (.ok ()))) opened)
    (hreaches : (allocatorMachine base poolSize).Reaches (AllocRequest.recover.call poolSize) opened
      call between) (hrestarts : Restarts base poolSize between later) :
    Restarts base poolSize memory later

/-- Calls one after another, each as it was left, with the memories after the completed recoveries.
A call returns, or the process stops inside it and restarts. -/
inductive AllocatorRun (base poolSize : ℕ) : List AllocCall → List Memory → Memory → Memory → Prop
  | start (memory : Memory) : AllocatorRun base poolSize [] [] memory memory
  | returned {calls : List AllocCall} {recovered : List Memory} {start middle later : Memory}
    {request : AllocRequest} {call : AllocCall} {given : AllocAnswer}
    (hrun : AllocatorRun base poolSize calls recovered start middle) (hrequest : request ≠ .init)
    (hreaches : (allocatorMachine base poolSize).Reaches (request.call poolSize) middle call later)
    (hgiven : call.answer = some given) :
    AllocatorRun base poolSize (calls ++ [call])
      (recovered ++ if request = .recover then [later] else []) start later
  | stopped {calls : List AllocCall} {recovered : List Memory} {start middle between later : Memory}
    {request : AllocRequest} {call : AllocCall}
    (hrun : AllocatorRun base poolSize calls recovered start middle) (hrequest : request ≠ .init)
    (hreaches : (allocatorMachine base poolSize).Reaches
      (request.call poolSize) middle call between)
    (hrestarts : Restarts base poolSize between later) :
    AllocatorRun base poolSize (calls ++ [call]) (recovered ++ [later]) start later

/-- The count in the header is the number of active entries. -/
def CountsRegions (base : ℕ) (memory : Memory) : Prop :=
  regionCount base memory = (activeRegions base memory).length

variable {base poolSize uncounted outdated : ℕ} {memory start later : Memory} {call : AllocCall}

/-! ### Restarting -/

/-- A restart corrects nothing. -/
theorem Tallies.of_restarts (htallies : Tallies base uncounted outdated memory)
    (hrestarts : Restarts base poolSize memory later) : Tallies base uncounted outdated later := by
  have hopened : ∀ {memory opened : Memory} {call : AllocCall},
      (allocatorMachine base poolSize).Reaches (AllocRequest.openPool.call poolSize) memory call
        opened → opened = memory := by
    intro memory opened call hreaches
    obtain ⟨-, -, hsame⟩ := AllocCall.runs_openPool.eq_of_loads hreaches
      (openPool_ends base poolSize memory) rfl fun _ ↦ rfl
    exact hsame
  induction hrestarts with
  | recovered hsession =>
    cases hsession with
    | cons hopen _ hrest =>
      cases hrest with
      | cons hrecover _ hnil =>
        cases hnil
        obtain rfl := hopened hopen.reaches
        exact (htallies.of_recover hrecover.reaches).choose_spec.2
  | stoppedOpen hreaches _ ih =>
    obtain rfl := hopened hreaches
    exact ih htallies
  | stoppedRecover hopen hreaches _ ih =>
    obtain rfl := hopened hopen.reaches
    exact ih (htallies.of_recover hreaches).choose_spec.2

/-- A pool with a magic number can be restarted. -/
theorem exists_restarts (hmagic : loadWord memory (base + catHdrMagic) 8 = allocMagic) :
    ∃ later, Restarts base poolSize memory later := by
  have hopen := openPool_ends base poolSize memory
  rw [hmagic, openResult_allocMagic] at hopen
  obtain ⟨fixed, later, hrecover, -⟩ := recoverCatalog_head_ends base poolSize 0 0 memory
  exact ⟨later, .recovered (.cons hopen rfl (.cons hrecover rfl (.nil _)))⟩

/-! ### Runs -/

theorem tallies_iff : Tallies base 0 0 memory ↔ CountsRegions base memory := eq_comm

/-- A call that has returned owes nothing. -/
theorem AllocCall.not_owesCount_of_answer {given : AllocAnswer}
    (hgiven : call.answer = some given) :
    ¬ call.OwesCount := by
  cases call with
  | createRegion name size task =>
    cases task with
    | running point => cases hgiven
    | returned done => exact fun howes ↦ howes.elim (Nat.lt_irrefl 0) (Nat.lt_irrefl 0)
  | freeRegion name task =>
    cases task with
    | running point => cases hgiven
    | returned done => exact fun howes ↦ howes.elim (Nat.lt_irrefl 0) (Nat.lt_irrefl 0)
  | _ => exact fun howes ↦ howes.elim (Nat.lt_irrefl 0) (Nat.lt_irrefl 0)

/-- A run from a right count: it is right after every recovery exactly when no call was left with
the count owed, and then it is right in the end. -/
theorem AllocatorRun.counts_iff {calls : List AllocCall} {recovered : List Memory}
    (hrun : AllocatorRun base poolSize calls recovered start later)
    (hstart : CountsRegions base start) :
    ((∀ memory ∈ recovered, CountsRegions base memory) ↔ ∀ call ∈ calls, ¬ call.OwesCount) ∧
      ((∀ call ∈ calls, ¬ call.OwesCount) → CountsRegions base later) := by
  induction hrun with
  | start memory => exact ⟨iff_of_true (by simp) (by simp), fun _ ↦ hstart⟩
  | @returned calls recovered start middle later request call given hrun hrequest hreaches
      hgiven ih =>
    obtain ⟨hiff, hmiddle⟩ := ih hstart
    have hnone := AllocCall.not_owesCount_of_answer hgiven
    have hcounts : (∀ call ∈ calls, ¬ call.OwesCount) → CountsRegions base later := fun hcalls ↦
      (AllocCall.count_eq_iff (AllocCall.tallies_of_reaches hrequest
        (tallies_iff.mpr (hmiddle hcalls)) hreaches)).mpr hnone
    simp only [List.forall_mem_append, List.forall_mem_singleton]
    refine ⟨⟨fun hall ↦ ⟨hiff.mp hall.1, hnone⟩, fun hcalls ↦ ⟨hiff.mpr hcalls.1, ?_⟩⟩,
      fun hcalls ↦ hcounts hcalls.1⟩
    split_ifs
    · simpa using hcounts hcalls.1
    · simp
  | @stopped calls recovered start middle between later request call hrun hrequest
      hreaches hrestarts
      ih =>
    obtain ⟨hiff, hmiddle⟩ := ih hstart
    have hcounts : (∀ call ∈ calls, ¬ call.OwesCount) →
        (CountsRegions base later ↔ ¬ call.OwesCount) := fun hcalls ↦
      AllocCall.count_eq_iff ((AllocCall.tallies_of_reaches hrequest
        (tallies_iff.mpr (hmiddle hcalls)) hreaches).of_restarts hrestarts)
    simp only [List.forall_mem_append, List.forall_mem_singleton]
    refine ⟨⟨fun hall ↦ ?_, fun hcalls ↦ ?_⟩, fun hcalls ↦ (hcounts hcalls.1).mpr hcalls.2⟩
    · exact ⟨hiff.mp hall.1, (hcounts (hiff.mp hall.1)).mp hall.2⟩
    · exact ⟨hiff.mpr hcalls.1, (hcounts hcalls.1).mpr hcalls.2⟩

/-- The count of an empty catalog is right. -/
theorem EmptyCatalog.countsRegions (hempty : EmptyCatalog base memory) :
    CountsRegions base memory := by
  rw [CountsRegions, hempty.regionCount_eq, hempty.activeRegions_eq]
  rfl

/-- In every run on an initialised pool, the count is right after every recovery exactly when no
call was stopped between changing which regions are active and storing the count. -/
theorem countRestored_iff
    (hinit : (allocatorMachine base poolSize).Ends (AllocRequest.init.call poolSize) memory call
      start) (haccepted : call.answer = some (.ready (.ok ()))) {calls : List AllocCall}
    {recovered : List Memory} (hrun : AllocatorRun base poolSize calls recovered start later) :
    (∀ memory ∈ recovered, CountsRegions base memory) ↔ ∀ call ∈ calls, ¬ call.OwesCount :=
  (hrun.counts_iff (emptyCatalog_of_init hinit haccepted).2.countsRegions).1

/-- A region is created, and a call that was to free it is stopped before it begins. -/
theorem countRestored_iff_one : ∃ start calls later,
    AllocatorRun 0 (catalogSize + 64) calls [later] start later ∧ CountsRegions 0 later := by
  obtain ⟨start, hinit, hempty⟩ := init_ends_one
  have hcat : Catalogued 0 (catalogSize + 64) (.empty _ _) start :=
    hempty.catalogued (by decide) (Nat.le_add_right _ _)
  have hcreate : AllocRequest.createRegion "a" 64 ≠ .init := AllocRequest.noConfusion
  have hfree : AllocRequest.freeRegion "a" ≠ .init := AllocRequest.noConfusion
  obtain ⟨call, given, created, hends, hgiven, next, -, hnext⟩ := hcat.serve (by decide) hcreate
    (hcat.exact_of_clear (Nat.le_add_right _ _) (by decide))
  obtain ⟨later, hrestarts⟩ := @exists_restarts 0 (catalogSize + 64) created hnext.magic
  have hrun : AllocatorRun 0 (catalogSize + 64)
      ([] ++ [call] ++ [(AllocRequest.freeRegion "a").call (catalogSize + 64)])
      ([] ++ [] ++ [later]) start later :=
    .stopped (.returned (.start start) hcreate hends.reaches hgiven) hfree (.refl _ _) hrestarts
  have howes : ∀ call' ∈ [] ++ [call] ++ [(AllocRequest.freeRegion "a").call (catalogSize + 64)],
      ¬ call'.OwesCount := by
    simp only [List.nil_append, List.forall_mem_append, List.forall_mem_singleton]
    exact ⟨AllocCall.not_owesCount_of_answer hgiven, by decide⟩
  exact ⟨start, _, later, hrun,
    (countRestored_iff hinit rfl hrun).mpr howes later (List.mem_singleton_self later)⟩

/-- A `create_region` is stopped right after it has made its region active. -/
theorem not_countRestored_of_stopped : ∃ start slot regionOffset recovered,
    (allocatorMachine 0 (catalogSize + 64)).Ends (AllocRequest.init.call (catalogSize + 64))
      (fun _ ↦ 0) (.init (.returned (.ok ()))) start ∧
    AllocatorRun 0 (catalogSize + 64)
      [.createRegion "a" 64 (.running (.flushActive slot regionOffset))]
      [recovered] start recovered ∧
    ¬ CountsRegions 0 recovered := by
  obtain ⟨start, hinit, hempty⟩ := init_ends_one
  have hrequest : AllocRequest.createRegion "a" 64 ≠ .init := AllocRequest.noConfusion
  obtain ⟨slot, hsearch⟩ := hempty.search_ends hempty.room_one
  have hactive : (allocatorMachine 0 (catalogSize + 64)).Ends
      ((AllocRequest.createRegion "a" 64).call (catalogSize + 64)) start
      (.createRegion "a" 64 (.running (.flushActive slot (nextOffset 0 start))))
      (activatedMemory 0 slot (newEntry "a" 64 (nextOffset 0 start)) start) :=
    ((hsearch "a" (by decide)).trans (createRegion_entry_ends slot _)).trans
      ((AllocCall.runs_createRegion _ _).ends_step (.refl _ _))
  have hmagic : loadWord (activatedMemory 0 slot (newEntry "a" 64 (nextOffset 0 start)) start)
      (0 + catHdrMagic) 8 = allocMagic :=
    (loadWord_activatedMemory (by decide : catHdrMagic + 8 ≤ catalogHeaderSize)).trans hempty.magic
  obtain ⟨recovered, hrestarts⟩ := @exists_restarts 0 (catalogSize + 64) _ hmagic
  refine ⟨start, slot, nextOffset 0 start, recovered, hinit,
    .stopped (.start start) hrequest hactive.reaches hrestarts, fun hcounts ↦ ?_⟩
  have htallies := AllocCall.tallies_of_reaches hrequest (tallies_iff.mpr hempty.countsRegions)
    hactive.reaches
  exact (AllocCall.count_eq_iff (htallies.of_restarts hrestarts)).mp hcounts
    (Or.inl Nat.zero_lt_one)

end Fence
