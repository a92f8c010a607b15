import Fence.Alloc.HeldTable
import Fence.Alloc.Interrupted
import Fence.Library.Outages

/-!
# The region table survives power failures

Calls of a client run one after another on an initialised pool with a volatile cache. Power failures
cut calls off at any backend call, any number of times, and lines are written back at any time. The
client keeps to `Allowed`: after a failure it recovers before it creates or frees. Then there is a
table that serves every call that was answered, with its answer, and every call that was cut off
either as a whole or not at all, and that the pool holds in the end, in the cache and on the media
(`regionTable_survives_power_failures`). A recovery frees only entries of calls that were cut off:
it reports none when one was answered since the last failure. The simulation carries `PoolHolds`
along the calls.
-/

set_option autoImplicit false
set_option relaxedAutoImplicit false

namespace Fence

open ByteMemory ByteMemory.CachedMemory Interleaving

variable {base poolSize : ℕ} {before shared : CachedMemory} {call : AllocCall}
  {table : RegionTable (base + catalogSize) (base + poolSize)}
  {outcomes : List (Outcome AllocRequest AllocAnswer)} {request : AllocRequest}

/-! ### Clients -/

/-- Whether a recovery is due: none was answered since the last failure. -/
def recoveryDue (outcomes : List (Outcome AllocRequest AllocAnswer)) : Bool :=
  outcomes.foldl (fun due outcome ↦
    match outcome with
    | .cutOff _ => true
    | .answered .recover _ => false
    | .answered _ _ => due) false

/-- What a client keeps to: `init` is over, it recovers before it creates or frees, and the sizes it
asks for keep clear of the end of the address space. -/
structure AllocRequest.Allowed (base poolSize : ℕ)
    (outcomes : List (Outcome AllocRequest AllocAnswer)) (request : AllocRequest) : Prop where
  ne_init : request ≠ .init
  recovered : request.Updates → recoveryDue outcomes = false
  clear : request.Clear base poolSize

theorem recoveryDue_cutOff : recoveryDue (outcomes ++ [.cutOff request]) = true := by
  rw [recoveryDue, List.foldl_append]
  rfl

/-- No recovery is due after one, nor when none was before. -/
theorem recoveryDue_answered {given : AllocAnswer}
    (hdone : recoveryDue (outcomes ++ [.answered request given]) = false) :
    request = .recover ∨ recoveryDue outcomes = false := by
  rw [recoveryDue, List.foldl_append] at hdone
  cases request with
  | recover => exact Or.inl rfl
  | _ => exact Or.inr hdone

/-- A recovery that was not due has found nothing to free. -/
def IdleRecoveries (outcomes : List (Outcome AllocRequest AllocAnswer)) : Prop :=
  ∀ before given, before ++ [.answered .recover given] <+: outcomes →
    recoveryDue before = false → given = .recovered 0

theorem IdleRecoveries.nil : IdleRecoveries [] := fun before given hprefix ↦ by
  have hlength := hprefix.length_le
  simp at hlength

/-- Only the last call is new. -/
theorem IdleRecoveries.concat {outcome : Outcome AllocRequest AllocAnswer}
    (hidle : IdleRecoveries outcomes)
    (hlast : ∀ given, outcome = .answered .recover given → recoveryDue outcomes = false →
      given = .recovered 0) : IdleRecoveries (outcomes ++ [outcome]) := by
  intro before given hprefix hdone
  rcases List.prefix_concat_iff.mp hprefix with hall | hbefore
  · obtain ⟨rfl, hsame⟩ := List.append_inj' hall rfl
    exact hlast given (List.head_eq_of_cons_eq hsame).symm hdone
  · exact hidle before given hbefore hdone

/-! ### The simulation -/

/-- A pool holds a table, in the cache and on the media, and has no entry in transition unless a
recovery is due. -/
structure PoolHolds (base poolSize : ℕ) (outcomes : List (Outcome AllocRequest AllocAnswer))
    (table : RegionTable (base + catalogSize) (base + poolSize)) (shared : CachedMemory) :
    Prop where
  holds : HoldsRegions base poolSize table shared.cached
  settled : SettledCatalog base shared
  start : StartAtRest base shared
  quiet : recoveryDue outcomes = false → QuietCatalog base shared.cached
  idle : IdleRecoveries outcomes

theorem PoolHolds.settles (hpool : PoolHolds base poolSize outcomes table shared)
    {after : CachedMemory} (hsettles : Settles shared after) :
    PoolHolds base poolSize outcomes table after where
  holds := by rw [hsettles.cached_eq]; exact hpool.holds
  settled := hpool.settled.settles hsettles
  start := hpool.start.settles hsettles
  quiet := by rw [hsettles.cached_eq]; exact hpool.quiet
  idle := hpool.idle

/-- A clean cache in front of a media is settled. -/
theorem settled_clean {media : Memory}
    (hmagic : loadWord media (base + catHdrMagic) 8 = allocMagic) :
    SettledCatalog base (clean media) where
  magic := ⟨fun _ _ ↦ rfl, hmagic⟩
  entry := fun _ _ ↦ ⟨rfl, fun _ _ _ ↦ rfl⟩

section PoolHolds

variable (hpool : PoolHolds base poolSize outcomes table before)
  (hallowed : request.Allowed base poolSize outcomes) (hsize : catalogSize ≤ poolSize)
  (hreaches : (cachedAllocator base poolSize).Reaches (request.call poolSize) before call shared)

include hpool hallowed hsize hreaches

/-- A call that is answered does what the table may do. -/
theorem PoolHolds.answered {given : AllocAnswer} (hgiven : call.answer = some given) :
    ∃ next, table.Serves request given next ∧
      PoolHolds base poolSize (outcomes ++ [.answered request given]) next shared := by
  obtain ⟨result, answered, later, next, hends, hanswered, hserves, hholds, hquiet, hnothing⟩ :=
    hpool.holds.serve (fun hupdates ↦ hpool.quiet (hallowed.recovered hupdates)) hsize
      hallowed.ne_init hallowed.clear
  have hrest := AllocCall.ends_of_reaches hreaches hanswered hends
  obtain ⟨rfl, rfl⟩ := hrest.unique (.refl _ _) (AllocCall.step_of_answer hanswered)
    (AllocCall.step_of_answer hgiven)
  obtain rfl : answered = given := Option.some.inj (hanswered.symm.trans hgiven)
  refine ⟨next, hserves, hholds, hpool.settled.of_reaches hallowed.ne_init hreaches hgiven,
    hpool.start.of_reaches hallowed.ne_init hreaches, fun hdone ↦ hquiet ?_,
    hpool.idle.concat fun other hsame hdone ↦ ?_⟩
  · exact (recoveryDue_answered hdone).imp_right hpool.quiet
  · cases hsame
    exact hnothing (hpool.quiet hdone) rfl

/-- A call that is cut off leaves the table it found or the one it was going to leave. -/
theorem PoolHolds.cutOff : ∃ next, (next = table ∨ ∃ given, table.Serves request given next) ∧
    PoolHolds base poolSize (outcomes ++ [.cutOff request]) next shared.powerFailure := by
  obtain ⟨result, given, later, next, hends, hgiven, hserves, hholds, -⟩ :=
    hpool.holds.serve (fun hupdates ↦ hpool.quiet (hallowed.recovered hupdates)) hsize
      hallowed.ne_init hallowed.clear
  have hatomic :=
    hpool.settled.crashAtomic_of_any hallowed.ne_init hreaches hends hgiven
  have hstart := hpool.start.of_reaches hallowed.ne_init hreaches
  have hleft : ∀ {left : RegionTable (base + catalogSize) (base + poolSize)} {memory : Memory},
      HoldsRegions base poolSize left memory →
      activeRegions base shared.media = activeRegions base memory →
      PoolHolds base poolSize (outcomes ++ [.cutOff request]) left shared.powerFailure := by
    intro left memory hleft hregions
    refine ⟨⟨hatomic.magic, hstart.media_eq, ?_⟩, settled_clean hatomic.magic,
      ⟨fun _ _ ↦ rfl, hstart.media_eq⟩, fun hdone ↦ ?_,
      hpool.idle.concat fun _ hsame ↦ nomatch hsame⟩
    · show ∀ region, region ∈ activeRegions base shared.media ↔ _
      rw [hregions]
      exact hleft.mem_iff
    · rw [recoveryDue_cutOff] at hdone
      cases hdone
  rcases hatomic.media with hbefore | hlater
  · exact ⟨table, Or.inl rfl, hleft hpool.holds hbefore⟩
  · exact ⟨next, Or.inr ⟨given, hserves⟩, hleft hholds hlater⟩

end PoolHolds

/-! ### Initialising -/

/-- How far an `init` has got with the start of the data area. -/
def InitPoint.Places (base : ℕ) (shared : CachedMemory) : InitPoint → Prop
  | .flushHeader => dataStart base shared.cached = base + catalogSize
  | .storeState _ => StartAtRest base shared
  | .flushEntries => StartAtRest base shared
  | _ => True

/-- An accepted `init` has brought the start of the data area to the media. -/
def initPlaces (base : ℕ) (task : Task InitPoint (Except AllocError Unit))
    (shared : CachedMemory) : Prop :=
  task.fold (InitPoint.Places base shared) fun result ↦ result = .ok () → StartAtRest base shared

theorem initPlaces_head {index : ℕ} (hstart : StartAtRest base shared) :
    initPlaces base (InitPoint.head index) shared := by
  unfold InitPoint.head
  split_ifs <;> exact hstart

theorem InitPoint.Places.step (hfits : base + catalogSize < 2 ^ 64) {point : InitPoint}
    (hplaces : point.Places base shared) :
    initPlaces base ((RegionAllocator.init base poolSize point).execCached shared).1
      ((RegionAllocator.init base poolSize point).execCached shared).2 := by
  cases point with
  | storeMagic => exact trivial
  | storeCount => exact trivial
  | storeTotalSize => exact trivial
  | storeDataStart =>
    refine (loadWord_storeWord_self _ _ _ _).trans ?_
    rw [Nat.mod_eq_of_lt hfits]
    exact Nat.mod_eq_of_lt hfits
  | flushHeader =>
    have hpersisted := @persisted_flush cacheline base catalogHeaderSize shared
    have hstart : StartAtRest base (shared.flush cacheline base catalogHeaderSize) :=
      ⟨hpersisted.mono (Nat.le_add_right _ _)
        (Nat.add_le_add_left (by decide : catHdrDataStart + 8 ≤ catalogHeaderSize) base), hplaces⟩
    exact @initPlaces_head base _ 0 hstart
  | storeState index =>
    have hstart : StartAtRest base shared := hplaces
    exact @initPlaces_head base _ (index + 1) (hstart.execCached
      (BackendCall.storesOutside_of_entry (header_le_entryOffset base index) :
        (RegionAllocator.init base poolSize (.storeState index)).StoresOutside _ _))
  | flushEntries => exact fun _ ↦ StartAtRest.settles hplaces (settles_flush _ _ _)

theorem initPlaces_settles {task : Task InitPoint (Except AllocError Unit)}
    {after : CachedMemory} (hplaces : initPlaces base task shared)
    (hsettles : Settles shared after) : initPlaces base task after := by
  cases task with
  | returned result => exact fun hok ↦ (hplaces hok).settles hsettles
  | running point =>
    cases point with
    | flushHeader =>
      show dataStart base after.cached = _
      rw [hsettles.cached_eq]
      exact hplaces
    | storeState index => exact StartAtRest.settles hplaces hsettles
    | flushEntries => exact StartAtRest.settles hplaces hsettles
    | _ => exact trivial

/-- An accepted `init` leaves a pool that holds the empty table. -/
theorem PoolHolds.of_init (hfits : base + poolSize < 2 ^ 64)
    (hinit : (cachedAllocator base poolSize).Reaches (AllocRequest.init.call poolSize) before call
      shared) (haccepted : call.answer = some (.ready (.ok ()))) :
    catalogSize ≤ poolSize ∧ PoolHolds base poolSize [] (.empty _ _) shared := by
  have hsettled := SettledCatalog.of_init hinit haccepted
  have hrefused : poolSize < catalogSize → (allocatorMachine base poolSize).Ends
      (AllocRequest.init.call poolSize) before.cached
      (.init (.returned (.error (.outOfSpace catalogSize poolSize)))) before.cached := by
    intro hsmall
    rw [AllocRequest.call, startInit, if_pos hsmall]
    exact .refl _ _
  obtain ⟨result, given, later, hends, hgiven⟩ : ∃ result given later,
      (allocatorMachine base poolSize).Ends (AllocRequest.init.call poolSize) before.cached result
        later ∧ result.answer = some given := by
    by_cases hsize : catalogSize ≤ poolSize
    · obtain ⟨later, hends, -⟩ := init_ends base before.cached hsize
      exact ⟨_, _, later, hends, rfl⟩
    · exact ⟨_, _, _, hrefused (Nat.lt_of_not_le hsize), rfl⟩
  have hrest := AllocCall.ends_of_reaches hinit hgiven hends
  obtain ⟨rfl, rfl⟩ := hrest.unique (.refl _ _) (AllocCall.step_of_answer hgiven)
    (AllocCall.step_of_answer haccepted)
  obtain ⟨hsize, hempty⟩ := emptyCatalog_of_init hends haccepted
  have hcat := hempty.catalogued hfits hsize
  have hbegun : initPlaces base (startInit poolSize) before := by
    rw [startInit, if_neg (Nat.not_lt.mpr hsize)]
    exact trivial
  obtain ⟨⟨task, rfl, hplaces⟩, -⟩ := AllocCall.runs_init.reaches_cached hinit hends hgiven
    (initPlaces base) hbegun (fun _ _ hplaces _ ↦ hplaces.step (by omega))
    (fun _ line shared hplaces ↦ initPlaces_settles hplaces (settles_writeBack line shared))
  refine ⟨hsize, hcat.holds, hsettled, ?_, fun _ ↦ hcat.settled, .nil⟩
  cases task with
  | running point => cases haccepted
  | returned result =>
    cases haccepted
    exact hplaces rfl

/-! ### Any run -/

/-- Whatever power failures cut off, the pool holds a table that serves every call that was
answered, and every call that was cut off as a whole or not at all. A recovery that was not due
reports nothing. -/
theorem regionTable_survives_power_failures (hfits : base + poolSize < 2 ^ 64)
    {initial ready : CachedMemory} {started : AllocCall}
    (hinit : (cachedAllocator base poolSize).Reaches (AllocRequest.init.call poolSize) initial
      started ready) (haccepted : started.answer = some (.ready (.ok ())))
    (hadmits : Admits (AllocRequest.Allowed base poolSize) outcomes)
    (hendures : (cachedAllocator base poolSize).Endures AllocCall.answer powerFailure outcomes ready
      shared) :
    ∃ table : RegionTable (base + catalogSize) (base + poolSize),
      Durably RegionTable.Serves (.empty _ _) outcomes table ∧
      IdleRecoveries outcomes ∧
      (∀ region, region ∈ activeRegions base shared.cached ↔
        table.region region.name = some region) ∧
      ∀ region, region ∈ activeRegions base shared.media ↔
        table.region region.name = some region := by
  obtain ⟨hsize, hready⟩ := PoolHolds.of_init hfits hinit haccepted
  obtain ⟨table, hdurably, hpool⟩ := hendures.durably RegionTable.Serves
    (AllocRequest.Allowed base poolSize) (PoolHolds base poolSize)
    (fun line _ _ shared hpool ↦ hpool.settles (settles_writeBack line shared))
    (fun _ _ _ _ _ _ _ hpool hallowed hreaches hgiven ↦
      hpool.answered hallowed hsize hreaches hgiven)
    (fun _ _ _ _ _ _ hpool hallowed hreaches ↦
      hpool.cutOff hallowed hsize hreaches) hadmits hready
  refine ⟨table, hdurably, hpool.idle, hpool.holds.mem_iff, ?_⟩
  rw [hpool.settled.activeRegions_media]
  exact hpool.holds.mem_iff

/-- A region is created, the power fails in the creation of another one, and the pool recovers
twice. -/
theorem regionTable_survives_power_failures_two :
    ∃ given fixed again shared, ∃ table : RegionTable (0 + catalogSize) (0 + (catalogSize + 128)),
      Durably RegionTable.Serves (.empty _ _)
        ([] ++ [.answered (.createRegion "a" 64) given] ++ [.cutOff (.createRegion "b" 64)] ++
          [.answered .recover fixed] ++ [.answered .recover again]) table ∧
      IdleRecoveries ([] ++ [.answered (.createRegion "a" 64) given] ++
        [.cutOff (.createRegion "b" 64)] ++ [.answered .recover fixed] ++
          [.answered .recover again]) ∧
      (∀ region, region ∈ activeRegions 0 (CachedMemory.cached shared) ↔
        table.region region.name = some region) ∧
      ∀ region, region ∈ activeRegions 0 shared.media ↔ table.region region.name = some region := by
  obtain ⟨start, hstart, -⟩ :=
    @init_ends (catalogSize + 128) 0 (clean fun _ ↦ 0).cached (Nat.le_add_right _ _)
  obtain ⟨ready, hinit, -⟩ := hstart.reaches_of_project AllocCall.stepCached_eq
  obtain ⟨created, first, hfirst, -⟩ := createRegion_ends 0 (catalogSize + 128) "a" 64 ready.cached
  obtain ⟨one, hone, -⟩ := hfirst.reaches_of_project AllocCall.stepCached_eq
  obtain ⟨other, second, hsecond, -⟩ := createRegion_ends 0 (catalogSize + 128) "b" 64 one.cached
  obtain ⟨two, htwo, -⟩ := hsecond.reaches_of_project AllocCall.stepCached_eq
  obtain ⟨fixed, final, hfinal, -⟩ :=
    recoverCatalog_head_ends 0 (catalogSize + 128) 0 0 two.powerFailure.cached
  obtain ⟨three, hthree, -⟩ := hfinal.reaches_of_project AllocCall.stepCached_eq
  obtain ⟨again, last, hlast, -⟩ :=
    recoverCatalog_head_ends 0 (catalogSize + 128) 0 0 three.cached
  obtain ⟨shared, hshared, -⟩ := hlast.reaches_of_project AllocCall.stepCached_eq
  have hadmits : Admits (AllocRequest.Allowed 0 (catalogSize + 128))
      ([] ++ [.answered (.createRegion "a" 64) (.created created)] ++
        [.cutOff (.createRegion "b" 64)] ++ [.answered .recover (.recovered fixed)] ++
        [.answered .recover (.recovered again)]) := by
    refine (((Admits.nil.concat ?_).concat ?_).concat ?_).concat ?_
    · exact ⟨AllocRequest.noConfusion, fun _ ↦ rfl,
        (by decide : (AllocRequest.createRegion "a" 64).Clear 0 (catalogSize + 128))⟩
    · exact ⟨AllocRequest.noConfusion, fun _ ↦ rfl,
        (by decide : (AllocRequest.createRegion "b" 64).Clear 0 (catalogSize + 128))⟩
    · exact ⟨AllocRequest.noConfusion, False.elim, trivial⟩
    · exact ⟨AllocRequest.noConfusion, False.elim, trivial⟩
  exact ⟨_, _, _, shared, regionTable_survives_power_failures (by decide) hinit rfl hadmits
    (.answered (.answered (.cutOff (.answered (.nil ready) hone rfl) htwo) hthree rfl) hshared rfl)⟩

end Fence
