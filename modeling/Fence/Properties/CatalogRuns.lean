import Fence.Alloc.HeldTable

/-!
# The catalog after calls one after another

After any sequence of calls on an initialised pool, in which no addition wraps, the active regions
have different names and slots, do not overlap, are aligned and lie between the catalog and the end
of the pool, and the header counts them. `find_region` returns what `create_region` returned for the
name, unless the region was freed since. A call that returns an error changes nothing
(`soundCatalog_of_session`). The induction carries a table with these properties along the calls.
-/

set_option autoImplicit false
set_option relaxedAutoImplicit false

namespace Fence

open ByteMemory Interleaving

/-- The answer of `find_region` when a name has a region or none. -/
def foundAnswer (name : String) : Option RegionHandle → Except AllocError RegionHandle
  | some region => .ok region
  | none => .error (.notFound name)

/-- The catalog is as it should be after a history of calls. -/
structure SoundCatalog (base poolSize : ℕ) (history : List (AllocRequest × AllocAnswer))
    (memory : Memory) : Prop where
  different : (activeRegions base memory).Pairwise fun first second ↦
    first.name ≠ second.name ∧ first.slot ≠ second.slot ∧ first.Apart second
  within : ∀ region ∈ activeRegions base memory,
    region.Within (dataStart base memory) (base + poolSize)
  count : regionCount base memory = (activeRegions base memory).length
  granted_iff : ∀ region, region ∈ activeRegions base memory ↔
    granted history region.name = some region
  found : ∀ name, (allocatorMachine base poolSize).Ends
    ((AllocRequest.findRegion name).call poolSize) memory
    (.findRegion name (.returned (foundAnswer name (granted history name)))) memory
  listed : (allocatorMachine base poolSize).Ends (AllocRequest.listRegions.call poolSize) memory
    (.listRegions (.returned (activeRegions base memory))) memory
  unchanged : ∀ (request : AllocRequest) call given later,
    (allocatorMachine base poolSize).Ends (request.call poolSize) memory call later →
    call.answer = some given → given.IsError → later = memory

variable {base poolSize : ℕ} {memory start later : Memory} {call : AllocCall}

/-- What the memory holds after a history: the table of its answers. -/
def HoldsHistory (base poolSize : ℕ) (history : List (AllocRequest × AllocAnswer))
    (memory : Memory) : Prop :=
  ∃ table : RegionTable (base + catalogSize) (base + poolSize),
    table.region = granted history ∧ Catalogued base poolSize table memory

/-- An initialised pool holds the table of no history. -/
theorem HoldsHistory.of_init (hfits : base + poolSize < 2 ^ 64)
    (hinit : (allocatorMachine base poolSize).Ends (AllocRequest.init.call poolSize) memory call
      start) (haccepted : call.answer = some (.ready (.ok ()))) :
    HoldsHistory base poolSize [] start := by
  obtain ⟨hsize, hempty⟩ := emptyCatalog_of_init hinit haccepted
  exact ⟨.empty _ _, rfl, hempty.catalogued hfits hsize⟩

/-- A call that leads from the table of the history to the next one is the only one there is. -/
theorem HoldsHistory.of_served {history : List (AllocRequest × AllocAnswer)}
    {table : RegionTable (base + catalogSize) (base + poolSize)}
    (htable : table.region = granted history) {request : AllocRequest}
    (hserve : ∃ other answered reached,
      (allocatorMachine base poolSize).Ends (request.call poolSize)
      memory other reached ∧ other.answer = some answered ∧
        Served base poolSize table request answered reached)
    {given : AllocAnswer} (hends : (allocatorMachine base poolSize).Ends (request.call poolSize)
      memory call later) (hgiven : call.answer = some given) :
    HoldsHistory base poolSize (history ++ [(request, given)]) later := by
  obtain ⟨other, answered, reached, hserves, hanswered, hserved⟩ := hserve
  obtain ⟨rfl, rfl⟩ := hends.unique hserves (AllocCall.step_of_answer hgiven)
    (AllocCall.step_of_answer hanswered)
  obtain rfl : given = answered := Option.some.inj (hgiven.symm.trans hanswered)
  obtain ⟨next, hnext, hcatalogued⟩ := hserved
  refine ⟨next, ?_, hcatalogued⟩
  rw [hnext, htable, granted, granted, List.foldl_append]
  rfl

/-- One call. -/
theorem HoldsHistory.serve {history : List (AllocRequest × AllocAnswer)}
    (hholds : HoldsHistory base poolSize history memory) (hfits : base + poolSize < 2 ^ 64)
    {request : AllocRequest} (hrequest : request ≠ .init) (hexact : request.Exact base memory)
    {given : AllocAnswer} (hends : (allocatorMachine base poolSize).Ends (request.call poolSize)
      memory call later) (hgiven : call.answer = some given) :
    HoldsHistory base poolSize (history ++ [(request, given)]) later := by
  obtain ⟨table, htable, hcat⟩ := hholds
  exact .of_served htable (hcat.serve hfits hrequest hexact) hends hgiven

/-- A memory that holds a history is a sound catalog for it. -/
theorem HoldsHistory.sound {history : List (AllocRequest × AllocAnswer)}
    (hholds : HoldsHistory base poolSize history memory) :
    SoundCatalog base poolSize history memory := by
  obtain ⟨table, htable, hcat⟩ := hholds
  have hname : ∀ {first second : RegionHandle}, first ∈ activeRegions base memory →
      second ∈ activeRegions base memory → first.slot < second.slot →
        first.name ≠ second.name := by
    intro first second hfirst hsecond hlt hsame
    have hregion := (hcat.mem_iff first).mp hfirst
    rw [hsame, (hcat.mem_iff second).mp hsecond, Option.some.injEq] at hregion
    rw [hregion] at hlt
    exact Nat.lt_irrefl _ hlt
  refine ⟨?_, ?_, hcat.count, ?_, ?_, listRegions_ends base poolSize memory, ?_⟩
  · refine (pairwise_slot_activeRegions base memory).imp_of_mem fun hfirst hsecond hlt ↦ ?_
    have hne := hname hfirst hsecond hlt
    exact ⟨hne, Nat.ne_of_lt hlt,
      table.apart hne ((hcat.mem_iff _).mp hfirst) ((hcat.mem_iff _).mp hsecond)⟩
  · intro region hregion
    rw [hcat.dataStart_eq]
    exact table.within ((hcat.mem_iff region).mp hregion)
  · intro region
    rw [← htable]
    exact hcat.mem_iff region
  · intro name
    have hfind := findRegion_ends base poolSize name memory
    rw [hcat.lookup_eq name, htable] at hfind
    cases hregion : granted history name <;> simpa only [hregion, foundAnswer] using hfind
  · exact fun request call given later ↦ eq_of_isError

/-- After calls one after another on an initialised pool, the catalog is sound. -/
theorem soundCatalog_of_session (hfits : base + poolSize < 2 ^ 64)
    (hinit : (allocatorMachine base poolSize).Ends (AllocRequest.init.call poolSize) memory call
      start) (haccepted : call.answer = some (.ready (.ok ())))
    {requests : List AllocRequest} {answers : List AllocAnswer}
    (hrequests : ∀ request ∈ requests, request ≠ .init)
    (hexact : (allocatorMachine base poolSize).AtEach AllocCall.answer
      (fun request memory ↦ request.Exact base memory) requests start)
    (hsession : (allocatorMachine base poolSize).Session AllocCall.answer requests start answers
      later) : SoundCatalog base poolSize (requests.zip answers) later := by
  have hstart := HoldsHistory.of_init hfits hinit haccepted
  exact (hsession.invariant _ (HoldsHistory base poolSize)
    (fun history request shared thread given reached hholds hproperty hends hgiven ↦
      hholds.serve hfits hproperty.1 hproperty.2 hends hgiven) (.and hrequests hexact) hstart).sound

/-- Sizes clear of the end of the address space are added exactly in every state of a session, as is
whatever else follows for such a size from what the memory holds. -/
theorem atEach_of_clear {property : AllocRequest → Memory → Prop}
    (hfits : base + poolSize < 2 ^ 64) (hsize : catalogSize ≤ poolSize)
    (hproperty : ∀ {request memory} {table : RegionTable (base + catalogSize) (base + poolSize)},
      Catalogued base poolSize table memory → request.Clear base poolSize → property request memory)
    (hstart : HoldsHistory base poolSize [] start) {requests : List AllocRequest}
    (hrequests : ∀ request ∈ requests, request ≠ .init ∧ request.Clear base poolSize) :
    (allocatorMachine base poolSize).AtEach AllocCall.answer property requests start := by
  have hclear : (allocatorMachine base poolSize).AtEach AllocCall.answer
      (fun request _ ↦ request ≠ .init ∧ request.Clear base poolSize) requests start := by
    intro before request after answers between hsplit _
    refine hrequests request ?_
    rw [hsplit]
    exact List.mem_append_right _ List.mem_cons_self
  refine hclear.imp (HoldsHistory base poolSize) ?_ ?_ hstart
  · rintro history request memory call given later ⟨table, htable, hcat⟩ hhere hends hgiven
    exact HoldsHistory.serve ⟨table, htable, hcat⟩ hfits hhere.1
      (hcat.exact_of_clear hsize hhere.2) hends hgiven
  · rintro history request memory ⟨table, -, hcat⟩ hhere
    exact hproperty hcat hhere.2

/-- Two creations, the release of the first region, and a third creation. -/
def reusingRequests : List AllocRequest :=
  [.createRegion "a" 64, .createRegion "b" 64, .freeRegion "a", .createRegion "c" 64]

/-- The third region gets the slot of the first one, and the bytes past the second. -/
def reusingAnswers : List AllocAnswer :=
  [.created (.ok ⟨0, "a", catalogSize, 64⟩), .created (.ok ⟨1, "b", catalogSize + 64, 64⟩),
    .freed (.ok ()), .created (.ok ⟨0, "c", catalogSize + 128, 64⟩)]

theorem servesAll_reusing : ∃ next : RegionTable (0 + catalogSize) (0 + (catalogSize + 192)),
    (RegionTable.empty _ _).ServesAll reusingRequests reusingAnswers next := by
  obtain ⟨one, two, hfirst, hsecond, htwo⟩ :=
    @RegionTable.exists_serves_second (0 + (catalogSize + 192)) (by decide)
  have hentered := (htwo ⟨0, "a", catalogSize, 64⟩).mp (by decide)
  have hthree := htwo.filter "a"
  obtain ⟨four, hfourth, -⟩ := @RegionTable.Lists.exists_create _ _ _ _ "c" 64 0 (catalogSize + 128)
    hthree (by decide) (by decide) (hthree.isLeast_unused (by decide) (by decide) (by decide))
    (hthree.isLeast_past (by decide) (by decide) (by decide) (Or.inr (by decide))) (by decide)
  exact ⟨four, .cons hfirst (.cons hsecond (.cons (.freed hentered) (.cons hfourth (.nil four))))⟩

/-- A session that uses a slot again. -/
theorem soundCatalog_of_session_reusing : ∃ start later,
    (allocatorMachine 0 (catalogSize + 192)).Session AllocCall.answer reusingRequests start
      reusingAnswers later ∧
    SoundCatalog 0 (catalogSize + 192) (reusingRequests.zip reusingAnswers) later := by
  obtain ⟨start, hinit, hempty⟩ :=
    @init_ends (catalogSize + 192) 0 (fun _ ↦ 0) (Nat.le_add_right _ _)
  have hcat : Catalogued 0 (catalogSize + 192) (.empty _ _) start :=
    hempty.catalogued (by decide) (Nat.le_add_right _ _)
  have hrequests : ∀ request ∈ reusingRequests, (request ≠ .init ∧ request ≠ .recover) ∧
      request.Clear 0 (catalogSize + 192) := by decide
  obtain ⟨next, hserves⟩ := servesAll_reusing
  obtain ⟨later, hsession, -⟩ := hcat.session_of_serves (by decide) (Nat.le_add_right _ _) hserves
    fun request hmem ↦ ⟨(hrequests request hmem).1.2, (hrequests request hmem).2⟩
  refine ⟨start, later, hsession, ?_⟩
  exact soundCatalog_of_session (by decide) hinit rfl
    (fun request hmem ↦ (hrequests request hmem).1.1)
    (atEach_of_clear (by decide) (Nat.le_add_right _ _)
      (fun hcat hclear ↦ hcat.exact_of_clear (Nat.le_add_right _ _) hclear)
      ⟨_, rfl, hcat⟩ fun request hmem ↦ ⟨(hrequests request hmem).1.1, (hrequests request hmem).2⟩)
    hsession

end Fence
