import Fence.Properties.CatalogRuns

/-!
# The space check for every size

`create_region` is to grant a region exactly when it fits, for every `u64` size. Its additions wrap
in a build without overflow checks: a sum past `2 ^ 64` may come out below the end of the pool, and
the region is granted. `exactOffset` is the next free offset with no addition wrapped. In a sound
catalog the one the code computes is what is left of it modulo `2 ^ 64`
(`Catalogued.nextOffset_eq`), so that only the one sum decides whether the code is right
(`Catalogued.exactCheck_iff`), and the catalog stays sound for as long as it is (`spaceExact_iff`).
-/

set_option autoImplicit false
set_option relaxedAutoImplicit false

namespace Fence

open ByteMemory Interleaving

/-- The largest end of the entries that are taken, and of what was there before, with no addition
wrapped. -/
def exactEnd : List (ℕ × CatalogEntry) → ℕ → ℕ
  | [], start => start
  | (_, entry) :: rest, start =>
    exactEnd rest (if entry.Marked then max start (entry.offset + entry.size) else start)

/-- The next free offset, with no addition wrapped. -/
def exactOffset (base : ℕ) (memory : Memory) : ℕ :=
  (exactEnd (entriesFrom base memory 0) (dataStart base memory) + 63) / 64 * 64

/-- A `create_region` of a valid name that no region has, in a catalog with a free slot. -/
def ReachesCheck (base : ℕ) (name : String) (memory : Memory) : Prop :=
  (asBytes name).length ≤ maxNameLen ∧
    (∀ region ∈ activeRegions base memory, region.name ≠ name) ∧
    ∃ slot < maxRegions, (CatalogEntry.ofMemory memory base slot).state = .free

/-- A `create_region` grants a region exactly when it fits, and is refused for want of space
otherwise, with the memory left as it was. -/
def ExactCheck (base poolSize : ℕ) : AllocRequest → Memory → Prop
  | .createRegion name size, memory => ReachesCheck base name memory →
    ∃ result later, (allocatorMachine base poolSize).Ends
        ((AllocRequest.createRegion name size).call poolSize) memory
        (.createRegion name size (.returned result)) later ∧
      ((∃ region, result = .ok region) ↔
        exactOffset base memory + size.toNat ≤ base + poolSize) ∧
      (base + poolSize < exactOffset base memory + size.toNat →
        (∃ available, result = .error (.outOfSpace size.toNat available)) ∧ later = memory)
  | _, _ => True

/-- The sum of the next offset and the size does not wrap to one within the pool. -/
def SumKept (base poolSize : ℕ) : AllocRequest → Memory → Prop
  | .createRegion name size, memory => ReachesCheck base name memory →
    exactOffset base memory + size.toNat < 2 ^ 64 ∨
      base + poolSize < (exactOffset base memory + size.toNat) % 2 ^ 64
  | _, _ => True

/-- All space checks of a run are exact, and in every state it reaches the active regions lie within
the pool and apart from each other. -/
structure SpaceExact (base poolSize : ℕ) (requests : List AllocRequest)
    (start : Memory) : Prop where
  check : (allocatorMachine base poolSize).AtEach AllocCall.answer
    (ExactCheck base poolSize) requests
    start
  within : ∀ before after answers memory, requests = before ++ after →
    (allocatorMachine base poolSize).Session AllocCall.answer before start answers memory →
      ∀ region ∈ activeRegions base memory, region.offset + region.size ≤ base + poolSize
  apart : ∀ before after answers memory, requests = before ++ after →
    (allocatorMachine base poolSize).Session AllocCall.answer before start answers memory →
      (activeRegions base memory).Pairwise RegionHandle.Apart

variable {base poolSize : ℕ} {memory start : Memory} {call : AllocCall}
  {table : RegionTable (base + catalogSize) (base + poolSize)}

/-! ### The next free offset -/

/-- Where no end wraps, the ends are added exactly. -/
theorem maxEnd_eq_exactEnd {entries : List (ℕ × CatalogEntry)} (first : ℕ)
    (hends : ∀ slot entry, (slot, entry) ∈ entries → entry.Marked →
      entry.offset + entry.size < 2 ^ 64) : maxEnd entries first = exactEnd entries first := by
  induction entries generalizing first with
  | nil => rfl
  | cons pair rest ih =>
    have hrest := fun first ↦ ih first fun slot entry hmem ↦
      hends slot entry (List.mem_cons_of_mem _ hmem)
    rw [maxEnd, exactEnd, hrest]
    by_cases hmarked : pair.2.Marked
    · rw [if_pos hmarked, if_pos hmarked,
        Nat.mod_eq_of_lt (hends pair.1 pair.2 List.mem_cons_self hmarked)]
    · rw [if_neg hmarked, if_neg hmarked]

/-- The round-up of the code is the exact one, modulo `2 ^ 64`. -/
theorem alignUp_eq_mod (value : ℕ) : alignUp value = (value + 63) / 64 * 64 % 2 ^ 64 := by
  unfold alignUp
  omega

section Catalogued

variable (hcat : Catalogued base poolSize table memory) (hfits : base + poolSize < 2 ^ 64)

include hcat hfits

/-- No end wraps in a sound catalog. -/
theorem Catalogued.catalogEnd_eq : catalogEnd base memory =
    exactEnd (entriesFrom base memory 0) (dataStart base memory) := by
  refine maxEnd_eq_exactEnd _ fun slot entry hmem hmarked ↦ ?_
  exact Nat.lt_of_le_of_lt (hcat.marked_le hmem hmarked) hfits

/-- What `next_free_offset` returns for a sound catalog. -/
theorem Catalogued.nextOffset_eq : nextOffset base memory = exactOffset base memory % 2 ^ 64 := by
  rw [nextOffset, alignUp_eq_mod, hcat.catalogEnd_eq hfits, exactOffset]

/-- Where the sum with a size stays below `2 ^ 64`, so does what leads up to it. -/
theorem Catalogued.exact_of_lt {size : ℕ} (hsum : exactOffset base memory + size < 2 ^ 64) :
    catalogEnd base memory + 63 < 2 ^ 64 ∧ nextOffset base memory + size < 2 ^ 64 := by
  have hlt : exactOffset base memory < 2 ^ 64 := Nat.lt_of_le_of_lt (Nat.le_add_right _ _) hsum
  rw [hcat.nextOffset_eq hfits, Nat.mod_eq_of_lt hlt, hcat.catalogEnd_eq hfits]
  refine ⟨?_, hsum⟩
  unfold exactOffset at hlt
  omega

/-- What the code decides by. -/
theorem Catalogued.create_ends {name : String} (size : UInt64)
    (hreaches : ReachesCheck base name memory) :
    ∃ result later, (allocatorMachine base poolSize).Ends
        ((AllocRequest.createRegion name size).call poolSize) memory
        (.createRegion name size (.returned result)) later ∧
      ((∃ region, result = .ok region) ↔
        (exactOffset base memory + size.toNat) % 2 ^ 64 ≤ base + poolSize) ∧
      (base + poolSize < (exactOffset base memory + size.toNat) % 2 ^ 64 →
        (∃ available, result = .error (.outOfSpace size.toNat available)) ∧ later = memory) := by
  obtain ⟨hname, hfresh, slot, hslot, hfree⟩ := hreaches
  have hsum : (nextOffset base memory + size.toNat) % 2 ^ 64 =
      (exactOffset base memory + size.toNat) % 2 ^ 64 := by
    rw [hcat.nextOffset_eq hfits, Nat.mod_add_mod]
  have hend : poolEnd base poolSize = base + poolSize := Nat.mod_eq_of_lt hfits
  obtain ⟨result, later, hends, houtcome⟩ := createRegion_ends base poolSize name size memory
  refine ⟨result, later, hends, ?_⟩
  cases houtcome with
  | nameTooLong hlong => exact absurd hlong (Nat.not_lt.mpr hname)
  | nameExists region hregion hsame => exact absurd hsame (hfresh region hregion)
  | catalogFull hfull => exact absurd hfree (hfull slot hslot)
  | outOfSpace hspace =>
    rw [hsum, hend] at hspace
    refine ⟨iff_of_false (fun hok ↦ ?_) (Nat.not_le.mpr hspace), fun _ ↦ ⟨⟨_, rfl⟩, rfl⟩⟩
    obtain ⟨region, hok⟩ := hok
    cases hok
  | created granted _ _ _ _ hspace =>
    rw [hsum, hend] at hspace
    exact ⟨iff_of_true ⟨_, rfl⟩ hspace, fun hlt ↦ absurd hspace (Nat.not_le.mpr hlt)⟩

/-- In a sound catalog a space check is exact when its sum is kept, and only then. -/
theorem Catalogued.exactCheck_iff (request : AllocRequest) :
    ExactCheck base poolSize request memory ↔ SumKept base poolSize request memory := by
  cases request with
  | createRegion name size =>
    constructor
    · intro hcheck hreaches
      obtain ⟨result, later, hends, hgranted, -⟩ := hcheck hreaches
      obtain ⟨other, reached, hother, hdecided, -⟩ := hcat.create_ends hfits size hreaches
      obtain ⟨hcall, -⟩ := hends.unique hother (AllocCall.step_of_answer rfl)
        (AllocCall.step_of_answer rfl)
      rw [AllocCall.createRegion.injEq, Task.returned.injEq] at hcall
      have hsame := hgranted.symm.trans (hcall.2.2 ▸ hdecided)
      by_contra hwraps
      obtain ⟨hlarge, hleft⟩ := not_or.mp hwraps
      have hfit := hsame.mpr (Nat.le_of_not_lt hleft)
      omega
    · intro hkept hreaches
      obtain ⟨result, later, hends, hdecided, hrefused⟩ := hcat.create_ends hfits size hreaches
      have hkept := hkept hreaches
      refine ⟨result, later, hends, hdecided.trans ?_, fun hlarge ↦ hrefused ?_⟩ <;> omega
  | _ => exact Iff.rfl

/-- A call whose sum is kept answers as the table says and leaves a memory that holds the next one.
-/
theorem Catalogued.serve_of_sumKept {request : AllocRequest} (hrequest : request ≠ .init)
    (hkept : SumKept base poolSize request memory) :
    ∃ call given later, (allocatorMachine base poolSize).Ends (request.call poolSize) memory call
        later ∧ call.answer = some given ∧ Served base poolSize table request given later := by
  cases request with
  | createRegion name size =>
    obtain ⟨result, later, hends, houtcome⟩ := createRegion_ends base poolSize name size memory
    refine ⟨_, _, later, hends, rfl, ?_⟩
    cases houtcome with
    | created slot hname hfresh hslot hfree hspace hfirst =>
      have hsum : exactOffset base memory + size.toNat < 2 ^ 64 := by
        refine (hkept ⟨hname, hfresh, slot, hslot, hfree⟩).resolve_right (Nat.not_lt.mpr ?_)
        rwa [hcat.nextOffset_eq hfits, Nat.mod_add_mod, poolEnd, Nat.mod_eq_of_lt hfits] at hspace
      exact hcat.served_createRegion hfits (fun _ _ _ ↦ hcat.exact_of_lt hfits hsum)
        (.created slot hname hfresh hslot hfree hspace hfirst)
    | _ => exact ⟨table, rfl, hcat⟩
  | _ => exact hcat.serve hfits hrequest trivial

end Catalogued

/-! ### Runs -/

/-- One call whose sum is kept. -/
theorem HoldsHistory.serve_of_sumKept {history : List (AllocRequest × AllocAnswer)} {later : Memory}
    (hholds : HoldsHistory base poolSize history memory) (hfits : base + poolSize < 2 ^ 64)
    {request : AllocRequest} (hrequest : request ≠ .init)
    (hkept : SumKept base poolSize request memory) {given : AllocAnswer}
    (hends : (allocatorMachine base poolSize).Ends (request.call poolSize) memory call later)
    (hgiven : call.answer = some given) :
    HoldsHistory base poolSize (history ++ [(request, given)]) later := by
  obtain ⟨table, htable, hcat⟩ := hholds
  exact .of_served htable (hcat.serve_of_sumKept hfits hrequest hkept) hends hgiven

/-- Every space check of a run is exact when every sum is kept, and only then. -/
theorem atEach_exactCheck_iff (hfits : base + poolSize < 2 ^ 64)
    (hholds : HoldsHistory base poolSize [] start) {requests : List AllocRequest}
    (hrequests : ∀ request ∈ requests, request ≠ .init) :
    (allocatorMachine base poolSize).AtEach AllocCall.answer (ExactCheck base poolSize) requests
        start ↔
      (allocatorMachine base poolSize).AtEach AllocCall.answer (SumKept base poolSize) requests
        start := by
  have hiff : ∀ {history request memory}, HoldsHistory base poolSize history memory →
      (ExactCheck base poolSize request memory ↔ SumKept base poolSize request memory) := by
    rintro history request memory ⟨table, -, hcat⟩
    exact hcat.exactCheck_iff hfits request
  constructor
  · intro hcheck
    refine (hcheck.and hrequests).imp (HoldsHistory base poolSize) ?_ ?_ hholds
    · intro history request memory call given later hholds hhere hends hgiven
      exact hholds.serve_of_sumKept hfits hhere.1 ((hiff hholds).mp hhere.2) hends hgiven
    · exact fun history request memory hholds hhere ↦ (hiff hholds).mp hhere.2
  · intro hkept
    refine (hkept.and hrequests).imp (HoldsHistory base poolSize) ?_ ?_ hholds
    · intro history request memory call given later hholds hhere hends hgiven
      exact hholds.serve_of_sumKept hfits hhere.1 hhere.2 hends hgiven
    · exact fun history request memory hholds hhere ↦ (hiff hholds).mpr hhere.2

/-- The catalog after a run whose sums are kept. -/
theorem holdsHistory_of_sumKept (hfits : base + poolSize < 2 ^ 64)
    (hholds : HoldsHistory base poolSize [] start) {requests : List AllocRequest}
    (hrequests : ∀ request ∈ requests, request ≠ .init)
    (hkept : (allocatorMachine base poolSize).AtEach AllocCall.answer (SumKept base poolSize)
      requests start) {answers : List AllocAnswer}
    (hsession : (allocatorMachine base poolSize).Session AllocCall.answer requests start answers
      memory) : HoldsHistory base poolSize (requests.zip answers) memory :=
  hsession.invariant _ (HoldsHistory base poolSize)
    (fun _ _ _ _ _ _ hholds hhere hends hgiven ↦
      hholds.serve_of_sumKept hfits hhere.1 hhere.2 hends hgiven) (hkept.and hrequests) hholds

/-- On an initialised pool the space checks of a run are exact, and its regions lie within the pool
and apart, exactly when every sum is kept. -/
theorem spaceExact_iff (hfits : base + poolSize < 2 ^ 64)
    (hinit : (allocatorMachine base poolSize).Ends (AllocRequest.init.call poolSize) memory call
      start) (haccepted : call.answer = some (.ready (.ok ()))) {requests : List AllocRequest}
    (hrequests : ∀ request ∈ requests, request ≠ .init) :
    SpaceExact base poolSize requests start ↔
      (allocatorMachine base poolSize).AtEach AllocCall.answer (SumKept base poolSize) requests
        start := by
  have hstart := HoldsHistory.of_init hfits hinit haccepted
  refine ⟨fun hexact ↦ (atEach_exactCheck_iff hfits hstart hrequests).mp hexact.check,
    fun hkept ↦ ?_⟩
  have hsound : ∀ before after answers memory, requests = before ++ after →
      (allocatorMachine base poolSize).Session AllocCall.answer before start answers memory →
        SoundCatalog base poolSize (before.zip answers) memory := by
    intro before after answers memory hsplit hsession
    refine (holdsHistory_of_sumKept hfits hstart ?_ (hsplit ▸ hkept).of_append hsession).sound
    intro request hmem
    exact hrequests request (hsplit ▸ List.mem_append_left _ hmem)
  refine ⟨(atEach_exactCheck_iff hfits hstart hrequests).mpr hkept, ?_, ?_⟩
  · intro before after answers memory hsplit hsession region hregion
    exact ((hsound before after answers memory hsplit hsession).within region hregion).le_high
  · intro before after answers memory hsplit hsession
    refine (hsound before after answers memory hsplit hsession).different.imp ?_
    exact fun hdifferent ↦ hdifferent.2.2

/-- Sums with sizes clear of the end of the address space are kept. -/
theorem Catalogued.sumKept_of_clear (hcat : Catalogued base poolSize table memory)
    (hfits : base + poolSize < 2 ^ 64) (hsize : catalogSize ≤ poolSize) {request : AllocRequest}
    (hclear : request.Clear base poolSize) : SumKept base poolSize request memory := by
  cases request with
  | createRegion name size =>
    have hclear : base + poolSize + 63 + size.toNat < 2 ^ 64 := hclear
    have hend := hcat.catalogEnd_le hsize
    rw [hcat.catalogEnd_eq hfits] at hend
    refine fun _ ↦ Or.inl ?_
    unfold exactOffset
    omega
  | _ => exact trivial

/-- Two creations of one line each. -/
def roomForOneRequests : List AllocRequest := [.createRegion "a" 64, .createRegion "b" 64]

/-- The first region fills the pool, and the second one is refused. -/
def roomForOneAnswers : List AllocAnswer :=
  [.created (.ok ⟨0, "a", catalogSize, 64⟩), .created (.error (.outOfSpace 64 0))]

theorem servesAll_roomForOne : ∃ next : RegionTable (0 + catalogSize) (0 + (catalogSize + 64)),
    (RegionTable.empty _ _).ServesAll roomForOneRequests roomForOneAnswers next := by
  obtain ⟨one, hfirst, hone⟩ :=
    @RegionTable.exists_serves_first (0 + (catalogSize + 64)) (by decide)
  have hslot := hone.isLeast_unused (by decide : 1 < maxRegions) (by decide) (by decide)
  have hplace := hone.isLeast_past (by decide : 64 ∣ catalogSize + 64) (by decide) (by decide)
    (Or.inr (by decide))
  have hrefused : one.Serves (.createRegion "b" 64) (.created (.error (.outOfSpace 64 0))) one :=
    .outOfSpace (by decide) (hone.fresh (by decide)) ⟨1, hslot.1⟩ hplace (by decide)
  exact ⟨one, .cons hfirst (.cons hrefused (.nil one))⟩

/-- A pool with room for one line grants it and refuses the next one, both rightly. -/
theorem spaceExact_iff_roomForOne : ∃ start later,
    (allocatorMachine 0 (catalogSize + 64)).Ends (AllocRequest.init.call (catalogSize + 64))
      (fun _ ↦ 0) (.init (.returned (.ok ()))) start ∧
    (allocatorMachine 0 (catalogSize + 64)).Session AllocCall.answer roomForOneRequests start
      roomForOneAnswers later ∧
    SpaceExact 0 (catalogSize + 64) roomForOneRequests start := by
  obtain ⟨start, hinit, hempty⟩ := init_ends_one
  have hcat : Catalogued 0 (catalogSize + 64) (.empty _ _) start :=
    hempty.catalogued (by decide) (Nat.le_add_right _ _)
  have hrequests : ∀ request ∈ roomForOneRequests, (request ≠ .init ∧ request ≠ .recover) ∧
      request.Clear 0 (catalogSize + 64) := by decide
  obtain ⟨next, hserves⟩ := servesAll_roomForOne
  obtain ⟨later, hsession, -⟩ := hcat.session_of_serves (by decide) (Nat.le_add_right _ _) hserves
    fun request hmem ↦ ⟨(hrequests request hmem).1.2, (hrequests request hmem).2⟩
  refine ⟨start, later, hinit, hsession, ?_⟩
  refine (spaceExact_iff (by decide) hinit rfl fun request hmem ↦
    (hrequests request hmem).1.1).mpr ?_
  exact atEach_of_clear (by decide) (Nat.le_add_right _ _)
    (fun hcat hclear ↦ hcat.sumKept_of_clear (by decide) (Nat.le_add_right _ _) hclear)
    ⟨_, rfl, hcat⟩ fun request hmem ↦ ⟨(hrequests request hmem).1.1, (hrequests request hmem).2⟩

/-- A region of `2 ^ 64 - 64` bytes is granted on a pool with room for 64. -/
theorem not_spaceExact_of_wrap : ∃ start,
    (allocatorMachine 0 (catalogSize + 64)).Ends (AllocRequest.init.call (catalogSize + 64))
      (fun _ ↦ 0) (.init (.returned (.ok ()))) start ∧
    ¬ SpaceExact 0 (catalogSize + 64) [.createRegion "a" 18446744073709551552] start := by
  obtain ⟨start, hinit, hempty⟩ := init_ends_one
  refine ⟨start, hinit, fun hexact ↦ ?_⟩
  have hcat : Catalogued 0 (catalogSize + 64) (.empty _ _) start :=
    hempty.catalogued (by decide) (Nat.le_add_right _ _)
  have hkept := (hcat.exactCheck_iff (by decide) _).mp hexact.check.head
  have hreaches : ReachesCheck 0 "a" start := by
    refine ⟨by decide, ?_, 0, by decide, hempty.state_eq (by decide)⟩
    rw [hempty.activeRegions_eq]
    exact fun region hregion ↦ by cases hregion
  have hoffset : exactOffset 0 start = catalogSize := by
    rw [exactOffset, ← hcat.catalogEnd_eq (by decide), hempty.catalogEnd_eq]
    decide
  rcases hkept hreaches with hlt | hlt
  · rw [hoffset] at hlt
    exact absurd hlt (by decide +kernel)
  · rw [hoffset] at hlt
    exact absurd hlt (by decide +kernel)

end Fence
