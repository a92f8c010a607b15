import Fence.Abstract.RegionTable
import Mathlib.Data.Finset.Card
import Mathlib.Data.List.Sort
import Mathlib.Order.Bounds.Basic

/-!
# What the allocator does with its table

The service an allocator gives, as a relation between a table, a request, its answer and the table
after it. A region is created under a name that has none, in the first unused slot, and at the least
aligned offset past all regions, which is also what decides whether there is room. All other answers
follow from what the table holds, so that the relation determines them (`Serves.unique`); only a
recovery is asked nothing more of than that the slots it frees are unused.
-/

set_option autoImplicit false
set_option relaxedAutoImplicit false

namespace Fence

namespace RegionTable

variable {low high : ℕ}

/-- The aligned offsets past all regions of a table. -/
def past (table : RegionTable low high) : Set ℕ :=
  {offset | 64 ∣ offset ∧ low ≤ offset ∧ ∀ name region, table.region name = some region →
    region.offset + region.size ≤ offset}

/-- The slots of the catalog that no region of a table has. -/
def unused (table : RegionTable low high) : Set ℕ :=
  {slot | slot < maxRegions ∧ ∀ name region, table.region name = some region → region.slot ≠ slot}

/-- A list has the regions of a table, and no others. -/
def Lists (table : RegionTable low high) (regions : List RegionHandle) : Prop :=
  ∀ region, region ∈ regions ↔ table.region region.name = some region

/-- The answer of a lookup. -/
def found (table : RegionTable low high) (name : String) : Except AllocError RegionHandle :=
  match table.region name with
  | some region => .ok region
  | none => .error (.notFound name)

/-- What the allocator answers from a table, and the table after it. -/
inductive Serves (table : RegionTable low high) :
    AllocRequest → AllocAnswer → RegionTable low high → Prop
  | opened : Serves table .openPool (.ready (.ok ())) table
  | created {name : String} {size : UInt64} {slot offset : ℕ} {next : RegionTable low high}
      (hname : (asBytes name).length ≤ maxNameLen) (hfresh : table.region name = none)
      (hslot : IsLeast table.unused slot) (hplace : IsLeast table.past offset)
      (hnext : next.region =
        Function.update table.region name (some ⟨slot, name, offset, size.toNat⟩)) :
      Serves table (.createRegion name size) (.created (.ok ⟨slot, name, offset, size.toNat⟩)) next
  | nameTooLong {name : String} {size : UInt64} (hname : maxNameLen < (asBytes name).length) :
      Serves table (.createRegion name size)
        (.created (.error (.invalidState "name too long: max 24 bytes"))) table
  | nameExists {name : String} {size : UInt64} {region : RegionHandle}
      (hname : (asBytes name).length ≤ maxNameLen) (hregion : table.region name = some region) :
      Serves table (.createRegion name size) (.created (.error (.nameExists name))) table
  | catalogFull {name : String} {size : UInt64} (hname : (asBytes name).length ≤ maxNameLen)
      (hfresh : table.region name = none) (hfull : table.unused = ∅) :
      Serves table (.createRegion name size) (.created (.error .catalogFull)) table
  | outOfSpace {name : String} {size : UInt64} {offset : ℕ}
      (hname : (asBytes name).length ≤ maxNameLen) (hfresh : table.region name = none)
      (hunused : table.unused.Nonempty) (hplace : IsLeast table.past offset)
      (hspace : high < offset + size.toNat) :
      Serves table (.createRegion name size)
        (.created (.error (.outOfSpace size.toNat (high - offset)))) table
  | freed {name : String} {region : RegionHandle} (hregion : table.region name = some region) :
      Serves table (.freeRegion name) (.freed (.ok ())) (table.strike name)
  | notFound {name : String} (hnone : table.region name = none) :
      Serves table (.freeRegion name) (.freed (.error (.notFound name))) table
  | found (name : String) : Serves table (.findRegion name) (.found (table.found name)) table
  | listed {regions : List RegionHandle} (hlists : table.Lists regions)
      (hsorted : regions.Pairwise fun first second ↦ first.slot < second.slot) :
      Serves table .listRegions (.listed regions) table
  | recovered (freed : Finset ℕ) (hfreed : ↑freed ⊆ table.unused) :
      Serves table .recover (.recovered freed.card) table

/-- What the allocator answers to requests one after another. -/
inductive ServesAll : RegionTable low high → List AllocRequest → List AllocAnswer →
    RegionTable low high → Prop
  | nil (table : RegionTable low high) : ServesAll table [] [] table
  | cons {table between next : RegionTable low high} {request : AllocRequest}
      {given : AllocAnswer} {rest : List AllocRequest} {answers : List AllocAnswer}
      (hserves : table.Serves request given between) (hrest : ServesAll between rest answers next) :
      ServesAll table (request :: rest) (given :: answers) next

/-! ### The answers are determined -/

variable {table next later : RegionTable low high} {regions : List RegionHandle}

/-- A list of the regions in the order of their slots is the only one. -/
theorem Lists.unique {others : List RegionHandle} (hregions : table.Lists regions)
    (hothers : table.Lists others)
    (hsorted : regions.Pairwise fun first second ↦ first.slot < second.slot)
    (hsortedOthers : others.Pairwise fun first second ↦ first.slot < second.slot) :
    regions = others := by
  have hirrefl : Std.Irrefl fun first second : RegionHandle ↦ first.slot < second.slot :=
    ⟨fun _ ↦ Nat.lt_irrefl _⟩
  have hantisymm : Std.Antisymm fun first second : RegionHandle ↦ first.slot < second.slot :=
    ⟨fun _ _ hlt hgt ↦ absurd hgt (Nat.lt_asymm hlt)⟩
  exact hsorted.eq_of_mem_iff hsortedOthers fun region ↦
    (hregions region).trans (hothers region).symm

/-- The region that a name got lies within bounds. -/
theorem le_high_of_update {name : String} {new : RegionHandle}
    (hnext : next.region = Function.update table.region name (some new)) :
    new.offset + new.size ≤ high := by
  have hregion : next.region name = some new := by rw [hnext, Function.update_self]
  exact (next.within hregion).le_high

/-- What a creation answers is determined: each answer has a condition that all tests before it
rule out for the others. -/
theorem Serves.unique_create {name : String} {size : UInt64} {given other : AllocAnswer}
    (hfirst : table.Serves (.createRegion name size) given next)
    (hsecond : table.Serves (.createRegion name size) other later) :
    given = other ∧ next = later := by
  have hfresh_ne : ∀ {region}, table.region name = none → table.region name ≠ some region :=
    fun hnone hsome ↦ by rw [hnone] at hsome; cases hsome
  have hempty : ∀ {slot}, table.unused = ∅ → slot ∉ table.unused := fun hfull ↦ by
    rw [hfull]
    exact Set.notMem_empty _
  cases hfirst with
  | created hname hfresh hslot hplace hnext =>
    cases hsecond with
    | created _ _ hslot' hplace' hnext' =>
      obtain rfl := hslot.unique hslot'
      obtain rfl := hplace.unique hplace'
      exact ⟨rfl, RegionTable.ext (hnext.trans hnext'.symm)⟩
    | nameTooLong hlong => exact absurd hname (Nat.not_le.mpr hlong)
    | nameExists _ hregion => exact absurd hregion (hfresh_ne hfresh)
    | catalogFull _ _ hfull => exact absurd hslot.1 (hempty hfull)
    | outOfSpace _ _ _ hplace' hspace =>
      obtain rfl := hplace.unique hplace'
      exact absurd (le_high_of_update hnext) (Nat.not_le.mpr hspace)
  | nameTooLong hlong =>
    cases hsecond with
    | nameTooLong => exact ⟨rfl, rfl⟩
    | created hname | nameExists hname | catalogFull hname | outOfSpace hname =>
      exact absurd hname (Nat.not_le.mpr hlong)
  | nameExists hname hregion =>
    cases hsecond with
    | nameExists => exact ⟨rfl, rfl⟩
    | nameTooLong hlong => exact absurd hname (Nat.not_le.mpr hlong)
    | created _ hfresh | catalogFull _ hfresh | outOfSpace _ hfresh =>
      exact absurd hregion (hfresh_ne hfresh)
  | catalogFull hname hfresh hfull =>
    cases hsecond with
    | catalogFull => exact ⟨rfl, rfl⟩
    | nameTooLong hlong => exact absurd hname (Nat.not_le.mpr hlong)
    | nameExists _ hregion => exact absurd hregion (hfresh_ne hfresh)
    | created _ _ hslot => exact absurd hslot.1 (hempty hfull)
    | outOfSpace _ _ hunused => exact absurd hunused.choose_spec (hempty hfull)
  | outOfSpace hname hfresh hunused hplace hspace =>
    cases hsecond with
    | outOfSpace _ _ _ hplace' =>
      obtain rfl := hplace.unique hplace'
      exact ⟨rfl, rfl⟩
    | nameTooLong hlong => exact absurd hname (Nat.not_le.mpr hlong)
    | nameExists _ hregion => exact absurd hregion (hfresh_ne hfresh)
    | catalogFull _ _ hfull => exact absurd hunused.choose_spec (hempty hfull)
    | created _ _ _ hplace' hnext =>
      obtain rfl := hplace.unique hplace'
      exact absurd (le_high_of_update hnext) (Nat.not_le.mpr hspace)

/-- A table, a request other than a recovery: there is one answer and one table after it. -/
theorem Serves.unique {request : AllocRequest} {given other : AllocAnswer}
    (hrequest : request ≠ .recover) (hfirst : table.Serves request given next)
    (hsecond : table.Serves request other later) : given = other ∧ next = later := by
  cases request with
  | init => cases hfirst
  | openPool =>
    cases hfirst
    cases hsecond
    exact ⟨rfl, rfl⟩
  | createRegion name size => exact hfirst.unique_create hsecond
  | freeRegion name =>
    cases hfirst with
    | freed hregion =>
      cases hsecond with
      | freed => exact ⟨rfl, rfl⟩
      | notFound hnone => rw [hnone] at hregion; cases hregion
    | notFound hnone =>
      cases hsecond with
      | freed hregion => rw [hnone] at hregion; cases hregion
      | notFound => exact ⟨rfl, rfl⟩
  | findRegion name =>
    cases hfirst
    cases hsecond
    exact ⟨rfl, rfl⟩
  | listRegions =>
    cases hfirst with
    | listed hlists hsorted =>
      cases hsecond with
      | listed hlists' hsorted' =>
        obtain rfl := hlists.unique hlists' hsorted hsorted'
        exact ⟨rfl, rfl⟩
  | recover => exact absurd rfl hrequest

/-! ### Tables with few regions -/

theorem Lists.empty : (RegionTable.empty low high).Lists [] :=
  fun _ ↦ ⟨fun hmem ↦ absurd hmem List.not_mem_nil, fun hregion ↦ nomatch hregion⟩

/-- A region that was entered is listed first. -/
theorem Lists.cons {new : RegionHandle} (hregions : table.Lists regions)
    (hfresh : table.region new.name = none)
    (hnext : next.region = Function.update table.region new.name (some new)) :
    next.Lists (new :: regions) := by
  intro region
  rw [List.mem_cons, hregions region, hnext]
  by_cases hname : region.name = new.name
  · rw [hname, Function.update_self, hfresh, Option.some.injEq]
    refine ⟨fun hor ↦ (hor.resolve_right fun hnone ↦ ?_).symm, fun hsame ↦ Or.inl hsame.symm⟩
    cases hnone
  · rw [Function.update_of_ne hname]
    exact ⟨fun hor ↦ hor.resolve_left fun hsame ↦ hname (hsame ▸ rfl), Or.inr⟩

/-- A name that was struck out is not listed. -/
theorem Lists.filter (hregions : table.Lists regions) (name : String) :
    (table.strike name).Lists (regions.filter fun region ↦ region.name ≠ name) := by
  intro region
  rw [List.mem_filter, hregions region, decide_eq_true_iff]
  show _ ↔ Function.update table.region name none region.name = some region
  by_cases hname : region.name = name
  · rw [hname, Function.update_self]
    refine ⟨fun hand ↦ absurd rfl hand.2, fun hnone ↦ ?_⟩
    cases hnone
  · rw [Function.update_of_ne hname]
    exact ⟨And.left, fun hregion ↦ ⟨hregion, hname⟩⟩

/-- The regions of a table are those of its list. -/
theorem Lists.mem {name : String} {region : RegionHandle} (hregions : table.Lists regions)
    (hregion : table.region name = some region) : region ∈ regions :=
  (hregions region).mpr (table.region_name hregion)

/-- A name that no region of the list has is fresh. -/
theorem Lists.fresh {name : String} (hregions : table.Lists regions)
    (hnone : ∀ region ∈ regions, region.name ≠ name) : table.region name = none :=
  Option.eq_none_iff_forall_not_mem.mpr fun region hregion ↦
    hnone region (hregions.mem hregion) (table.name_eq hregion)

/-- The first slot that no region of the list has is the least unused one. -/
theorem Lists.isLeast_unused {slot : ℕ} (hregions : table.Lists regions) (hslot : slot < maxRegions)
    (hnone : ∀ region ∈ regions, region.slot ≠ slot)
    (hbelow : ∀ other < slot, ∃ region ∈ regions, region.slot = other) :
    IsLeast table.unused slot := by
  refine ⟨⟨hslot, fun name region hregion ↦ hnone region (hregions.mem hregion)⟩,
    fun other hother ↦ Nat.le_of_not_lt fun hlt ↦ ?_⟩
  obtain ⟨region, hregion, hsame⟩ := hbelow other hlt
  exact hother.2 region.name region ((hregions region).mp hregion) hsame

/-- An aligned offset at which the last region ends is the least one past them. -/
theorem Lists.isLeast_past {offset : ℕ} (hregions : table.Lists regions) (haligned : 64 ∣ offset)
    (hlow : low ≤ offset)
    (hends : ∀ region ∈ regions, region.offset + region.size ≤ offset)
    (hreached : offset = low ∨ ∃ region ∈ regions, region.offset + region.size = offset) :
    IsLeast table.past offset := by
  refine ⟨⟨haligned, hlow, fun name region hregion ↦ hends region (hregions.mem hregion)⟩,
    fun other hother ↦ ?_⟩
  rcases hreached with rfl | ⟨region, hregion, rfl⟩
  · exact hother.2.1
  · exact hother.2.2 region.name region ((hregions region).mp hregion)

/-- A creation under a new name that finds a slot and room is served, and listed first. -/
theorem Lists.exists_create {name : String} {size : UInt64} {slot offset : ℕ}
    (hregions : table.Lists regions) (hname : (asBytes name).length ≤ maxNameLen)
    (hnone : ∀ region ∈ regions, region.name ≠ name) (hslot : IsLeast table.unused slot)
    (hplace : IsLeast table.past offset) (hspace : offset + size.toNat ≤ high) :
    ∃ next : RegionTable low high,
      table.Serves (.createRegion name size)
        (.created (.ok ⟨slot, name, offset, size.toNat⟩)) next ∧
      next.Lists (⟨slot, name, offset, size.toNat⟩ :: regions) := by
  have hfresh := hregions.fresh hnone
  exact ⟨table.enter ⟨slot, name, offset, size.toNat⟩ ⟨hplace.1.1, hplace.1.2.1, hspace⟩
    (fun hregion ↦ hslot.1.2 _ _ hregion) (fun hregion ↦ Or.inl (hplace.1.2.2 _ _ hregion)),
    .created hname hfresh hslot hplace rfl, hregions.cons hfresh rfl⟩

/-! ### The first regions of a pool -/

/-- The first region is created right behind the catalog. -/
theorem exists_serves_first (hroom : catalogSize + 64 ≤ high) :
    ∃ one : RegionTable (0 + catalogSize) high,
      (RegionTable.empty _ _).Serves (.createRegion "a" 64)
        (.created (.ok ⟨0, "a", catalogSize, 64⟩)) one ∧
      one.Lists [⟨0, "a", catalogSize, 64⟩] := by
  have hnone := @Lists.empty (0 + catalogSize) high
  exact @Lists.exists_create _ _ _ _ "a" 64 0 catalogSize hnone (by decide) (by decide)
    (hnone.isLeast_unused (by decide) (by decide) (by decide))
    (hnone.isLeast_past (by decide) (by decide) (by decide) (Or.inl (by decide))) hroom

/-- The second region is created in the next slot, behind the first. -/
theorem exists_serves_second (hroom : catalogSize + 128 ≤ high) :
    ∃ one two : RegionTable (0 + catalogSize) high,
      (RegionTable.empty _ _).Serves (.createRegion "a" 64)
        (.created (.ok ⟨0, "a", catalogSize, 64⟩)) one ∧
      one.Serves (.createRegion "b" 64)
        (.created (.ok ⟨1, "b", catalogSize + 64, 64⟩)) two ∧
      two.Lists [⟨1, "b", catalogSize + 64, 64⟩, ⟨0, "a", catalogSize, 64⟩] := by
  obtain ⟨one, hfirst, hone⟩ := exists_serves_first (Nat.le_trans (by decide) hroom)
  obtain ⟨two, hsecond, htwo⟩ := @Lists.exists_create _ _ _ _ "b" 64 1 (catalogSize + 64) hone
    (by decide) (by decide) (hone.isLeast_unused (by decide) (by decide) (by decide))
    (hone.isLeast_past (by decide) (by decide) (by decide) (Or.inr (by decide))) hroom
  exact ⟨one, two, hfirst, hsecond, htwo⟩

end RegionTable

end Fence
