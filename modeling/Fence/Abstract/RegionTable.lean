import Fence.Alloc.Allocator
import Mathlib.Logic.Function.Basic

/-!
# The table a catalog stands for

The allocator is there to grant runs of bytes to names. A `RegionTable` says which name has which
region, and carries that the regions have different slots, do not overlap, are aligned and lie
within bounds, so that a table without these cannot be built. A region is entered under a fresh name
past everything it must not meet (`enter`), and struck out by its name (`strike`). `granted` is the
same table read off the answers of the calls alone.
-/

set_option autoImplicit false
set_option relaxedAutoImplicit false

namespace Fence

/-- Two regions have no byte in common. -/
def RegionHandle.Apart (first second : RegionHandle) : Prop :=
  first.offset + first.size ≤ second.offset ∨ second.offset + second.size ≤ first.offset

theorem RegionHandle.Apart.symm {first second : RegionHandle} (hapart : first.Apart second) :
    second.Apart first := Or.symm hapart

/-- A region is aligned and lies within bounds. -/
structure RegionHandle.Within (low high : ℕ) (region : RegionHandle) : Prop where
  aligned : 64 ∣ region.offset
  low_le : low ≤ region.offset
  le_high : region.offset + region.size ≤ high

/-- The region of every name that has one. -/
@[ext] structure RegionTable (low high : ℕ) where
  region : String → Option RegionHandle
  name_eq : ∀ {name entered}, region name = some entered → entered.name = name
  within : ∀ {name entered}, region name = some entered → entered.Within low high
  slot_ne : ∀ {name other entered met}, name ≠ other → region name = some entered →
    region other = some met → entered.slot ≠ met.slot
  apart : ∀ {name other entered met}, name ≠ other → region name = some entered →
    region other = some met → entered.Apart met

namespace RegionTable

variable {low high : ℕ}

/-- The table of no regions. -/
def empty (low high : ℕ) : RegionTable low high where
  region := fun _ ↦ none
  name_eq := fun hregion ↦ nomatch hregion
  within := fun hregion ↦ nomatch hregion
  slot_ne := fun _ hregion ↦ nomatch hregion
  apart := fun _ hregion ↦ nomatch hregion

/-- What a table holds once a region was entered: the region under its name, and what it held
under the others. -/
theorem region_of_enter {table : RegionTable low high} {new entered : RegionHandle} {name : String}
    (hregion : Function.update table.region new.name (some new) name = some entered) :
    (name = new.name ∧ entered = new) ∨ (name ≠ new.name ∧ table.region name = some entered) := by
  by_cases hname : name = new.name
  · subst hname
    rw [Function.update_self, Option.some.injEq] at hregion
    exact Or.inl ⟨rfl, hregion.symm⟩
  · rw [Function.update_of_ne hname] at hregion
    exact Or.inr ⟨hname, hregion⟩

/-- A region is entered under its name. -/
def enter (table : RegionTable low high) (new : RegionHandle) (hwithin : new.Within low high)
    (hslot : ∀ {name entered}, table.region name = some entered → entered.slot ≠ new.slot)
    (hapart : ∀ {name entered}, table.region name = some entered → entered.Apart new) :
    RegionTable low high where
  region := Function.update table.region new.name (some new)
  name_eq := by
    intro name entered hregion
    rcases region_of_enter hregion with ⟨rfl, rfl⟩ | ⟨-, hkept⟩
    · rfl
    · exact table.name_eq hkept
  within := by
    intro name entered hregion
    rcases region_of_enter hregion with ⟨-, rfl⟩ | ⟨-, hkept⟩
    · exact hwithin
    · exact table.within hkept
  slot_ne := by
    intro name other entered met hne hentered hmet
    rcases region_of_enter hentered with ⟨rfl, rfl⟩ | ⟨-, hkept⟩
    · rcases region_of_enter hmet with ⟨rfl, -⟩ | ⟨-, hheld⟩
      · exact absurd rfl hne
      · exact (hslot hheld).symm
    · rcases region_of_enter hmet with ⟨-, rfl⟩ | ⟨-, hheld⟩
      · exact hslot hkept
      · exact table.slot_ne hne hkept hheld
  apart := by
    intro name other entered met hne hentered hmet
    rcases region_of_enter hentered with ⟨rfl, rfl⟩ | ⟨-, hkept⟩
    · rcases region_of_enter hmet with ⟨rfl, -⟩ | ⟨-, hheld⟩
      · exact absurd rfl hne
      · exact (hapart hheld).symm
    · rcases region_of_enter hmet with ⟨-, rfl⟩ | ⟨-, hheld⟩
      · exact hapart hkept
      · exact table.apart hne hkept hheld

/-- What is left in a table once a name was struck out. -/
theorem region_of_strike {table : RegionTable low high} {name other : String}
    {entered : RegionHandle}
    (hregion : Function.update table.region name none other = some entered) :
    table.region other = some entered := by
  by_cases hname : other = name
  · subst hname
    rw [Function.update_self] at hregion
    cases hregion
  · rwa [Function.update_of_ne hname] at hregion

/-- A name is struck out. -/
def strike (table : RegionTable low high) (name : String) : RegionTable low high where
  region := Function.update table.region name none
  name_eq := fun hregion ↦ table.name_eq (region_of_strike hregion)
  within := fun hregion ↦ table.within (region_of_strike hregion)
  slot_ne := fun hne hentered hmet ↦
    table.slot_ne hne (region_of_strike hentered) (region_of_strike hmet)
  apart := fun hne hentered hmet ↦
    table.apart hne (region_of_strike hentered) (region_of_strike hmet)

/-- A region is found under its own name only. -/
theorem region_name (table : RegionTable low high) {name : String} {entered : RegionHandle}
    (hregion : table.region name = some entered) : table.region entered.name = some entered := by
  rwa [table.name_eq hregion]

end RegionTable

/-! ### The table of a history -/

/-- What an answer grants or takes back. -/
def AllocAnswer.grant (regions : String → Option RegionHandle) :
    AllocRequest × AllocAnswer → String → Option RegionHandle
  | (.createRegion name _, .created (.ok region)) => Function.update regions name (some region)
  | (.freeRegion name, .freed (.ok ())) => Function.update regions name none
  | _ => regions

/-- The region that `create_region` last returned for every name not freed since. -/
def granted (history : List (AllocRequest × AllocAnswer)) : String → Option RegionHandle :=
  history.foldl AllocAnswer.grant fun _ ↦ none

/-- Whether a call returned an error. -/
def AllocAnswer.IsError : AllocAnswer → Prop
  | .ready result => ∃ error, result = .error error
  | .created result => ∃ error, result = .error error
  | .freed result => ∃ error, result = .error error
  | .found result => ∃ error, result = .error error
  | .listed _ => False
  | .recovered _ => False

end Fence
