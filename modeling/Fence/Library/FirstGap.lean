import Mathlib.Algebra.Order.Ring.Nat
import Mathlib.Tactic.Common

/-!
# The first gap of a predicate

`firstGap holds bound start` is where a scan that starts at `start`, goes on as long as `holds`
and stops at `bound` ends up. A start at or past the bound is returned as it is. The place is
characterised by three facts, `le_firstGap`, `holds_of_lt_firstGap` and `not_holds_firstGap`, and
`eq_firstGap` says that they determine it.
-/

set_option autoImplicit false
set_option relaxedAutoImplicit false

namespace FirstGap

variable (holds : ℕ → Prop) [DecidablePred holds]

/-- The scan for at most `fuel` places. -/
def scan : ℕ → ℕ → ℕ
  | 0, start => start
  | fuel + 1, start => if holds start then scan fuel (start + 1) else start

/-- The first place from `start` on, below `bound`, where the predicate fails. -/
def firstGap (bound start : ℕ) : ℕ := scan holds (bound - start) start

variable {holds} {bound start : ℕ}

theorem le_scan (fuel start : ℕ) : start ≤ scan holds fuel start := by
  induction fuel generalizing start with
  | zero => exact Nat.le_refl _
  | succ fuel ih =>
    unfold scan
    split_ifs
    · exact Nat.le_trans (Nat.le_succ _) (ih (start + 1))
    · exact Nat.le_refl _

theorem scan_le (fuel start : ℕ) : scan holds fuel start ≤ start + fuel := by
  induction fuel generalizing start with
  | zero => exact Nat.le_refl _
  | succ fuel ih =>
    have hrest := ih (start + 1)
    unfold scan
    split_ifs <;> omega

theorem holds_of_lt_scan {fuel start place : ℕ} (hlow : start ≤ place)
    (hhigh : place < scan holds fuel start) : holds place := by
  induction fuel generalizing start with
  | zero => exact absurd hhigh (Nat.not_lt.mpr hlow)
  | succ fuel ih =>
    unfold scan at hhigh
    split_ifs at hhigh with hstart
    · rcases Nat.eq_or_lt_of_le hlow with rfl | hlt
      · exact hstart
      · exact ih hlt hhigh
    · exact absurd hhigh (Nat.not_lt.mpr hlow)

theorem not_holds_scan {fuel start : ℕ} (hroom : scan holds fuel start < start + fuel) :
    ¬ holds (scan holds fuel start) := by
  induction fuel generalizing start with
  | zero => exact absurd hroom (Nat.lt_irrefl _)
  | succ fuel ih =>
    unfold scan at hroom ⊢
    split_ifs at hroom ⊢ with hstart
    · exact ih (by omega)
    · exact hstart

theorem le_firstGap : start ≤ firstGap holds bound start := le_scan _ _

theorem firstGap_le : firstGap holds bound start ≤ max start bound := by
  have hle : scan holds (bound - start) start ≤ start + (bound - start) := scan_le _ _
  unfold firstGap
  omega

theorem holds_of_lt_firstGap {place : ℕ} (hlow : start ≤ place)
    (hhigh : place < firstGap holds bound start) : holds place :=
  holds_of_lt_scan hlow hhigh

theorem not_holds_firstGap (hroom : firstGap holds bound start < bound) :
    ¬ holds (firstGap holds bound start) := by
  have hstart : start ≤ firstGap holds bound start := le_firstGap
  apply not_holds_scan
  unfold firstGap at hroom hstart
  omega

/-- The place is the only one that all places before it lead to and that is a gap or the
bound. -/
theorem eq_firstGap {place : ℕ} (hlow : start ≤ place) (hhigh : place ≤ max start bound)
    (hbefore : ∀ between, start ≤ between → between < place → holds between)
    (hgap : place < bound → ¬ holds place) : place = firstGap holds bound start := by
  have hstart : start ≤ firstGap holds bound start := le_firstGap
  have hend : firstGap holds bound start ≤ max start bound := firstGap_le
  rcases Nat.lt_trichotomy place (firstGap holds bound start) with hlt | heq | hgt
  · exact absurd (holds_of_lt_firstGap hlow hlt) (hgap (by omega))
  · exact heq
  · exact absurd (hbefore _ hstart hgt) (not_holds_firstGap (by omega))

/-- A place on the way to the first gap that is a gap or the bound is the first gap. -/
theorem eq_firstGap_of_le {place : ℕ} (hlow : start ≤ place)
    (hhigh : place ≤ firstGap holds bound start) (hgap : place < bound → ¬ holds place) :
    place = firstGap holds bound start := by
  have hend : firstGap holds bound start ≤ max start bound := firstGap_le
  refine eq_firstGap hlow (Nat.le_trans hhigh hend) ?_ hgap
  intro between hbetween hbelow
  exact holds_of_lt_firstGap hbetween (Nat.lt_of_lt_of_le hbelow hhigh)

/-- A start at or past the bound is returned. -/
theorem firstGap_of_le (hbound : bound ≤ start) : firstGap holds bound start = start :=
  (eq_firstGap (Nat.le_refl _) (Nat.le_max_left _ _)
    (fun _ hlow hhigh ↦ absurd hhigh (Nat.not_lt.mpr hlow))
    (fun hroom ↦ absurd hroom (Nat.not_lt.mpr hbound))).symm

/-- A place below the bound lies before the first gap when everything up to it holds. -/
theorem lt_firstGap_iff {place : ℕ} (hplace : place < bound) :
    place < firstGap holds bound start ↔
      ∀ between, start ≤ between → between ≤ place → holds between := by
  constructor
  · intro hlt between hlow hhigh
    exact holds_of_lt_firstGap hlow (Nat.lt_of_le_of_lt hhigh hlt)
  · intro hall
    by_contra hge
    have hle : firstGap holds bound start ≤ place := Nat.le_of_not_lt hge
    exact not_holds_firstGap (Nat.lt_of_le_of_lt hle hplace) (hall _ le_firstGap hle)

end FirstGap
