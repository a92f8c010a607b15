import Fence.Protocol.Counters
import Fence.Runtime.Service
import Mathlib.Algebra.BigOperators.Ring.Finset
import Mathlib.Algebra.Order.BigOperators.Group.Finset

/-!
# A statistics call that runs alone

A statistics call adds up every counter over all hosts (`statistics_ends`). `statsResult` is what
comes of that, for any table of counters: the sums modulo the range of a word, or a panic when one
of them is out of that range and the build checks for it. An increment moves the total of its field
on when it is one of a host of the pool (`total_foldl_bump`).
-/

set_option autoImplicit false
set_option relaxedAutoImplicit false

namespace Fence

open ByteMemory Interleaving

variable {checked : Bool} {g : PoolGeometry} {hasher : Hasher} {memory : Memory}

/-! ### Totals -/

/-- A counter added up over the first hosts. -/
def sumOf (counters : ℕ → ℕ → ℕ) (hosts field : ℕ) : ℕ :=
  ∑ hostId ∈ Finset.range hosts, counters hostId field

/-- A counter summed over hosts, as far as a word goes. -/
def total (hosts : ℕ) (counters : ℕ → ℕ → ℕ) (field : ℕ) : ℕ :=
  sumOf counters hosts field % 2 ^ 64

/-- The statistics with given totals. -/
def statsOf (totals : ℕ → ℕ) : PoolStats where
  appendsTotal := totals metricsAppendsTotal
  appendsFailed := totals metricsAppendsFailed
  bytesWritten := totals metricsBytesWritten
  readsTotal := totals metricsReadsTotal
  checksumFailures := totals metricsChecksumFailures
  recoveryRuns := totals metricsRecoveryRuns
  abandonedFound := totals metricsAbandonedFound

/-- The totals after an increment. -/
def bumpTotal (hosts : ℕ) (totals : ℕ → ℕ) (increment : Increment) : ℕ → ℕ := fun field ↦
  if increment.hostId.toNat < hosts ∧ field = increment.field then
    (totals field + increment.amount) % 2 ^ 64
  else totals field

/-- What a statistics call returns that runs alone: the totals, or nothing when a sum is out of the
range of a word in a build that checks for it. -/
def statsResult (checked : Bool) (hosts : ℕ) (counters : ℕ → ℕ → ℕ) : Option PoolStats :=
  if checked = true ∧ ∃ field ∈ metricsFields, 2 ^ 64 ≤ sumOf counters hosts field then none
  else some (statsOf (total hosts counters))

theorem sumOf_succ (counters : ℕ → ℕ → ℕ) (hosts field : ℕ) :
    sumOf counters (hosts + 1) field = sumOf counters hosts field + counters hosts field :=
  Finset.sum_range_succ _ _

theorem sumOf_le {counters : ℕ → ℕ → ℕ} {hosts others field : ℕ} (hle : hosts ≤ others) :
    sumOf counters hosts field ≤ sumOf counters others field :=
  Finset.sum_le_sum_of_subset (Finset.range_mono hle)

theorem sumOf_congr {counters others : ℕ → ℕ → ℕ} {hosts field : ℕ}
    (hsame : ∀ hostId < hosts, counters hostId field = others hostId field) :
    sumOf counters hosts field = sumOf others hosts field :=
  Finset.sum_congr rfl fun hostId hmem ↦ hsame hostId (Finset.mem_range.mp hmem)

theorem total_succ (hosts : ℕ) (counters : ℕ → ℕ → ℕ) (field : ℕ) :
    total (hosts + 1) counters field =
      (total hosts counters field + counters hosts field) % 2 ^ 64 := by
  rw [total, total, sumOf_succ, Nat.mod_add_mod]

/-- An increment moves the total of its field on. -/
theorem total_bump (hosts : ℕ) (counters : ℕ → ℕ → ℕ) (increment : Increment) :
    total hosts (bump counters increment) = bumpTotal hosts (total hosts counters) increment := by
  funext field
  induction hosts with
  | zero => simp [total, sumOf, bumpTotal]
  | succ hosts ih =>
    rw [total_succ, ih]
    unfold bumpTotal bump
    rw [total_succ]
    by_cases hfield : field = increment.field
    · rcases Nat.lt_trichotomy increment.hostId.toNat hosts with hlt | heq | hgt
      · rw [if_pos ⟨hlt, hfield⟩, if_neg (by omega), if_pos ⟨by omega, hfield⟩]
        omega
      · rw [if_neg (by omega), if_pos ⟨heq.symm, hfield⟩, if_pos ⟨by omega, hfield⟩]
        omega
      · rw [if_neg (by omega), if_neg (by omega), if_neg (by omega)]
    · rw [if_neg fun h ↦ hfield h.2, if_neg fun h ↦ hfield h.2, if_neg fun h ↦ hfield h.2]

theorem total_foldl_bump (hosts : ℕ) (increments : List Increment) (counters : ℕ → ℕ → ℕ) :
    total hosts (increments.foldl bump counters) =
      increments.foldl (bumpTotal hosts) (total hosts counters) := by
  induction increments generalizing counters with
  | nil => rfl
  | cons increment rest ih => rw [List.foldl_cons, ih, total_bump, List.foldl_cons]

/-- What increments do to the totals of a memory. -/
theorem Counted.total_eq {increments : List Increment} {later : Memory}
    (hcounted : Counted g increments memory later) {field : ℕ} (hfield : field ∈ metricsFields) :
    total g.maxHosts (counter g later) field =
      increments.foldl (bumpTotal g.maxHosts) (total g.maxHosts (counter g memory)) field := by
  rw [← total_foldl_bump, total, total]
  exact congrArg (· % 2 ^ 64) (sumOf_congr fun hostId _ ↦ hcounted hostId field hfield)

/-- Totals that agree on the counters agree on them after increments. -/
theorem bumpTotal_congr (hosts : ℕ) {totals others : ℕ → ℕ}
    (hsame : ∀ field ∈ metricsFields, totals field = others field) (increments : List Increment)
    {field : ℕ} (hfield : field ∈ metricsFields) :
    increments.foldl (bumpTotal hosts) totals field =
      increments.foldl (bumpTotal hosts) others field := by
  induction increments generalizing totals others with
  | nil => exact hsame field hfield
  | cons increment rest ih =>
    refine ih fun held hheld ↦ ?_
    simp only [bumpTotal, hsame held hheld]

/-- Statistics are equal when their totals agree on the counters. -/
theorem statsOf_inj {totals others : ℕ → ℕ} :
    statsOf totals = statsOf others ↔ ∀ field ∈ metricsFields, totals field = others field := by
  simp [statsOf, metricsFields]

/-! ### The call -/

theorem statistics_ends_step {point : StatsPoint} {result : ServiceCall} {later : Memory}
    (hends : (serviceMachine checked g hasher).Ends
      (.statistics ((Metrics.readStats checked g point).exec memory).1)
      ((Metrics.readStats checked g point).exec memory).2 result later) :
    (serviceMachine checked g hasher).Ends (.statistics (.running point)) memory result later :=
  .of_step (@ServiceCall.step_statistics checked g hasher point memory) hends

/-- What comes of an addition: the call goes on, or panics. -/
theorem statistics_ends_add {sum value : ℕ} {next : ℕ → Task StatsPoint (Option PoolStats)}
    {result : Option PoolStats}
    (hpanics : checked = true → 2 ^ 64 ≤ sum + value → result = none)
    (hnext : (checked = true → sum + value < 2 ^ 64) → (serviceMachine checked g hasher).Ends
      (.statistics (next ((sum + value) % 2 ^ 64))) memory (.statistics (.returned result))
      memory) :
    (serviceMachine checked g hasher).Ends (.statistics (StatsPoint.add checked sum value next))
      memory (.statistics (.returned result)) memory := by
  rw [StatsPoint.add, addU64]
  split_ifs with hpanic
  · rw [hpanics hpanic.1 hpanic.2]
    exact .refl _ _
  · refine hnext fun hchecked ↦ ?_
    by_contra hfits
    exact hpanic ⟨hchecked, Nat.le_of_not_lt hfits⟩

/-- A sum in the range of a word is taken on in every build. -/
theorem StatsPoint.add_of_fits {sum value : ℕ} (hfits : sum + value < 2 ^ 64)
    (next : ℕ → Task StatsPoint (Option PoolStats)) :
    StatsPoint.add checked sum value next = next (sum + value) := by
  have hno : ¬ (checked = true ∧ 2 ^ 64 ≤ sum + value) := fun hover ↦ Nat.not_le.mpr hfits hover.2
  rw [StatsPoint.add, addU64, if_neg hno, Nat.mod_eq_of_lt hfits]
  rfl

/-- The loop over the hosts, from one host on. -/
theorem statistics_head_ends (fuel : ℕ) {hostId : ℕ} (hfuel : g.maxHosts - hostId = fuel)
    (hhost : hostId ≤ g.maxHosts)
    (hfits : checked = true → ∀ field ∈ metricsFields,
      sumOf (counter g memory) hostId field < 2 ^ 64) :
    (serviceMachine checked g hasher).Ends
      (.statistics (StatsPoint.head g hostId (statsOf (total hostId (counter g memory))))) memory
      (.statistics (.returned (statsResult checked g.maxHosts (counter g memory)))) memory := by
  induction fuel generalizing hostId with
  | zero =>
    obtain rfl : hostId = g.maxHosts := by omega
    have hno : ¬ (checked = true ∧ ∃ field ∈ metricsFields,
        2 ^ 64 ≤ sumOf (counter g memory) g.maxHosts field) := by
      rintro ⟨hchecked, field, hfield, hover⟩
      exact Nat.not_le.mpr (hfits hchecked field hfield) hover
    rw [StatsPoint.head, if_neg (Nat.lt_irrefl _), statsResult, if_neg hno]
    exact .refl _ _
  | succ fuel ih =>
    have hbelow : hostId < g.maxHosts := by omega
    have hexact : checked = true → ∀ field ∈ metricsFields,
        total hostId (counter g memory) field = sumOf (counter g memory) hostId field :=
      fun hchecked field hfield ↦ Nat.mod_eq_of_lt (hfits hchecked field hfield)
    -- a sum that is out of range for the hosts so far is so for all of them
    have hpanics : ∀ field ∈ metricsFields, checked = true →
        2 ^ 64 ≤ total hostId (counter g memory) field + counter g memory hostId field →
          statsResult checked g.maxHosts (counter g memory) = none := by
      intro field hfield hchecked hover
      rw [hexact hchecked field hfield, ← sumOf_succ] at hover
      rw [statsResult, if_pos ⟨hchecked, field, hfield, hover.trans (sumOf_le hbelow)⟩]
    have hrest := fun hmore ↦ ih (by omega : g.maxHosts - (hostId + 1) = fuel) hbelow hmore
    rw [statsOf] at hrest
    simp only [total_succ] at hrest
    rw [StatsPoint.head, if_pos hbelow]
    refine statistics_ends_step (statistics_ends_add (hpanics _ (by decide)) fun hfirst ↦ ?_)
    refine statistics_ends_step (statistics_ends_add (hpanics _ (by decide)) fun hsecond ↦ ?_)
    refine statistics_ends_step (statistics_ends_add (hpanics _ (by decide)) fun hthird ↦ ?_)
    refine statistics_ends_step (statistics_ends_add (hpanics _ (by decide)) fun hfourth ↦ ?_)
    refine statistics_ends_step (statistics_ends_add (hpanics _ (by decide)) fun hfifth ↦ ?_)
    refine statistics_ends_step (statistics_ends_add (hpanics _ (by decide)) fun hsixth ↦ ?_)
    refine statistics_ends_step (statistics_ends_add (hpanics _ (by decide)) fun hseventh ↦ ?_)
    refine hrest fun hchecked field hfield ↦ ?_
    rw [sumOf_succ, ← hexact hchecked field hfield]
    simp only [metricsFields, List.mem_cons, List.not_mem_nil, or_false] at hfield
    rcases hfield with rfl | rfl | rfl | rfl | rfl | rfl | rfl
    · exact hfirst hchecked
    · exact hsecond hchecked
    · exact hthird hchecked
    · exact hfourth hchecked
    · exact hfifth hchecked
    · exact hsixth hchecked
    · exact hseventh hchecked

/-- What a statistics call returns that runs alone. It leaves the memory as it is. -/
theorem statistics_ends (checked : Bool) (g : PoolGeometry) (hasher : Hasher) (memory : Memory) :
    (serviceMachine checked g hasher).Ends (ServiceRequest.start g .statistics) memory
      (.statistics (.returned (statsResult checked g.maxHosts (counter g memory)))) memory :=
  statistics_head_ends _ rfl (Nat.zero_le _) fun _ _ _ ↦ Nat.two_pow_pos 64

end Fence
