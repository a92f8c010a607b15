import Fence.Protocol.Credits
import Mathlib.Algebra.Order.BigOperators.Group.Finset

/-!
# Counters while calls run

As long as no total leaves the range of a word, the counters of the hosts add up to what the calls
have been credited with, not only modulo that range (`Tallied`), and no counter ever goes down
(`Tallied.run`). Calls of all kinds run here, statistics as well, which are credited with nothing.
-/

set_option autoImplicit false
set_option relaxedAutoImplicit false

namespace Fence

open ByteMemory Interleaving

variable {checked : Bool} {g : PoolGeometry} {hasher : Hasher} {memory later : Memory}

/-! ### Sums of counters -/

theorem sumOf_mono {counters others : ℕ → ℕ → ℕ} {hosts field : ℕ}
    (hle : ∀ hostId < hosts, counters hostId field ≤ others hostId field) :
    sumOf counters hosts field ≤ sumOf others hosts field :=
  Finset.sum_le_sum fun hostId hmem ↦ hle hostId (Finset.mem_range.mp hmem)

/-- An increment within the range of a word adds its amount to the sum, and no counter goes down. -/
theorem sumOf_bump {counters : ℕ → ℕ → ℕ} {hosts field : ℕ} {increment : Increment}
    (hhost : increment.hostId.toNat < hosts)
    (hfits : sumOf counters hosts field + amountOf field [increment] < 2 ^ 64) :
    (∀ hostId < hosts, counters hostId field ≤ bump counters increment hostId field) ∧
      sumOf (bump counters increment) hosts field =
        sumOf counters hosts field + amountOf field [increment] := by
  have hamount : amountOf field [increment] =
      if increment.field = field then increment.amount else 0 := Nat.add_zero _
  have hbump : ∀ hostId < hosts, bump counters increment hostId field = counters hostId field +
      if hostId = increment.hostId.toNat then amountOf field [increment] else 0 := by
    intro hostId hlt
    have hsingle : counters hostId field ≤ sumOf counters hosts field :=
      Finset.single_le_sum (f := fun host ↦ counters host field) (fun _ _ ↦ Nat.zero_le _)
        (Finset.mem_range.mpr hlt)
    rw [hamount] at hfits ⊢
    unfold bump
    by_cases hsame : hostId = increment.hostId.toNat
    · by_cases hfield : increment.field = field
      · rw [if_pos ⟨hsame, hfield.symm⟩, if_pos hsame, if_pos hfield]
        rw [if_pos hfield] at hfits
        exact Nat.mod_eq_of_lt (by omega)
      · rw [if_neg fun hboth ↦ hfield hboth.2.symm, if_pos hsame, if_neg hfield, Nat.add_zero]
    · rw [if_neg fun hboth ↦ hsame hboth.1, if_neg hsame, Nat.add_zero]
  constructor
  · intro hostId hlt
    rw [hbump hostId hlt]
    exact Nat.le_add_right _ _
  · rw [sumOf, Finset.sum_congr rfl fun hostId hmem ↦ hbump hostId (Finset.mem_range.mp hmem),
      Finset.sum_add_distrib, Finset.sum_ite_eq', if_pos (Finset.mem_range.mpr hhost), sumOf]

/-- Increments within the range of a word add their amounts. -/
theorem sumOf_foldl_bump {hosts field : ℕ} {increments : List Increment}
    (hhosts : ∀ increment ∈ increments, increment.hostId.toNat < hosts) {counters : ℕ → ℕ → ℕ}
    (hfits : sumOf counters hosts field + amountOf field increments < 2 ^ 64) :
    (∀ hostId < hosts, counters hostId field ≤ increments.foldl bump counters hostId field) ∧
      sumOf (increments.foldl bump counters) hosts field =
        sumOf counters hosts field + amountOf field increments := by
  induction increments generalizing counters with
  | nil => exact ⟨fun _ _ ↦ Nat.le_refl _, rfl⟩
  | cons increment rest ih =>
    have hsplit : amountOf field (increment :: rest) =
        amountOf field [increment] + amountOf field rest := amountOf_append field [increment] rest
    rw [hsplit] at hfits ⊢
    obtain ⟨hrises, hsum⟩ := @sumOf_bump counters hosts field increment
      (hhosts increment List.mem_cons_self) (by omega)
    obtain ⟨hmore, hrest⟩ := ih (fun other hmem ↦ hhosts other (List.mem_cons_of_mem _ hmem))
      (by rw [hsum]; omega : sumOf (bump counters increment) hosts field + _ < 2 ^ 64)
    refine ⟨fun hostId hlt ↦ (hrises hostId hlt).trans (hmore hostId hlt), ?_⟩
    rw [List.foldl_cons, hrest, hsum, Nat.add_assoc]

/-- What increments of hosts of the pool do to its counters. -/
theorem Counted.sumOf_eq {increments : List Increment}
    (hcounted : Counted g increments memory later)
    (hhosts : ∀ increment ∈ increments, increment.hostId.toNat < g.maxHosts) {field : ℕ}
    (hfield : field ∈ metricsFields)
    (hfits : sumOf (counter g memory) g.maxHosts field + amountOf field increments < 2 ^ 64) :
    (∀ hostId < g.maxHosts, counter g memory hostId field ≤ counter g later hostId field) ∧
      sumOf (counter g later) g.maxHosts field =
        sumOf (counter g memory) g.maxHosts field + amountOf field increments := by
  obtain ⟨hrises, hsum⟩ := sumOf_foldl_bump hhosts hfits
  constructor
  · intro hostId hlt
    rw [hcounted hostId field hfield]
    exact hrises hostId hlt
  · rw [← hsum]
    exact Finset.sum_congr rfl fun hostId _ ↦ hcounted hostId field hfield

/-! ### Calls of all kinds -/

/-- What a call has added to a field so far. -/
def ServiceCall.credit (field : ℕ) : ServiceCall → ℕ
  | .operation call => call.credit field
  | .statistics _ => 0

/-- What the next step of a call adds to the counters. -/
def ServiceCall.increments : ServiceCall → List Increment
  | .operation call => call.increments
  | .statistics _ => []

/-- Statistics leave the memory as it is. -/
theorem Metrics.readStats_exec (point : StatsPoint) (memory : Memory) :
    ((Metrics.readStats checked g point).exec memory).2 = memory := by
  cases point <;> rfl

theorem ServiceCall.credit_step (field : ℕ) (call : ServiceCall) (memory : Memory) :
    (call.step checked g hasher memory).1.credit field =
      call.credit field + amountOf field call.increments := by
  rcases call with call | point | stats
  · rw [ServiceCall.step_operation]
    exact Call.credit_step field call memory
  · rw [ServiceCall.step_statistics]
    rfl
  · rfl

theorem ServiceCall.step_counted {call : ServiceCall} (hcall : call.Bounded g) (memory : Memory) :
    Counted g call.increments memory (call.step checked g hasher memory).2 := by
  rcases call with call | point | stats
  · rw [ServiceCall.step_operation]
    exact Call.step_counted hcall memory
  · rw [ServiceCall.step_statistics, Metrics.readStats_exec]
    exact .refl memory
  · exact .refl memory

theorem ServiceCall.host_lt_of_mem_increments {call : ServiceCall} (hcall : call.Bounded g)
    {increment : Increment} (hmem : increment ∈ call.increments) :
    increment.hostId.toNat < g.maxHosts := by
  cases call with
  | operation call => exact Call.host_lt_of_mem_increments hcall hmem
  | statistics task => cases hmem

theorem ServiceRequest.credit_start {field : ℕ} (request : ServiceRequest) :
    (request.start g).credit field = 0 := by
  cases request with
  | operation request => exact request.credit_call
  | statistics => rfl

/-! ### Runs -/

/-- What the calls have added to a field so far. -/
def credited (field : ℕ) (config : Config ServiceCall Memory) : ℕ :=
  totalWeight (ServiceCall.credit field) config.threads

/-- What the next step of a call adds goes to its credit. -/
theorem credited_set {config : Config ServiceCall Memory} {index : ℕ} {call : ServiceCall}
    (hcall : config.threads[index]? = some call) (field : ℕ) :
    credited field ⟨(call.step checked g hasher config.shared).2,
      config.threads.set index (call.step checked g hasher config.shared).1⟩ =
        credited field config + amountOf field call.increments := by
  have hset := totalWeight_set (ServiceCall.credit field) hcall
    (call.step checked g hasher config.shared).1
  rw [ServiceCall.credit_step] at hset
  show totalWeight (ServiceCall.credit field) (config.threads.set index _) =
    totalWeight (ServiceCall.credit field) config.threads + _
  omega

theorem credited_start {config : Config ServiceCall Memory} (request : ServiceRequest)
    (field : ℕ) : credited field ((serviceMachine checked g hasher).apply config (.start request)) =
      credited field config := by
  rw [credited, Machine.apply, totalWeight_append]
  exact congrArg (credited field config + ·) ((Nat.add_zero _).trans request.credit_start)

/-- Credits only grow. -/
theorem credited_le_apply (field : ℕ) (config : Config ServiceCall Memory)
    (action : Action ServiceRequest Empty) :
    credited field config ≤ credited field
      ((serviceMachine checked g hasher).apply config action) := by
  cases action with
  | env event => exact event.elim
  | start request => exact Nat.le_of_eq (credited_start request field).symm
  | step index =>
    cases hcall : config.threads[index]? with
    | none => rw [apply_step_of_none _ hcall]
    | some call =>
      rw [apply_step_of_getElem? _ hcall]
      exact (Nat.le_add_right _ _).trans_eq (credited_set hcall field).symm

theorem credited_le_run (field : ℕ) (config : Config ServiceCall Memory)
    (schedule : List (Action ServiceRequest Empty)) :
    credited field config ≤ credited field
      ((serviceMachine checked g hasher).run schedule config) :=
  invariant_run_always (fun reached ↦ credited field config ≤ credited field reached)
    (fun reached action hle ↦ hle.trans (credited_le_apply field reached action)) schedule
      (Nat.le_refl _)

/-- The counters of the hosts add up to what the calls have been credited with. -/
structure Tallied (g : PoolGeometry) (config : Config ServiceCall Memory) : Prop
    extends Contained g config where
  exact : ∀ field ∈ metricsFields,
    sumOf (counter g config.shared) g.maxHosts field = credited field config

/-- No counter of a host is lower in the second memory. -/
def CountersRise (g : PoolGeometry) (memory later : Memory) : Prop :=
  ∀ field ∈ metricsFields, ∀ hostId < g.maxHosts,
    counter g memory hostId field ≤ counter g later hostId field

/-- No total of the calls is out of the range of a counter. -/
def CreditsFit (config : Config ServiceCall Memory) : Prop :=
  ∀ field ∈ metricsFields, credited field config < 2 ^ 64

theorem Tallied.apply {config : Config ServiceCall Memory} (htallied : Tallied g config)
    {action : Action ServiceRequest Empty} (haction : FromHosts g action)
    (hfits : CreditsFit ((serviceMachine checked g hasher).apply config action)) :
    Tallied g ((serviceMachine checked g hasher).apply config action) ∧
      CountersRise g config.shared
        ((serviceMachine checked g hasher).apply config action).shared := by
  have hcontained : Contained g ((serviceMachine checked g hasher).apply config action) :=
    htallied.toContained.apply haction
  cases action with
  | env event => exact event.elim
  | start request =>
    refine ⟨⟨hcontained, fun field hfield ↦ ?_⟩, fun _ _ _ _ ↦ Nat.le_refl _⟩
    rw [credited_start]
    exact htallied.exact field hfield
  | step index =>
    cases hcall : config.threads[index]? with
    | none =>
      rw [apply_step_of_none _ hcall]
      exact ⟨htallied, fun _ _ _ _ ↦ Nat.le_refl _⟩
    | some call =>
      rw [apply_step_of_getElem? _ hcall] at hcontained hfits ⊢
      have hbounded := htallied.bounded call (List.mem_of_getElem? hcall)
      have hsum : ∀ field ∈ metricsFields, _ := fun field hfield ↦
        (@ServiceCall.step_counted checked g hasher call hbounded config.shared).sumOf_eq
          (fun _ hmem ↦ ServiceCall.host_lt_of_mem_increments hbounded hmem) hfield (by
            rw [htallied.exact field hfield, ← credited_set hcall field]
            exact hfits field hfield)
      refine ⟨⟨hcontained, fun field hfield ↦ ?_⟩, fun field hfield ↦ (hsum field hfield).1⟩
      refine ((hsum field hfield).2.trans ?_).trans (credited_set hcall field).symm
      rw [htallied.exact field hfield]

/-- As long as the totals fit, the counters are exact and never go down. -/
theorem Tallied.run {config : Config ServiceCall Memory} (htallied : Tallied g config)
    {schedule : List (Action ServiceRequest Empty)}
    (hhosts : ∀ action ∈ schedule, FromHosts g action)
    (hfits : CreditsFit ((serviceMachine checked g hasher).run schedule config)) :
    Tallied g ((serviceMachine checked g hasher).run schedule config) ∧
      CountersRise g config.shared
        ((serviceMachine checked g hasher).run schedule config).shared := by
  induction schedule generalizing config with
  | nil => exact ⟨htallied, fun _ _ _ _ ↦ Nat.le_refl _⟩
  | cons action rest ih =>
    rw [run_cons] at hfits ⊢
    obtain ⟨hnext, hfirst⟩ := htallied.apply (hhosts action List.mem_cons_self)
      fun field hfield ↦ (credited_le_run field _ rest).trans_lt (hfits field hfield)
    obtain ⟨hlast, hrest⟩ := ih hnext
      (fun other hmem ↦ hhosts other (List.mem_cons_of_mem _ hmem)) hfits
    exact ⟨hlast, fun field hfield hostId hlt ↦
      (hfirst field hfield hostId hlt).trans (hrest field hfield hostId hlt)⟩

end Fence
