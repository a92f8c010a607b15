import Fence.Library.Moments
import Fence.Properties.LayoutSeparation
import Fence.Properties.ReserveWrap
import Fence.Protocol.CounterRuns

/-!
# Statistics while calls run

A statistics call reads one counter after the other, host by host, while other calls move them on.
What it has added up at any moment lies between the sums of the counters when it began and their
sums now, over the hosts it has read (`Gathers`). So what it returns counts everything that calls
had added when it began, and nothing that they have not added when it returns
(`statistics_between`).
-/

set_option autoImplicit false
set_option relaxedAutoImplicit false

namespace Fence

open ByteMemory Interleaving

variable {checked : Bool} {g : PoolGeometry} {hasher : Hasher} {memory : Memory}
  {low high higher : ℕ → ℕ → ℕ}

/-! ### A call in flight -/

/-- What a statistics call in flight has added up. -/
def StatsPoint.stats : StatsPoint → PoolStats
  | .loadAppendsTotal _ stats | .loadAppendsFailed _ stats | .loadBytesWritten _ stats
  | .loadReadsTotal _ stats | .loadChecksumFailures _ stats | .loadRecoveryRuns _ stats
  | .loadAbandonedFound _ stats => stats

/-- How many counters of its host a statistics call in flight has read. -/
def StatsPoint.place : StatsPoint → ℕ
  | .loadAppendsTotal _ _ => 0
  | .loadAppendsFailed _ _ => 1
  | .loadBytesWritten _ _ => 2
  | .loadReadsTotal _ _ => 3
  | .loadChecksumFailures _ _ => 4
  | .loadRecoveryRuns _ _ => 5
  | .loadAbandonedFound _ _ => 6

theorem StatsPoint.place_lt (point : StatsPoint) : point.place < metricsFields.length := by
  cases point <;> simp [StatsPoint.place, metricsFields]

/-- Of how many hosts a counter was read. -/
def hostsRead (hostId place field : ℕ) : ℕ :=
  if field ∈ metricsFields.take place then hostId + 1 else hostId

/-- One more counter of the host is read. -/
theorem hostsRead_succ {hostId place field : ℕ} (hplace : place < metricsFields.length) :
    hostsRead hostId (place + 1) field =
      if field = metricsFields[place] then hostId + 1 else hostsRead hostId place field := by
  have hmem : field ∈ metricsFields.take (place + 1) ↔
      field ∈ metricsFields.take place ∨ field = metricsFields[place] := by
    rw [List.take_succ_eq_append_getElem hplace, List.mem_append, List.mem_singleton]
  unfold hostsRead
  by_cases hsame : field = metricsFields[place]
  · rw [if_pos hsame, if_pos (hmem.mpr (Or.inr hsame))]
  · rw [if_neg hsame, if_congr (hmem.trans (or_iff_left hsame)) rfl rfl]

theorem metricsFields_get_not_mem_take :
    ∀ place : Fin metricsFields.length, metricsFields.get place ∉ metricsFields.take place := by
  decide

theorem hostsRead_self {hostId place : ℕ} (hplace : place < metricsFields.length) :
    hostsRead hostId place metricsFields[place] = hostId :=
  if_neg (metricsFields_get_not_mem_take ⟨place, hplace⟩)

theorem hostsRead_length {hostId field : ℕ} (hfield : field ∈ metricsFields) :
    hostsRead hostId metricsFields.length field = hostId + 1 := by
  rw [hostsRead, List.take_length, if_pos hfield]

/-- Statistics between two sums of counters, each over as many hosts as were read. -/
def Gathers (low high : ℕ → ℕ → ℕ) (hosts : ℕ → ℕ) (stats : PoolStats) : Prop :=
  ∃ totals, stats = statsOf totals ∧ ∀ field ∈ metricsFields,
    sumOf low (hosts field) field ≤ totals field ∧ totals field ≤ sumOf high (hosts field) field

/-- A counter that is read is added, and the sum stays in the range of a word. -/
theorem Gathers.read {hostId place : ℕ} {totals : ℕ → ℕ} (hplace : place < metricsFields.length)
    (hbounds : ∀ field ∈ metricsFields,
      sumOf low (hostsRead hostId place field) field ≤ totals field ∧
        totals field ≤ sumOf high (hostsRead hostId place field) field)
    (hlow : low hostId metricsFields[place] ≤ high hostId metricsFields[place])
    (hfits : sumOf high (hostId + 1) metricsFields[place] < 2 ^ 64) :
    totals metricsFields[place] + high hostId metricsFields[place] < 2 ^ 64 ∧
      Gathers low high (hostsRead hostId (place + 1)) (statsOf (Function.update totals
        metricsFields[place] (totals metricsFields[place] + high hostId
          metricsFields[place]))) := by
  have hread := hbounds _ (List.getElem_mem hplace)
  rw [hostsRead_self hplace] at hread
  rw [sumOf_succ] at hfits
  refine ⟨by omega, _, rfl, fun field hfield ↦ ?_⟩
  rw [hostsRead_succ hplace]
  by_cases hsame : field = metricsFields[place]
  · subst hsame
    rw [if_pos rfl, Function.update_self, sumOf_succ, sumOf_succ]
    omega
  · rw [if_neg hsame, Function.update_of_ne hsame]
    exact hbounds field hfield

/-! ### The loop over the hosts -/

/-- A statistics call between two tables of counters. It has not panicked. -/
def GathersTask (g : PoolGeometry) (low high : ℕ → ℕ → ℕ) :
    Task StatsPoint (Option PoolStats) → Prop
  | .running point => point.hostId < g.maxHosts ∧
    Gathers low high (hostsRead point.hostId point.place) point.stats
  | .returned (some stats) => Gathers low high (fun _ ↦ g.maxHosts) stats
  | .returned none => False

/-- At the head of the loop all counters of the hosts before it were read. -/
theorem GathersTask.head {hostId : ℕ} {stats : PoolStats} (hbound : hostId ≤ g.maxHosts)
    (hgathers : Gathers low high (fun _ ↦ hostId) stats) :
    GathersTask g low high (StatsPoint.head g hostId stats) := by
  unfold StatsPoint.head
  split_ifs with hlt
  · exact ⟨hlt, hgathers⟩
  · obtain rfl : hostId = g.maxHosts := by omega
    exact hgathers

/-- A call that begins has added up nothing. -/
theorem GathersTask.start : GathersTask g low high (StatsPoint.head g 0 .default) :=
  .head (Nat.zero_le _) ⟨fun _ ↦ 0, rfl, fun _ _ ↦ ⟨Nat.le_refl _, Nat.zero_le _⟩⟩

theorem Gathers.mono {hosts : ℕ → ℕ} {stats : PoolStats}
    (hgathers : Gathers low high hosts stats) (hhosts : ∀ field, hosts field ≤ g.maxHosts)
    (hrise : ∀ field ∈ metricsFields, ∀ hostId < g.maxHosts,
      high hostId field ≤ higher hostId field) : Gathers low higher hosts stats := by
  obtain ⟨totals, hstats, hbounds⟩ := hgathers
  refine ⟨totals, hstats, fun field hfield ↦ ⟨(hbounds field hfield).1, ?_⟩⟩
  exact (hbounds field hfield).2.trans (sumOf_mono fun hostId hlt ↦
    hrise field hfield hostId (hlt.trans_le (hhosts field)))

/-- Counters that rise keep a call between them. -/
theorem GathersTask.mono {task : Task StatsPoint (Option PoolStats)}
    (hgathers : GathersTask g low high task)
    (hrise : ∀ field ∈ metricsFields, ∀ hostId < g.maxHosts,
      high hostId field ≤ higher hostId field) : GathersTask g low higher task := by
  cases task with
  | running point =>
    refine ⟨hgathers.1, hgathers.2.mono (fun field ↦ ?_) hrise⟩
    have hhost := hgathers.1
    unfold hostsRead
    split_ifs <;> omega
  | returned result =>
    cases result with
    | none => exact hgathers
    | some stats => exact Gathers.mono hgathers (fun _ ↦ Nat.le_refl _) hrise

/-- A step of a call adds a counter of the memory. -/
theorem GathersTask.step {point : StatsPoint}
    (hgathers : GathersTask g low (counter g memory) (.running point))
    (hlow : ∀ field ∈ metricsFields, ∀ hostId < g.maxHosts,
      low hostId field ≤ counter g memory hostId field)
    (hfits : ∀ field ∈ metricsFields, sumOf (counter g memory) g.maxHosts field < 2 ^ 64) :
    GathersTask g low (counter g memory) ((Metrics.readStats checked g point).exec memory).1 := by
  obtain ⟨hhost, totals, hstats, hbounds⟩ := hgathers
  have hplace := point.place_lt
  obtain ⟨hsum, hread⟩ := Gathers.read hplace hbounds (hlow _ (List.getElem_mem hplace) _ hhost)
    ((sumOf_le hhost).trans_lt (hfits _ (List.getElem_mem hplace)))
  have hadd := @StatsPoint.add_of_fits checked _ _ hsum
  cases point with
  | loadAbandonedFound hostId stats =>
    obtain rfl : stats = statsOf totals := hstats
    obtain ⟨later, hlater, hgathered⟩ := hread
    refine (congrArg _ (hadd _)).mpr (.head hhost ⟨later, hlater, fun field hfield ↦ ?_⟩)
    have hbound := hgathered field hfield
    rwa [← hostsRead_length hfield]
  | _ =>
    cases hstats
    exact (congrArg _ (hadd _)).mpr ⟨hhost, hread⟩

/-- The same of a call that may have returned. -/
theorem ServiceCall.gathers_step {call : ServiceCall} {task : Task StatsPoint (Option PoolStats)}
    (hstep : (call.step checked g hasher memory).1 = .statistics task)
    (hgathers : ∀ earlier, call = .statistics earlier →
      GathersTask g low (counter g memory) earlier)
    (hlow : ∀ field ∈ metricsFields, ∀ hostId < g.maxHosts,
      low hostId field ≤ counter g memory hostId field)
    (hfits : ∀ field ∈ metricsFields, sumOf (counter g memory) g.maxHosts field < 2 ^ 64) :
    GathersTask g low (counter g memory) task := by
  rcases call with call | point | stats
  · rw [ServiceCall.step_operation] at hstep
    cases hstep
  · rw [ServiceCall.step_statistics] at hstep
    obtain rfl := ServiceCall.statistics.inj hstep
    exact (hgathers _ rfl).step hlow hfits
  · exact hgathers task hstep

/-! ### Runs -/

theorem Tallied.fresh : Tallied g (freshService g) where
  toContained := .fresh g
  exact := by
    intro field hfield
    have hzero : sumOf (counter g (freshMemory g)) g.maxHosts field = 0 := by
      have hall : ∀ hostId held, counter g (fun _ ↦ 0) hostId held = 0 := fun hostId held ↦ by
        simp [counter, loadWord, load, leValue]
      refine Finset.sum_eq_zero fun hostId _ ↦ ?_
      exact ((Counted.createHeader fun _ ↦ 0) hostId field hfield).trans (hall hostId field)
    exact hzero

/-- At all times in a run a statistics call has added up what the hosts had counted when the run
began or later. -/
theorem Tallied.gathers {config : Config ServiceCall Memory} (htallied : Tallied g config)
    {schedule : List (Action ServiceRequest Empty)}
    (hhosts : ∀ action ∈ schedule, FromHosts g action)
    (hfits : CreditsFit ((serviceMachine checked g hasher).run schedule config)) {index : ℕ}
    (hindex : config.threads.length ≤ index) {task : Task StatsPoint (Option PoolStats)}
    (hcall : ((serviceMachine checked g hasher).run schedule config).threads[index]? =
      some (.statistics task)) :
    GathersTask g (counter g config.shared)
      (counter g ((serviceMachine checked g hasher).run schedule config).shared) task := by
  induction schedule using List.reverseRecOn generalizing task with
  | nil =>
    rw [run_nil, List.getElem?_eq_none hindex] at hcall
    cases hcall
  | append_singleton before action ih =>
    have hearlier := fun other hmem ↦ hhosts other (List.mem_append_left _ hmem)
    rw [run_append, run_cons, run_nil] at hfits hcall ⊢
    have hfits' : CreditsFit ((serviceMachine checked g hasher).run before config) :=
      fun field hfield ↦ (credited_le_apply field _ action).trans_lt (hfits field hfield)
    obtain ⟨hreached, hrisen⟩ := htallied.run hearlier hfits'
    obtain ⟨hnext, hrise⟩ := hreached.apply (hhosts action (by simp)) hfits
    rcases @getElem?_apply_cases _ _ _ _ (serviceMachine checked g hasher)
      ((serviceMachine checked g hasher).run before config) action index with
      hsame | ⟨request, -, hstarted⟩ | ⟨call, rfl, hthread, hmoved⟩
    · exact (ih hearlier hfits' (hsame.symm.trans hcall)).mono hrise
    · rw [hcall] at hstarted
      cases request with
      | operation request => cases hstarted
      | statistics =>
        obtain rfl := ServiceCall.statistics.inj (Option.some.inj hstarted)
        exact .start
    · refine (ServiceCall.gathers_step (Option.some.inj (hmoved.symm.trans hcall)) ?_ hrisen
        fun field hfield ↦ ?_).mono hrise
      · rintro earlier rfl
        exact ih hearlier hfits' hthread
      · exact (hreached.exact field hfield).trans_lt (hfits' field hfield)

/-- What a statistics call returns that began after the first part of a run counts everything the
calls had counted then, and nothing they have not counted now. It does not panic. -/
theorem statistics_between {first second : List (Action ServiceRequest Empty)} {index : ℕ}
    {result : Option PoolStats} (hhosts : ∀ action ∈ first ++ second, FromHosts g action)
    (hfits : CreditsFit ((serviceMachine checked g hasher).run (first ++ second) (freshService g)))
    (hstarted : ((serviceMachine checked g hasher).run first
      (freshService g)).threads.length ≤ index)
    (hreturned : ((serviceMachine checked g hasher).run (first ++ second)
      (freshService g)).threads[index]? =
      some (.statistics (.returned result))) :
    ∃ totals, result = some (statsOf totals) ∧ ∀ field ∈ metricsFields,
      credited field ((serviceMachine checked g hasher).run first (freshService g)) ≤ totals field ∧
      totals field ≤
        credited field ((serviceMachine checked g hasher).run (first ++ second)
          (freshService g)) := by
  have hlater := fun action hmem ↦ hhosts action (List.mem_append_right _ hmem)
  rw [run_append] at hfits hreturned ⊢
  have hfits' : CreditsFit ((serviceMachine checked g hasher).run first (freshService g)) :=
    fun field hfield ↦ (credited_le_run field _ second).trans_lt (hfits field hfield)
  obtain ⟨hreached, -⟩ := Tallied.fresh.run
    (fun action hmem ↦ hhosts action (List.mem_append_left _ hmem)) hfits'
  obtain ⟨hend, -⟩ := hreached.run hlater hfits
  have hgathers := hreached.gathers hlater hfits hstarted hreturned
  cases result with
  | none => exact hgathers.elim
  | some stats =>
    obtain ⟨totals, rfl, hbounds⟩ := hgathers
    refine ⟨totals, rfl, fun field hfield ↦ ?_⟩
    rw [← hreached.exact field hfield, ← hend.exact field hfield]
    exact hbounds field hfield

/-- An append up to its counters. -/
def uncountedAppend : List (Action ServiceRequest Empty) :=
  .start (.operation (.append firstEntry)) :: List.replicate 14 (.step 0)

/-- A statistics call that reads one counter before the append moves them on, and the rest after. -/
def tornStatistics : List (Action ServiceRequest Empty) :=
  .start .statistics :: .step 1 :: (List.replicate 6 (.step 0) ++ List.replicate 6 (.step 1))

/-- The bytes of the append are counted, and the append is not. -/
theorem statistics_between_twoPool :
    ∃ totals, (some ⟨0, 0, 1, 0, 0, 0, 0⟩ : Option PoolStats) = some (statsOf totals) ∧
      ∀ field ∈ metricsFields,
      credited field ((serviceMachine true twoPool crc32fast).run uncountedAppend
        (freshService twoPool)) ≤ totals field ∧
      totals field ≤ credited field ((serviceMachine true twoPool crc32fast).run
        (uncountedAppend ++ tornStatistics) (freshService twoPool)) := by
  refine statistics_between ?_ (by unfold CreditsFit; decide +kernel)
    (by decide +kernel : _ ≤ 1) (by decide +kernel)
  rintro action hmem request rfl hostId hhost
  have hrequest : request ∈ (uncountedAppend ++ tornStatistics).filterMap Action.request :=
    List.mem_filterMap.mpr ⟨_, hmem, rfl⟩
  rcases List.mem_cons.mp hrequest with rfl | hrest
  · obtain rfl := Option.some.inj hhost
    decide
  · obtain rfl := List.mem_singleton.mp hrest
    cases hhost

end Fence
