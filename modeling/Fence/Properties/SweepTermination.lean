import Fence.Library.Visits
import Fence.Properties.ReserveWrap
import Fence.Protocol.AppendAlone
import Fence.Protocol.TailRuns
import Mathlib.Data.List.Induction
import Mathlib.Tactic.Linarith
import Mathlib.Tactic.Ring

/-!
# The tail sweep ends

The loop of `advance_committed_tail` has no counter. It ends because a compare-exchange that fails
has found a higher tail, and the tail stays within the pool. How much a sweep still has to do is
bounded by the room above the tail it has loaded (`attemptsLeft`, `loadsLeft`, `stepsLeft`),
whatever other calls do in between. `sweep_ends_of_run` is the resulting bound for every sweep of
every run.
-/

set_option autoImplicit false
set_option relaxedAutoImplicit false

namespace Fence

open ByteMemory Interleaving

variable {g : PoolGeometry} {hasher : Hasher} {memory : Memory} {index : ℕ}

/-! ### What a sweep still has to do -/

/-- The next step is a compare-exchange. -/
def SweepPoint.attempts : SweepPoint → Bool
  | .compareExchange _ _ => true
  | _ => false

/-- The next step loads a state byte. -/
def SweepPoint.loadsState : SweepPoint → Bool
  | .loadState _ _ => true
  | _ => false

variable (g) in
/-- At most so many compare-exchanges are left. -/
def SweepPoint.attemptsLeft (tail : ℕ) : SweepPoint → ℕ
  | .loadTail => g.capacity - tail
  | .loadState currentTail _ => g.capacity - currentTail
  | .compareExchange currentTail _ => g.capacity - currentTail

variable (g) in
/-- At most so many loads of state bytes are left. -/
def SweepPoint.loadsLeft (tail : ℕ) : SweepPoint → ℕ
  | .loadTail => (g.capacity - tail) ^ 2
  | .loadState currentTail newTail => g.capacity - newTail + (g.capacity - currentTail - 1) ^ 2
  | .compareExchange currentTail _ => (g.capacity - currentTail - 1) ^ 2

variable (g) in
/-- At most so many steps are left. -/
def SweepPoint.stepsLeft (tail : ℕ) : SweepPoint → ℕ
  | .loadTail => (g.capacity - tail + 1) ^ 2
  | .loadState currentTail newTail => g.capacity - newTail + 1 + (g.capacity - currentTail) ^ 2
  | .compareExchange currentTail _ => 1 + (g.capacity - currentTail) ^ 2

/-- A potential of a sweep: every step pays for itself if it is of a kind, and a higher tail adds
nothing. -/
structure Potential (g : PoolGeometry) (kind : SweepPoint → Bool) (left : ℕ → SweepPoint → ℕ) :
    Prop where
  pays : ∀ memory point, point.Within g (tailOf memory) → tailOf memory ≤ g.capacity →
    (if kind point then 1 else 0) + ((Recovery.advanceCommittedTail g point).exec memory).1.fold
        (left (tailOf ((Recovery.advanceCommittedTail g point).exec memory).2)) (fun _ ↦ 0) ≤
      left (tailOf memory) point
  antitone : ∀ tail later point, tail ≤ later → left later point ≤ left tail point

/-- Where the inner loop ends, the compare-exchange is all that is left, if anything is. -/
theorem SweepPoint.settle_fold_le {left : SweepPoint → ℕ} {currentTail newTail bound : ℕ}
    (hbound : left (.compareExchange currentTail newTail) ≤ bound) :
    (SweepPoint.settle currentTail newTail).fold left (fun _ ↦ 0) ≤ bound := by
  unfold SweepPoint.settle
  split_ifs
  · exact Nat.zero_le _
  · exact hbound

/-- A potential needs to be checked where the loops turn: at the first load, along the scan, at its
end, and after a compare-exchange that fails because the tail is higher. -/
theorem Potential.of_turns {kind : SweepPoint → Bool} {left : ℕ → SweepPoint → ℕ}
    (hantitone : ∀ tail later point, tail ≤ later → left later point ≤ left tail point)
    (hfull : ∀ tail, (if kind .loadTail then 1 else 0) ≤ left tail .loadTail)
    (hload : ∀ tail < g.capacity,
      (if kind .loadTail then 1 else 0) + left tail (.loadState tail tail) ≤ left tail .loadTail)
    (hscan : ∀ tail currentTail newTail, newTail + 1 < g.capacity →
      (if kind (.loadState currentTail newTail) then 1 else 0) +
          left tail (.loadState currentTail (newTail + 1)) ≤
        left tail (.loadState currentTail newTail))
    (hsettle : ∀ tail currentTail newTail published, newTail < g.capacity →
      (if kind (.loadState currentTail newTail) then 1 else 0) +
          left tail (.compareExchange currentTail published) ≤
        left tail (.loadState currentTail newTail))
    (hdone : ∀ tail currentTail newTail, currentTail < newTail → newTail ≤ g.capacity →
      (if kind (.compareExchange currentTail newTail) then 1 else 0) ≤
        left tail (.compareExchange currentTail newTail))
    (hretry : ∀ tail currentTail newTail, currentTail < tail → tail ≤ g.capacity →
      (if kind (.compareExchange currentTail newTail) then 1 else 0) + left tail .loadTail ≤
        left tail (.compareExchange currentTail newTail)) :
    Potential g kind left where
  antitone := hantitone
  pays := by
    intro memory point hwithin htail
    cases point with
    | loadTail =>
      simp only [Recovery.advanceCommittedTail, BackendCall.exec]
      change _ + (SweepPoint.scanFrom g (tailOf memory) (tailOf memory)).fold
        (left (tailOf memory)) _ ≤ _
      by_cases hroom : tailOf memory < g.capacity
      · rw [SweepPoint.scanFrom, if_pos hroom]
        exact hload _ hroom
      · rw [SweepPoint.scanFrom, if_neg hroom, SweepPoint.settle, if_pos rfl]
        exact hfull _
    | loadState currentTail newTail =>
      obtain ⟨-, -, hroom⟩ := hwithin
      have hends : ∀ published, (if kind (.loadState currentTail newTail) then 1 else 0) +
          (SweepPoint.settle currentTail published).fold (left (tailOf memory)) (fun _ ↦ 0) ≤
            left (tailOf memory) (.loadState currentTail newTail) := by
        intro published
        have hsettled := hsettle (tailOf memory) currentTail newTail published hroom
        exact (Nat.add_le_add_left (SweepPoint.settle_fold_le (Nat.le_refl _)) _).trans hsettled
      simp only [Recovery.advanceCommittedTail, BackendCall.exec]
      by_cases hstate : memory (g.recordOffset (asU32 newTail) + recState) = stateCommitted
      · rw [if_neg (not_not.mpr hstate)]
        by_cases hnext : newTail + 1 < g.capacity
        · rw [SweepPoint.scanFrom, if_pos hnext]
          exact hscan _ _ _ hnext
        · rw [SweepPoint.scanFrom, if_neg hnext]
          exact hends _
      · rw [if_pos hstate]
        exact hends _
    | compareExchange currentTail newTail =>
      obtain ⟨hcurrent, hless, hcapacity⟩ := hwithin
      by_cases hsame : loadWord memory hdrCommittedTail 8 = currentTail
      · simp only [Recovery.advanceCommittedTail, BackendCall.exec, if_pos hsame]
        exact hdone _ _ _ hless hcapacity
      · simp only [Recovery.advanceCommittedTail, BackendCall.exec, if_neg hsame]
        refine hretry _ _ _ ?_ htail
        exact lt_of_le_of_ne hcurrent (Ne.symm hsame)

theorem potential_attempts : Potential g SweepPoint.attempts (SweepPoint.attemptsLeft g) := by
  refine .of_turns ?_ ?_ ?_ ?_ ?_ ?_ ?_
  · intro tail later point hle
    cases point <;> simp only [SweepPoint.attemptsLeft] <;> omega
  all_goals
    intros
    simp only [SweepPoint.attempts, SweepPoint.attemptsLeft, if_true, if_false, Bool.false_eq_true]
    omega

/-- A square has room for its side and the square of what is one shorter. -/
theorem sub_add_sq_le {room : ℕ} (hroom : 0 < room) : room + (room - 1) ^ 2 ≤ room ^ 2 := by
  obtain ⟨less, rfl⟩ := Nat.exists_eq_succ_of_ne_zero hroom.ne'
  rw [Nat.succ_eq_add_one, Nat.add_sub_cancel]
  nlinarith

theorem potential_loadsState : Potential g SweepPoint.loadsState (SweepPoint.loadsLeft g) := by
  refine .of_turns ?_ ?_ ?_ ?_ ?_ ?_ ?_
  · intro tail later point hle
    cases point with
    | loadTail => exact Nat.pow_le_pow_left (by omega) 2
    | _ => exact Nat.le_refl _
  · exact fun tail ↦ Nat.zero_le _
  · intro tail hroom
    simpa [SweepPoint.loadsState, SweepPoint.loadsLeft] using
      sub_add_sq_le (Nat.sub_pos_of_lt hroom)
  · intro tail currentTail newTail hnext
    simp only [SweepPoint.loadsState, SweepPoint.loadsLeft, if_true]
    omega
  · intro tail currentTail newTail published hroom
    simp only [SweepPoint.loadsState, SweepPoint.loadsLeft, if_true]
    omega
  · exact fun tail currentTail newTail hless hcapacity ↦ Nat.zero_le _
  · intro tail currentTail newTail hhigher hcapacity
    have hsquare : (g.capacity - tail) ^ 2 ≤ (g.capacity - currentTail - 1) ^ 2 :=
      Nat.pow_le_pow_left (by omega) 2
    simpa [SweepPoint.loadsState, SweepPoint.loadsLeft] using hsquare

theorem potential_steps : Potential g (fun _ ↦ true) (SweepPoint.stepsLeft g) := by
  refine .of_turns ?_ ?_ ?_ ?_ ?_ ?_ ?_
  · intro tail later point hle
    cases point with
    | loadTail => exact Nat.pow_le_pow_left (by omega) 2
    | _ => exact Nat.le_refl _
  · exact fun tail ↦ Nat.one_le_pow _ _ (Nat.succ_pos _)
  · intro tail hroom
    have hside : 0 < g.capacity - tail := Nat.sub_pos_of_lt hroom
    simp only [SweepPoint.stepsLeft, if_true]
    nlinarith
  · intro tail currentTail newTail hnext
    simp only [SweepPoint.stepsLeft, if_true]
    omega
  · intro tail currentTail newTail published hroom
    simp only [SweepPoint.stepsLeft, if_true]
    omega
  · intro tail currentTail newTail hless hcapacity
    simp only [SweepPoint.stepsLeft, if_true]
    omega
  · intro tail currentTail newTail hhigher hcapacity
    have hsquare : (g.capacity - tail + 1) ^ 2 ≤ (g.capacity - currentTail) ^ 2 :=
      Nat.pow_le_pow_left (by omega) 2
    simp only [SweepPoint.stepsLeft, if_true]
    omega

/-! ### Sweeps along a schedule -/

section Runs

variable {Request Thread : Type} {machine : Machine Request Thread Memory Empty}
  {sweepPoint : Thread → Option SweepPoint} {swept : Thread → Prop}

variable (g) in
/-- What a sweep returns in its next step, if it does. -/
def SweepPoint.returns (memory : Memory) (point : SweepPoint) : Option ℕ :=
  ((Recovery.advanceCommittedTail g point).exec memory).1.fold (fun _ ↦ none) some

variable (g) in
/-- A sweep that is about to load the tail for the first time comes to its end within bounds,
whatever others do between its steps, with a tail that was reached meanwhile. -/
structure SweepEnds (machine : Machine Request Thread Memory Empty)
    (sweepPoint : Thread → Option SweepPoint) (index : ℕ) (start : Config Thread Memory)
    (schedule : List (Action Request Empty)) : Prop where
  attempts : (machine.visits index schedule start).countP
      (fun visit ↦ (sweepPoint visit.1).any SweepPoint.attempts) ≤
    g.capacity - tailOf start.shared + 1
  loads : (machine.visits index schedule start).countP
      (fun visit ↦ (sweepPoint visit.1).any SweepPoint.loadsState) ≤
    (g.capacity - tailOf start.shared + 1) ^ 2
  returns : (g.capacity - tailOf start.shared + 1) ^ 2 ≤
    (machine.visits index schedule start).length →
    ∃ visit ∈ machine.visits index schedule start, ∃ value,
      (sweepPoint visit.1).bind (SweepPoint.returns g visit.2) = some value
  value : ∀ before after thread value, schedule = before ++ .step index :: after →
    (machine.run before start).threads[index]? = some thread →
    (sweepPoint thread).bind (SweepPoint.returns g (machine.run before start).shared) = some value →
      tailOf start.shared ≤ value ∧ value ≤ g.capacity ∧
        ∃ moment, moment <+: before ++ [.step index] ∧
          tailOf (machine.run moment start).shared = value

/-- A thread that has come to its sweep stays there or leaves it behind. -/
theorem Sweeps.entered_step (hsweeps : Sweeps g machine sweepPoint swept) {thread : Thread}
    (hentered : sweepPoint thread ≠ none ∨ swept thread) (memory : Memory) :
    sweepPoint (machine.step thread memory).1 ≠ none ∨ swept (machine.step thread memory).1 := by
  rcases hentered with hsweeping | hswept
  · obtain ⟨point, hpoint⟩ := Option.ne_none_iff_exists'.mp hsweeping
    cases htask : ((Recovery.advanceCommittedTail g point).exec memory).1 with
    | returned value => exact .inr (hsweeps.returns thread point memory value hpoint htask)
    | running next =>
      refine .inl ?_
      rw [(hsweeps.sweep thread point memory hpoint).2, htask]
      exact Option.some_ne_none next
  · exact .inr (hsweeps.stays thread memory hswept).2

variable (g) in
/-- The tail rises, and a thread has come to its sweep. -/
structure Entered (sweepPoint : Thread → Option SweepPoint) (swept : Thread → Prop) (index : ℕ)
    (config : Config Thread Memory) : Prop where
  rises : TailRises g sweepPoint config
  entered : ∃ thread, config.threads[index]? = some thread ∧
    (sweepPoint thread ≠ none ∨ swept thread)

theorem Entered.apply (hsweeps : Sweeps g machine sweepPoint swept) {index : ℕ}
    {config : Config Thread Memory} (hentered : Entered g sweepPoint swept index config)
    (action : Action Request Empty) :
    Entered g sweepPoint swept index (machine.apply config action) where
  rises := hentered.rises.apply hsweeps action
  entered := by
    obtain ⟨thread, hthread, hin⟩ := hentered.entered
    by_cases hown : action = .step index
    · subst hown
      exact ⟨_, getElem?_apply_self hthread, hsweeps.entered_step hin _⟩
    · refine ⟨thread, getElem?_apply_of_ne hthread ?_, hin⟩
      exact fun other hstep hsame ↦ hown (hstep.trans (congrArg _ hsame))

/-- How much of a kind a sweep still has to do bounds what it does along any schedule. -/
theorem Potential.countP_visits_le (hsweeps : Sweeps g machine sweepPoint swept)
    {kind : SweepPoint → Bool} {left : ℕ → SweepPoint → ℕ} (hpotential : Potential g kind left)
    {index : ℕ} {start : Config Thread Memory} (hrises : TailRises g sweepPoint start)
    {thread : Thread} (hthread : start.threads[index]? = some thread)
    (hfirst : sweepPoint thread = some .loadTail) (schedule : List (Action Request Empty)) :
    ∃ last, (machine.run schedule start).threads[index]? = some last ∧
      (machine.visits index schedule start).countP (fun visit ↦ (sweepPoint visit.1).any kind) +
          (sweepPoint last).elim 0 (left (tailOf (machine.run schedule start).shared)) ≤
        left (tailOf start.shared) .loadTail := by
  have hinit : Entered g sweepPoint swept index start :=
    ⟨hrises, thread, hthread, .inl (by rw [hfirst]; exact Option.some_ne_none _)⟩
  have hpotential' : left (tailOf start.shared) .loadTail =
      (sweepPoint thread).elim 0 (left (tailOf start.shared)) := by
    rw [hfirst]
    rfl
  rw [hpotential']
  refine Interleaving.countP_visits_le (fun thread ↦ (sweepPoint thread).any kind)
    (fun thread memory ↦ (sweepPoint thread).elim 0 (left (tailOf memory)))
    (Entered g sweepPoint swept index) (fun config action hin ↦ hin.apply hsweeps action)
    ?_ ?_ schedule hinit hthread
  · intro config stepped hin hstepped
    cases hpoint : sweepPoint stepped with
    | none =>
      obtain ⟨held, hheld, hentered⟩ := hin.entered
      obtain rfl := Option.some.inj (hstepped.symm.trans hheld)
      have hswept : swept stepped := hentered.resolve_left (not_not.mpr hpoint)
      have hstays := hsweeps.stays _ config.shared (hsweeps.stays _ config.shared hswept).2
      rw [hstays.1]
      exact Nat.le_refl _
    | some point =>
      have hwithin := hin.rises.sweeps stepped (List.mem_of_getElem? hstepped) point hpoint
      obtain ⟨hmemory, hnext⟩ := hsweeps.sweep stepped point config.shared hpoint
      rw [hmemory, hnext]
      have hpays := hpotential.pays config.shared point hwithin hin.rises.tail
      cases htask : ((Recovery.advanceCommittedTail g point).exec config.shared).1 with
      | returned value =>
        rw [htask] at hpays
        exact hpays
      | running next =>
        rw [htask] at hpays
        exact hpays
  · intro config action held hin hheld hother
    cases hpoint : sweepPoint held with
    | none => exact Nat.le_refl _
    | some point =>
      exact hpotential.antitone _ _ point (hin.rises.tail_le_apply hsweeps action)

/-- As long as a sweep does not return, it goes on. -/
theorem Sweeps.isSome_step (hsweeps : Sweeps g machine sweepPoint swept) {thread : Thread}
    {memory : Memory} (hsweeping : (sweepPoint thread).isSome = true)
    (hnone : (sweepPoint thread).bind (SweepPoint.returns g memory) = none) :
    (sweepPoint (machine.step thread memory).1).isSome = true := by
  obtain ⟨point, hpoint⟩ := Option.isSome_iff_exists.mp hsweeping
  rw [hpoint, Option.bind_some, SweepPoint.returns] at hnone
  rw [(hsweeps.sweep thread point memory hpoint).2]
  cases htask : ((Recovery.advanceCommittedTail g point).exec memory).1 with
  | running next => rfl
  | returned value =>
    rw [htask] at hnone
    cases hnone

theorem SweepPoint.stepsLeft_pos (tail : ℕ) (point : SweepPoint) : 0 < point.stepsLeft g tail := by
  cases point with
  | loadTail => exact Nat.one_le_pow _ _ (Nat.succ_pos _)
  | _ =>
    simp only [SweepPoint.stepsLeft]
    omega

/-- After so many steps of its own a sweep has returned. -/
theorem Sweeps.returns_of_length (hsweeps : Sweeps g machine sweepPoint swept) {index : ℕ}
    {start : Config Thread Memory} (hrises : TailRises g sweepPoint start) {thread : Thread}
    (hthread : start.threads[index]? = some thread) (hfirst : sweepPoint thread = some .loadTail)
    {schedule : List (Action Request Empty)}
    (hlength : (g.capacity - tailOf start.shared + 1) ^ 2 ≤
      (machine.visits index schedule start).length) :
    ∃ visit ∈ machine.visits index schedule start, ∃ value,
      (sweepPoint visit.1).bind (SweepPoint.returns g visit.2) = some value := by
  by_contra hnever
  have hnone : ∀ visit ∈ machine.visits index schedule start,
      (sweepPoint visit.1).bind (SweepPoint.returns g visit.2) = none := by
    intro visit hvisit
    refine Option.eq_none_iff_forall_ne_some.mpr fun value hvalue ↦ ?_
    exact hnever ⟨visit, hvisit, value, hvalue⟩
  have hinit : (sweepPoint thread).isSome = true := by rw [hfirst]; rfl
  obtain ⟨hsweeping, last, hlast, hstill⟩ := @forall_visits _ _ _ _ machine _
    (fun thread ↦ (sweepPoint thread).isSome = true)
    _ _ _ (fun visit hvisit hsome ↦ hsweeps.isSome_step hsome (hnone visit hvisit)) hthread hinit
  obtain ⟨other, hother, hle⟩ :=
    potential_steps.countP_visits_le hsweeps hrises hthread hfirst schedule
  obtain rfl := Option.some.inj (hlast.symm.trans hother)
  have hall : (machine.visits index schedule start).countP
      (fun visit ↦ (sweepPoint visit.1).any fun _ ↦ true) =
        (machine.visits index schedule start).length := by
    refine List.countP_eq_length.mpr fun visit hvisit ↦ ?_
    obtain ⟨point, hpoint⟩ := Option.isSome_iff_exists.mp (hsweeping visit hvisit)
    rw [hpoint]
    rfl
  obtain ⟨point, hpoint⟩ := Option.isSome_iff_exists.mp hstill
  have hpos := SweepPoint.stepsLeft_pos (g := g) (tailOf (machine.run schedule start).shared) point
  rw [hall, hpoint] at hle
  simp only [Option.elim_some, SweepPoint.stepsLeft] at hle hpos
  omega

/-! ### The tail a sweep returns -/

/-- The tail a sweep has loaded. -/
def SweepPoint.loaded : SweepPoint → Option ℕ
  | .loadTail => none
  | .loadState currentTail _ => some currentTail
  | .compareExchange currentTail _ => some currentTail

/-- The loops of a sweep go on, or return, with the tail that was loaded. -/
theorem SweepPoint.settle_loaded (currentTail newTail : ℕ) :
    (SweepPoint.settle currentTail newTail).fold SweepPoint.loaded some = some currentTail := by
  unfold SweepPoint.settle
  split_ifs <;> rfl

theorem SweepPoint.scanFrom_loaded (currentTail newTail : ℕ) :
    (SweepPoint.scanFrom g currentTail newTail).fold SweepPoint.loaded some = some currentTail := by
  unfold SweepPoint.scanFrom
  split_ifs
  · rfl
  · exact SweepPoint.settle_loaded currentTail newTail

/-- What a sweep holds or returns after a step is what it held, the tail before the step, or the
tail after it. -/
theorem Recovery.advanceCommittedTail_loaded {point : SweepPoint} {value : ℕ}
    (hwithin : point.Within g (tailOf memory))
    (hvalue : ((Recovery.advanceCommittedTail g point).exec memory).1.fold SweepPoint.loaded some =
      some value) :
    point.loaded = some value ∨ tailOf memory = value ∨
      tailOf ((Recovery.advanceCommittedTail g point).exec memory).2 = value := by
  cases point with
  | loadTail =>
    simp only [Recovery.advanceCommittedTail, BackendCall.exec] at hvalue
    rw [SweepPoint.scanFrom_loaded] at hvalue
    exact .inr (.inl (Option.some.inj hvalue))
  | loadState currentTail newTail =>
    refine .inl ?_
    simp only [Recovery.advanceCommittedTail, BackendCall.exec] at hvalue
    split_ifs at hvalue
    · rwa [SweepPoint.settle_loaded] at hvalue
    · rwa [SweepPoint.scanFrom_loaded] at hvalue
  | compareExchange currentTail newTail =>
    by_cases hsame : loadWord memory hdrCommittedTail 8 = currentTail
    · simp only [Recovery.advanceCommittedTail, BackendCall.exec, if_pos hsame] at hvalue ⊢
      refine .inr (.inr ?_)
      have hword : newTail < 256 ^ 8 := by
        have hcapacityLt := g.capacity_lt
        have hcapacity := hwithin.2.2
        omega
      unfold tailOf
      rw [loadWord_storeWord_self, Nat.mod_eq_of_lt hword]
      exact Option.some.inj hvalue
    · simp only [Recovery.advanceCommittedTail, BackendCall.exec, if_neg hsame] at hvalue
      cases hvalue

/-- A value was the committed tail at some moment of a schedule. -/
def TailReached (machine : Machine Request Thread Memory Empty) (start : Config Thread Memory)
    (schedule : List (Action Request Empty)) (value : ℕ) : Prop :=
  ∃ moment, moment <+: schedule ∧ tailOf (machine.run moment start).shared = value

theorem TailReached.append {start : Config Thread Memory} {schedule : List (Action Request Empty)}
    {value : ℕ} (hreached : TailReached machine start schedule value)
    (rest : List (Action Request Empty)) : TailReached machine start (schedule ++ rest) value := by
  obtain ⟨moment, hmoment, hvalue⟩ := hreached
  exact ⟨moment, hmoment.trans (List.prefix_append _ _), hvalue⟩

/-- What a sweep holds or returns after its next step was the tail at some moment. -/
theorem Sweeps.reached_step (hsweeps : Sweeps g machine sweepPoint swept)
    {start : Config Thread Memory} (hrises : TailRises g sweepPoint start) {index : ℕ}
    {schedule : List (Action Request Empty)} {thread : Thread} {point : SweepPoint} {value : ℕ}
    (hthread : (machine.run schedule start).threads[index]? = some thread)
    (hpoint : sweepPoint thread = some point)
    (hloaded : ∀ held, point.loaded = some held → TailReached machine start schedule held)
    (hvalue : ((Recovery.advanceCommittedTail g point).exec
      (machine.run schedule start).shared).1.fold SweepPoint.loaded some = some value) :
    TailReached machine start (schedule ++ [.step index]) value := by
  have hwithin := (hrises.run hsweeps schedule).sweeps thread (List.mem_of_getElem? hthread) point
    hpoint
  rcases Recovery.advanceCommittedTail_loaded hwithin hvalue with hheld | hbefore | hafter
  · exact (hloaded value hheld).append _
  · exact ⟨schedule, List.prefix_append _ _, hbefore⟩
  · refine ⟨schedule ++ [.step index], List.prefix_rfl, ?_⟩
    rw [run_append, run_cons, run_nil, apply_step_of_getElem? _ hthread,
      (hsweeps.sweep thread point _ hpoint).1]
    exact hafter

/-- What a sweep has loaded was the tail at some moment. -/
theorem Sweeps.reached_loaded (hsweeps : Sweeps g machine sweepPoint swept)
    {start : Config Thread Memory} (hrises : TailRises g sweepPoint start) {index : ℕ}
    {first : Thread} (hthread : start.threads[index]? = some first)
    (hfirst : sweepPoint first = some .loadTail) (schedule : List (Action Request Empty)) :
    ∃ thread, (machine.run schedule start).threads[index]? = some thread ∧
      ∀ value, (sweepPoint thread).bind SweepPoint.loaded = some value →
        TailReached machine start schedule value := by
  induction schedule using List.reverseRecOn with
  | nil =>
    refine ⟨first, hthread, fun value hvalue ↦ ?_⟩
    rw [hfirst] at hvalue
    cases hvalue
  | append_singleton before action ih =>
    obtain ⟨thread, hheld, hloaded⟩ := ih
    rw [run_append, run_cons, run_nil]
    by_cases hown : action = .step index
    · subst hown
      refine ⟨_, getElem?_apply_self hheld, fun value hvalue ↦ ?_⟩
      cases hpoint : sweepPoint thread with
      | none =>
        obtain ⟨next, hnext, hvalue⟩ := Option.bind_eq_some_iff.mp hvalue
        rw [(hsweeps.others thread _ hpoint).2 next hnext] at hvalue
        cases hvalue
      | some point =>
        rw [hpoint] at hloaded
        refine hsweeps.reached_step hrises hheld hpoint hloaded ?_
        rw [(hsweeps.sweep thread point _ hpoint).2] at hvalue
        cases htask : ((Recovery.advanceCommittedTail g point).exec
          (machine.run before start).shared).1 with
        | returned returned =>
          rw [htask] at hvalue
          cases hvalue
        | running next =>
          rw [htask] at hvalue
          exact hvalue
    · refine ⟨thread, getElem?_apply_of_ne hheld ?_, fun value hvalue ↦ ?_⟩
      · exact fun other hstep hsame ↦ hown (hstep.trans (congrArg _ hsame))
      · exact (hloaded value hvalue).append _

/-- A sweep comes to its end, in any machine that sweeps. -/
theorem Sweeps.sweepEnds (hsweeps : Sweeps g machine sweepPoint swept)
    {start : Config Thread Memory} (hrises : TailRises g sweepPoint start) {index : ℕ}
    {first : Thread} (hthread : start.threads[index]? = some first)
    (hfirst : sweepPoint first = some .loadTail) (schedule : List (Action Request Empty)) :
    SweepEnds g machine sweepPoint index start schedule where
  attempts := by
    obtain ⟨last, -, hle⟩ :=
      potential_attempts.countP_visits_le hsweeps hrises hthread hfirst schedule
    simp only [SweepPoint.attemptsLeft] at hle
    omega
  loads := by
    obtain ⟨last, -, hle⟩ :=
      potential_loadsState.countP_visits_le hsweeps hrises hthread hfirst schedule
    have hsquare : (g.capacity - tailOf start.shared) ^ 2 ≤
        (g.capacity - tailOf start.shared + 1) ^ 2 := Nat.pow_le_pow_left (Nat.le_succ _) 2
    simp only [SweepPoint.loadsLeft] at hle
    omega
  returns := hsweeps.returns_of_length hrises hthread hfirst
  value := by
    rintro before after thread value rfl hheld hreturns
    obtain ⟨point, hpoint, hreturns⟩ := Option.bind_eq_some_iff.mp hreturns
    obtain ⟨held, hheld', hloaded⟩ := hsweeps.reached_loaded hrises hthread hfirst before
    obtain rfl := Option.some.inj (hheld.symm.trans hheld')
    rw [hpoint] at hloaded
    have hvalue : ((Recovery.advanceCommittedTail g point).exec
        (machine.run before start).shared).1.fold SweepPoint.loaded some = some value := by
      cases htask : ((Recovery.advanceCommittedTail g point).exec
        (machine.run before start).shared).1 with
      | running next =>
        rw [SweepPoint.returns, htask] at hreturns
        cases hreturns
      | returned returned =>
        rw [SweepPoint.returns, htask] at hreturns
        exact hreturns
    obtain ⟨moment, hmoment, rfl⟩ := hsweeps.reached_step hrises hheld hpoint hloaded hvalue
    exact ⟨hrises.tail_le_run hsweeps moment,
      (hrises.run hsweeps moment).tail, moment, hmoment, rfl⟩

end Runs

/-! ### Sweeps in runs from a fresh pool -/

variable (g hasher) in
/-- Any number of calls of a runtime on one memory, and of sweeps on their own:
`advance_committed_tail` is public. -/
def sweepingMachine :
    Machine (Request ⊕ Unit) (Call ⊕ Task SweepPoint ℕ) Memory Empty :=
  (runtimeMachine g hasher).sum (sweepMachine g)

/-- The point of a sweep on its own. -/
def sweepPointOf (task : Task SweepPoint ℕ) : Option SweepPoint := task.fold some fun _ ↦ none

theorem sweepMachine_sweeps :
    Sweeps g (sweepMachine g) sweepPointOf (fun task ↦ ∃ value, task = .returned value) where
  starts := by
    intro request point hpoint
    exact (Option.some.inj hpoint).symm
  sweep := by
    rintro (point | value) held memory hpoint
    · cases hpoint
      exact ⟨rfl, rfl⟩
    · cases hpoint
  returns := by
    rintro (point | value) held memory value hpoint hreturns
    · cases hpoint
      exact ⟨value, hreturns⟩
    · cases hpoint
  others := by
    rintro (point | value) memory hpoint
    · cases hpoint
    · refine ⟨rfl, fun point hsome ↦ ?_⟩
      cases hsome
  stays := by
    rintro task memory ⟨value, rfl⟩
    exact ⟨rfl, value, rfl⟩

theorem sweepingMachine_sweeps :
    Sweeps g (sweepingMachine g hasher) (Sum.elim Call.sweepPoint sweepPointOf)
      (Sum.elim (Call.swept · = true) fun task ↦ ∃ value, task = .returned value) :=
  runtimeMachine_sweeps.sum sweepMachine_sweeps

/-- In every run from a fresh pool every sweep, one of its own or of an append or a recovery, ends
within `capacity - t0 + 1` compare-exchanges and `(capacity - t0 + 1) ^ 2` loads of state bytes,
where `t0` is the tail it finds first, and returns a tail between `t0` and the capacity that was
reached. -/
theorem sweep_ends_of_run (before after : List (Action (Request ⊕ Unit) Empty)) {index : ℕ}
    {thread : Call ⊕ Task SweepPoint ℕ}
    (hthread : ((sweepingMachine g hasher).run before
      { shared := freshMemory g, threads := [] }).threads[index]? = some thread)
    (hfirst : Sum.elim Call.sweepPoint sweepPointOf thread = some .loadTail) :
    SweepEnds g (sweepingMachine g hasher) (Sum.elim Call.sweepPoint sweepPointOf) index
      ((sweepingMachine g hasher).run before { shared := freshMemory g, threads := [] })
      (.step index :: after) :=
  sweepingMachine_sweeps.sweepEnds (TailRises.fresh.run sweepingMachine_sweeps before) hthread
    hfirst _

/-- Two appends on a pool of two slots have both stored their committed states when the first one
starts to sweep. -/
theorem sweep_ends_of_run_twoPool :
    SweepEnds twoPool (sweepingMachine twoPool crc32fast) (Sum.elim Call.sweepPoint sweepPointOf) 0
      ((sweepingMachine twoPool crc32fast).run
        (.start (.inl (.append firstEntry)) :: .start (.inl (.append secondEntry)) ::
          (List.replicate 11 (.step 0) ++ List.replicate 11 (.step 1)))
        { shared := freshMemory twoPool, threads := [] })
      (.step 0 :: [.step 1, .step 0, .step 0, .step 0]) :=
  @sweep_ends_of_run twoPool crc32fast _ _ 0
    (.inl (.append firstEntry (.running (.sweep 0 .loadTail))))
    (by decide +kernel) rfl

end Fence
