import Fence.Library.Interleaving
import Mathlib.Algebra.BigOperators.Group.List.Basic
import Mathlib.Data.Nat.ModEq

/-!
# A tally of what threads have done

A shared state carries a tally, and every thread a weight, its own part in it. What a step of a
thread adds to its weight goes into the tally, or is spilled. Then at all times the weights have
gained what the tally has gained and what was spilled, modulo the range of the tally (`tally_run`).
A modulus of zero stands for no wrap at all. Nothing is spilled along a schedule when no action
spills (`spilled_eq_zero_iff`).
-/

set_option autoImplicit false
set_option relaxedAutoImplicit false

namespace Interleaving

variable {Request Thread Shared Event : Type*}

/-- The weights of all threads together. -/
def totalWeight (weight : Thread → ℕ) (threads : List Thread) : ℕ := (threads.map weight).sum

theorem totalWeight_append (weight : Thread → ℕ) (threads others : List Thread) :
    totalWeight weight (threads ++ others) =
      totalWeight weight threads + totalWeight weight others := by
  rw [totalWeight, List.map_append, List.sum_append, totalWeight, totalWeight]

/-- Replacing a thread exchanges its weight. -/
theorem totalWeight_set (weight : Thread → ℕ) {threads : List Thread} {index : ℕ}
    {before : Thread} (hbefore : threads[index]? = some before) (after : Thread) :
    totalWeight weight (threads.set index after) + weight before =
      totalWeight weight threads + weight after := by
  induction threads generalizing index with
  | nil => cases hbefore
  | cons head rest ih =>
    cases index with
    | zero =>
      obtain rfl := Option.some.inj hbefore
      simp only [totalWeight, List.set_cons_zero, List.map_cons, List.sum_cons]
      omega
    | succ index =>
      have hrest := ih hbefore
      simp only [totalWeight, List.set_cons_succ, List.map_cons, List.sum_cons] at hrest ⊢
      omega

theorem totalWeight_add (first second : Thread → ℕ) (threads : List Thread) :
    totalWeight (fun thread ↦ first thread + second thread) threads =
      totalWeight first threads + totalWeight second threads := List.sum_map_add

theorem totalWeight_congr {first second : Thread → ℕ} {threads : List Thread}
    (hsame : ∀ thread ∈ threads, first thread = second thread) :
    totalWeight first threads = totalWeight second threads :=
  congrArg List.sum (List.map_congr_left hsame)

/-- When every thread weighs one or nothing, the weights count threads. -/
theorem totalWeight_eq_countP {weight : Thread → ℕ} {counts : Thread → Bool} {threads : List Thread}
    (hweight : ∀ thread ∈ threads, weight thread = if counts thread then 1 else 0) :
    totalWeight weight threads = threads.countP counts := by
  induction threads with
  | nil => rfl
  | cons head rest ih =>
    have hrest := ih fun thread hmem ↦ hweight thread (List.mem_cons_of_mem _ hmem)
    rw [totalWeight, List.map_cons, List.sum_cons, hweight head List.mem_cons_self,
      List.countP_cons, ← hrest, totalWeight, Nat.add_comm]

/-- What an action spills, given what a step of a thread does. -/
def Config.spill (spill : Thread → Shared → ℕ) (config : Config Thread Shared) :
    Action Request Event → ℕ
  | .step index => config.threads[index]?.elim 0 fun thread ↦ spill thread config.shared
  | _ => 0

/-- What is spilled along a schedule. -/
def Machine.spilled (machine : Machine Request Thread Shared Event) (spill : Thread → Shared → ℕ) :
    List (Action Request Event) → Config Thread Shared → ℕ
  | [], _ => 0
  | action :: rest, config =>
    config.spill spill action + machine.spilled spill rest (machine.apply config action)

variable {machine : Machine Request Thread Shared Event}

theorem spilled_eq_zero_iff {spill : Thread → Shared → ℕ} {schedule : List (Action Request Event)}
    {config : Config Thread Shared} : machine.spilled spill schedule config = 0 ↔
      machine.Along (fun config action ↦ config.spill spill action = 0) schedule config := by
  induction schedule generalizing config with
  | nil => exact ⟨fun _ ↦ trivial, fun _ ↦ rfl⟩
  | cons action rest ih =>
    rw [Machine.spilled, Machine.Along, ← ih]
    exact Nat.add_eq_zero_iff

/-- Where no step spills, nothing is spilled. -/
theorem spilled_zero (schedule : List (Action Request Event)) (config : Config Thread Shared) :
    machine.spilled (fun _ _ ↦ 0) schedule config = 0 := by
  refine spilled_eq_zero_iff.mpr (along_of_invariant (fun _ ↦ True) ?_
    (along_of_forall_mem (fun _ ↦ True) (fun _ _ ↦ trivial) config) trivial)
  rintro config (request | index | event) - -
  · exact ⟨rfl, trivial⟩
  · refine ⟨?_, trivial⟩
    show (config.threads[index]?.elim 0 fun _ ↦ 0) = 0
    cases config.threads[index]? <;> rfl
  · exact ⟨rfl, trivial⟩

/-- The tally rule. -/
theorem tally_run {condition : Config Thread Shared → Action Request Event → Prop} (modulus : ℕ)
    (tally : Shared → ℕ) (weight : Thread → ℕ) (spill : Thread → Shared → ℕ)
    (invariant : Config Thread Shared → Prop)
    (hinvariant : ∀ config action, invariant config → condition config action →
      invariant (machine.apply config action))
    (hstart : ∀ request, weight (machine.start request) = 0)
    (henv : ∀ event shared, tally (machine.env event shared) = tally shared)
    (hstep : ∀ config index thread, invariant config → condition config (.step index) →
      config.threads[index]? = some thread → ∃ amount,
        weight (machine.step thread config.shared).1 = weight thread + amount ∧
          (tally (machine.step thread config.shared).2 + spill thread config.shared) % modulus =
            (tally config.shared + amount) % modulus)
    {schedule : List (Action Request Event)} {config : Config Thread Shared}
    (halong : machine.Along condition schedule config) (hinit : invariant config) :
    (tally (machine.run schedule config).shared + machine.spilled spill schedule config +
        totalWeight weight config.threads) % modulus =
      (tally config.shared + totalWeight weight (machine.run schedule config).threads) %
        modulus := by
  induction schedule generalizing config with
  | nil => rfl
  | cons action rest ih =>
    have hrest := ih halong.2 (hinvariant config action hinit halong.1)
    rw [run_cons, Machine.spilled]
    generalize machine.spilled spill rest (machine.apply config action) = later at hrest ⊢
    generalize machine.run rest (machine.apply config action) = last at hrest ⊢
    cases action with
    | start request =>
      have hweight : totalWeight weight (machine.apply config (.start request)).threads =
          totalWeight weight config.threads := by
        rw [Machine.apply, totalWeight_append]
        simp [totalWeight, hstart]
      have hspill : config.spill spill (.start request : Action Request Event) = 0 := rfl
      rw [hweight] at hrest
      rwa [hspill, Nat.zero_add]
    | env event =>
      have htally : tally (machine.apply config (.env event)).shared = tally config.shared :=
        henv event config.shared
      have hspill : config.spill spill (.env event : Action Request Event) = 0 := rfl
      rw [htally] at hrest
      rwa [hspill, Nat.zero_add]
    | step index =>
      cases hthread : config.threads[index]? with
      | none =>
        rw [apply_step_of_none _ hthread] at hrest
        rwa [Config.spill, hthread, Option.elim_none, Nat.zero_add]
      | some thread =>
        obtain ⟨amount, hadded, htally⟩ := hstep config index thread hinit halong.1 hthread
        have hset := totalWeight_set weight hthread (machine.step thread config.shared).1
        have hweight : totalWeight weight (config.threads.set index
            (machine.step thread config.shared).1) =
              totalWeight weight config.threads + amount := by
          omega
        rw [apply_step_of_getElem? _ hthread] at hrest
        rw [hweight] at hrest
        rw [Config.spill, hthread, Option.elim_some]
        generalize spill thread config.shared = spilled at htally ⊢
        -- both sides have moved on by what the step has added
        refine Nat.ModEq.add_right_cancel' amount ?_
        calc tally last.shared + (spilled + later) + totalWeight weight config.threads + amount
            = tally last.shared + later +
              (totalWeight weight config.threads + amount) + spilled := by
              omega
          _ ≡ tally (machine.step thread config.shared).2 +
              totalWeight weight last.threads + spilled
              [MOD modulus] := Nat.ModEq.add_right _ hrest
          _ = tally (machine.step thread config.shared).2 + spilled +
              totalWeight weight last.threads := by omega
          _ ≡ tally config.shared + amount + totalWeight weight last.threads [MOD modulus] :=
              Nat.ModEq.add_right _ htally
          _ = tally config.shared + totalWeight weight last.threads + amount := by omega

end Interleaving
