import Fence.Protocol.Trimmed

/-!
# Who owes the next advance of the tail

Without recoveries, whenever the slots from the committed tail up to some slot are all committed,
some append in flight still owes the advance over them: it is about to sweep, it is sweeping, or
its compare-exchange either covers the slot or is bound to fail and start over (`Call.Owes`). A
sweep that has fallen behind the tail keeps what it owes as long as the slot it starts from is
still committed. When a trim has abandoned that slot, the sweep stops there and returns, and what
it owed is lost. `startsAtTrimmed` is that step, and `Advancing` is the invariant of runs without
it.
-/

set_option autoImplicit false
set_option relaxedAutoImplicit false

namespace Fence

open ByteMemory Interleaving

variable {g : PoolGeometry} {hasher : Hasher}

/-! ### What calls owe -/

/-- A sweep will try to move the tail past a slot. -/
def SweepPoint.Owes (tail slot : ℕ) : SweepPoint → Prop
  | .loadTail => True
  | .loadState _ _ => True
  | .compareExchange currentTail newTail => currentTail ≠ tail ∨ slot < newTail

/-- An append will try to move the tail past a slot. -/
def Call.Owes (tail slot : ℕ) : Call → Prop
  | .append _ (.running (.flushState _)) => True
  | .append _ (.running (.sweep _ point)) => point.Owes tail slot
  | _ => False

/-- The action is the load of a sweep that finds the first slot of its scan abandoned. -/
def startsAtTrimmed (g : PoolGeometry) (config : Config Call Memory)
    (action : Action Request Empty) : Bool :=
  match action with
  | .step index =>
    match config.threads[index]?.bind Call.sweepPoint with
    | some (.loadState currentTail newTail) =>
      newTail == currentTail && (Pool.ofMemory g config.shared).state newTail == stateAbandoned
    | _ => false
  | _ => false

/-- A sweep that starts at a trimmed slot, with the slot it finds abandoned. -/
theorem exists_of_startsAtTrimmed {config : Config Call Memory} {action : Action Request Empty}
    (htrimmed : startsAtTrimmed g config action = true) :
    ∃ call ∈ config.threads, ∃ slot, call.sweepPoint = some (.loadState slot slot) ∧
      (Pool.ofMemory g config.shared).state slot = stateAbandoned := by
  cases action with
  | start request => cases htrimmed
  | env event => exact event.elim
  | step index =>
    cases hcall : config.threads[index]? with
    | none => simp [startsAtTrimmed, hcall] at htrimmed
    | some call =>
      cases hpoint : call.sweepPoint with
      | none => simp [startsAtTrimmed, hcall, hpoint] at htrimmed
      | some point =>
        cases point with
        | loadState currentTail newTail =>
          simp only [startsAtTrimmed, hcall, Option.bind_some, hpoint, Bool.and_eq_true,
            beq_iff_eq] at htrimmed
          obtain ⟨rfl, hstate⟩ := htrimmed
          exact ⟨call, List.mem_of_getElem? hcall, newTail, hpoint, hstate⟩
        | _ => simp [startsAtTrimmed, hcall, hpoint] at htrimmed

/-- What a call knows of its sweep. -/
theorem Call.Sound.sweepPoint {call : Call} {tail : ℕ} {threads : List Call} {point : SweepPoint}
    (hsound : call.Sound g hasher tail threads) (hpoint : call.sweepPoint = some point) :
    point.Sound g tail threads := by
  match call, hpoint with
  | .append entry (.running (.sweep held point)), rfl => exact hsound.2.2
  | .recover hostId (.running (.recovery (.sweep scan point))), rfl => exact hsound

variable (g hasher) in
/-- The invariant of runs without recoveries and without sweeps that start at a trimmed slot. -/
structure Advancing (config : Config Call Memory) : Prop extends Trimming g hasher config where
  owed : ∀ slot < g.capacity, (Pool.ofMemory g config.shared).committedTail ≤ slot →
    (∀ between, (Pool.ofMemory g config.shared).committedTail ≤ between → between ≤ slot →
      (Pool.ofMemory g config.shared).state between = stateCommitted) →
    ∃ call ∈ config.threads, call.Owes (Pool.ofMemory g config.shared).committedTail slot

/-! ### Debts are kept -/

section Owes

variable {tail later slot : ℕ}

/-- Only appends that are about to sweep or sweeping owe anything. -/
theorem Call.Owes.cases {call : Call} (howes : call.Owes tail slot) :
    (∃ entry held, call = .append entry (.running (.flushState held))) ∨
      ∃ entry held point, call = .append entry (.running (.sweep held point)) := by
  cases call with
  | append entry task =>
    cases task with
    | returned result => exact howes.elim
    | running point =>
      cases point with
      | flushState held => exact Or.inl ⟨entry, held, rfl⟩
      | sweep held point => exact Or.inr ⟨entry, held, point, rfl⟩
      | _ => exact howes.elim
  | _ => exact howes.elim

/-- A debt survives a move of the tail that falls short of it. -/
theorem Call.Owes.mono {threads : List Call} {call : Call}
    (hsound : call.Sound g hasher tail threads) (howes : call.Owes tail slot)
    (hless : tail ≤ later) : call.Owes later slot := by
  rcases howes.cases with ⟨entry, held, rfl⟩ | ⟨entry, held, point, rfl⟩
  · trivial
  · cases point with
    | loadTail => trivial
    | loadState currentTail newTail => trivial
    | compareExchange currentTail newTail =>
      obtain ⟨-, -, hcurrent, -⟩ := hsound
      rcases howes with hne | hlt
      · exact Or.inl (by omega)
      · exact Or.inr hlt

/-- A sweep about to move the tail owes only what lies past its new tail. -/
theorem Call.Owes.lt_of_compareExchange {call : Call} {newTail : ℕ}
    (howes : call.Owes tail slot)
    (hpoint : call.sweepPoint = some (.compareExchange tail newTail)) : slot < newTail := by
  rcases howes.cases with ⟨entry, held, rfl⟩ | ⟨entry, held, point, rfl⟩
  · cases hpoint
  · cases hpoint
    exact howes.resolve_left (not_not.mpr rfl)

variable {memory : Memory} {threads : List Call}

theorem SweepPoint.settle_owes {currentTail newTail : ℕ} (hmoved : newTail ≠ currentTail)
    (howes : currentTail ≠ tail ∨ slot < newTail) :
    ∃ next, SweepPoint.settle currentTail newTail = .running next ∧ next.Owes tail slot :=
  ⟨.compareExchange currentTail newTail, by rw [SweepPoint.settle, if_neg hmoved], howes⟩

/-- A sweep that owes an advance over committed slots, does not move the tail in this step and
does not start at a trimmed slot, still owes it. -/
theorem Recovery.advanceCommittedTail_owes (hcontents : Contents g hasher threads
      (Pool.ofMemory g memory)) {point : SweepPoint}
    (hsound : point.Sound g (Pool.ofMemory g memory).committedTail threads)
    (hslot : slot < g.capacity) (hlow : (Pool.ofMemory g memory).committedTail ≤ slot)
    (hcommitted : ∀ between, (Pool.ofMemory g memory).committedTail ≤ between → between ≤ slot →
      (Pool.ofMemory g memory).state between = stateCommitted)
    (hclear : ∀ currentTail, point = .loadState currentTail currentTail →
      (Pool.ofMemory g memory).state currentTail ≠ stateAbandoned)
    (hstill : (Pool.ofMemory g ((Recovery.advanceCommittedTail g point).exec
      memory).2).committedTail = (Pool.ofMemory g memory).committedTail) :
    ∃ next, ((Recovery.advanceCommittedTail g point).exec memory).1 = .running next ∧
      next.Owes (Pool.ofMemory g memory).committedTail slot := by
  cases point with
  | loadTail =>
    have hroom : loadWord memory hdrCommittedTail 8 < g.capacity :=
      Nat.lt_of_le_of_lt hlow hslot
    simp only [Recovery.advanceCommittedTail, BackendCall.exec, SweepPoint.scanFrom,
      if_pos hroom]
    exact ⟨_, rfl, trivial⟩
  | loadState currentTail newTail =>
    obtain ⟨hcurrent, hnew, hroom, hstored⟩ := hsound
    simp only [Recovery.advanceCommittedTail, BackendCall.exec,
      asU32_of_lt hroom (Nat.le_of_lt g.capacity_lt), load_state hroom]
    by_cases hstate : (Pool.ofMemory g memory).state newTail = stateCommitted
    · rw [if_neg (not_not.mpr hstate), SweepPoint.scanFrom]
      split_ifs with hnext
      · exact ⟨_, rfl, trivial⟩
      · exact SweepPoint.settle_owes (by omega) (Or.inr (by omega))
    · rw [if_pos hstate]
      have hbeyond : currentTail = (Pool.ofMemory g memory).committedTail → slot < newTail := by
        rintro rfl
        by_contra hle
        exact hstate (hcommitted newTail hnew (Nat.le_of_not_lt hle))
      refine SweepPoint.settle_owes ?_ ?_
      · -- a sweep that stops where it starts has found a slot below the tail abandoned
        rintro rfl
        have hbelow : newTail < (Pool.ofMemory g memory).committedTail := by
          by_contra hge
          exact absurd (hbeyond (by omega)) (by omega)
        obtain ⟨entry, hheld⟩ := hcontents.published newTail hbelow
        rcases hcontents.state_of_stored hheld with hcommitted' | habandoned
        · exact hstate hcommitted'
        · exact hclear newTail rfl habandoned
      · by_cases hsame : currentTail = (Pool.ofMemory g memory).committedTail
        · exact Or.inr (hbeyond hsame)
        · exact Or.inl hsame
  | compareExchange currentTail newTail =>
    obtain ⟨hcurrent, hless, hcapacity, hstored⟩ := hsound
    by_cases hsame : loadWord memory hdrCommittedTail 8 = currentTail
    · simp only [Recovery.advanceCommittedTail, BackendCall.exec, if_pos hsame] at hstill
      have hcapacityLt := g.capacity_lt
      rw [Pool.ofMemory_storeWord_committedTail, Nat.mod_eq_of_lt (by omega)] at hstill
      have htail : (Pool.ofMemory g memory).committedTail = currentTail := hsame
      have hmoved : newTail = (Pool.ofMemory g memory).committedTail := hstill
      omega
    · simp only [Recovery.advanceCommittedTail, BackendCall.exec, if_neg hsame]
      exact ⟨.loadTail, rfl, trivial⟩

/-- An append that owes an advance still owes it after a step that does not move the tail. -/
theorem Call.Owes.step (hcontents : Contents g hasher threads (Pool.ofMemory g memory))
    {call : Call} (howes : call.Owes (Pool.ofMemory g memory).committedTail slot)
    (hsound : call.Sound g hasher (Pool.ofMemory g memory).committedTail threads)
    (hslot : slot < g.capacity) (hlow : (Pool.ofMemory g memory).committedTail ≤ slot)
    (hcommitted : ∀ between, (Pool.ofMemory g memory).committedTail ≤ between → between ≤ slot →
      (Pool.ofMemory g memory).state between = stateCommitted)
    (hclear : ∀ currentTail, call.sweepPoint = some (.loadState currentTail currentTail) →
      (Pool.ofMemory g memory).state currentTail ≠ stateAbandoned)
    (hstill : (Pool.ofMemory g (call.step g hasher memory).2).committedTail =
      (Pool.ofMemory g memory).committedTail) :
    (call.step g hasher memory).1.Owes (Pool.ofMemory g memory).committedTail slot := by
  rcases howes.cases with ⟨entry, held, rfl⟩ | ⟨entry, held, point, rfl⟩
  · rw [Call.step_append]
    trivial
  · rw [Call.step_append] at hstill ⊢
    simp only [FenceRuntime.append, BackendCall.exec_map] at hstill ⊢
    obtain ⟨next, hnext, hnextOwes⟩ := Recovery.advanceCommittedTail_owes hcontents hsound.2.2
      hslot hlow hcommitted (fun currentTail hpoint ↦ hclear currentTail (congrArg some hpoint))
      hstill
    rw [hnext]
    exact hnextOwes

end Owes

/-! ### Steps -/

section Step

variable {config : Config Call Memory} {action : Action Request Empty}

variable {index : ℕ} {call : Call}

/-- The slots a sweep is about to publish are committed. -/
theorem Advancing.committed_of_swept (hadvancing : Advancing g hasher config)
    (hmem : call ∈ config.threads) {newTail : ℕ}
    (hpoint : call.sweepPoint = some (.compareExchange
      (Pool.ofMemory g config.shared).committedTail newTail)) {slot : ℕ}
    (hlow : (Pool.ofMemory g config.shared).committedTail ≤ slot) (hslot : slot < newTail) :
    (Pool.ofMemory g config.shared).state slot = stateCommitted := by
  obtain ⟨-, -, hroom, hstored⟩ :=
    (hadvancing.invariant.contents.sound call hmem).sweepPoint hpoint
  obtain ⟨entry, hstored⟩ := hstored slot hslot
  rcases hadvancing.invariant.contents.state_of_stored hstored with hcommitted | habandoned
  · exact hcommitted
  · have := (hadvancing.trimmed slot (Nat.lt_of_lt_of_le hslot hroom) habandoned).1
    omega

/-- After a step without a sweep that starts at a trimmed slot, the advance over committed slots
is still owed. -/
theorem Advancing.owed_step (hadvancing : Advancing g hasher config)
    (hcall : config.threads[index]? = some call)
    (hclear : startsAtTrimmed g config (.step index) = false) {slot : ℕ}
    (hslot : slot < g.capacity)
    (hlow : (Pool.ofMemory g (call.step g hasher config.shared).2).committedTail ≤ slot)
    (hcommitted : ∀ between,
      (Pool.ofMemory g (call.step g hasher config.shared).2).committedTail ≤ between →
        between ≤ slot → (Pool.ofMemory g (call.step g hasher config.shared).2).state between =
          stateCommitted) :
    ∃ held ∈ config.threads.set index (call.step g hasher config.shared).1,
      held.Owes (Pool.ofMemory g (call.step g hasher config.shared).2).committedTail slot := by
  obtain ⟨heffect, -⟩ := hadvancing.invariant.stepSpec hcall
  have hmem := List.mem_of_getElem? hcall
  have hsound := hadvancing.invariant.contents.sound
  obtain ⟨hindex, -⟩ := List.getElem?_eq_some_iff.mp hcall
  by_cases hcommits : ∃ entry held, (call.step g hasher config.shared).1 =
      .append entry (.running (.flushState held))
  · -- the append that has just committed its slot is about to sweep
    obtain ⟨entry, held, hafter⟩ := hcommits
    exact ⟨_, List.mem_set hindex _, by rw [hafter]; trivial⟩
  · have hbefore : ∀ between,
        (Pool.ofMemory g (call.step g hasher config.shared).2).committedTail ≤ between →
          between ≤ slot → (Pool.ofMemory g config.shared).state between = stateCommitted := by
      intro between hfrom hto
      have hlater := hcommitted between hfrom hto
      rcases heffect.state_cases between with hsame | ⟨hwriting, -⟩ |
        ⟨-, entry, -, hafter⟩ | ⟨habandoned, -⟩
      · exact hsame.symm.trans hlater
      · rw [hwriting] at hlater
        exact absurd hlater (by decide)
      · exact (hcommits ⟨entry, between, hafter⟩).elim
      · rw [habandoned] at hlater
        exact absurd hlater (by decide)
    have hle := heffect.committedTail_le
    have hall : ∀ between, (Pool.ofMemory g config.shared).committedTail ≤ between →
        between ≤ slot → (Pool.ofMemory g config.shared).state between = stateCommitted := by
      intro between hfrom hto
      by_cases hbeyond :
          (Pool.ofMemory g (call.step g hasher config.shared).2).committedTail ≤ between
      · exact hbefore between hbeyond hto
      · rcases heffect.tail_eq_or with hsame | hpoint
        · omega
        · exact hadvancing.committed_of_swept hmem hpoint hfrom (Nat.lt_of_not_le hbeyond)
    have howed := hadvancing.owed slot hslot (Nat.le_trans hle hlow) hall
    refine exists_mem_set hcall ?_ (fun held hheld howes ↦ howes.mono (hsound held hheld) hle)
      howed
    intro howes
    rcases heffect.tail_eq_or with hsame | hpoint
    · rw [hsame]
      refine howes.step hadvancing.invariant.contents (hsound call hmem) hslot
        (hsame ▸ hlow) hall ?_ hsame
      intro currentTail hpoint habandoned
      simp [startsAtTrimmed, hcall, hpoint, habandoned] at hclear
    · -- the sweep that moves the tail here did not owe an advance past the new one
      have := howes.lt_of_compareExchange hpoint
      omega

/-- The debts are kept by every action that starts no recovery and no sweep at a trimmed
slot. -/
theorem Advancing.apply (hadvancing : Advancing g hasher config)
    (hbounded : UndosBounded g hasher config action) (hrecover : startsRecover action = false)
    (hclear : startsAtTrimmed g config action = false) :
    Advancing g hasher ((runtimeMachine g hasher).apply config action) where
  toTrimming := hadvancing.toTrimming.apply hbounded hrecover
  owed := by
    intro slot hslot
    cases action with
    | start request =>
      intro hlow hcommitted
      obtain ⟨call, hmem, howes⟩ := hadvancing.owed slot hslot hlow hcommitted
      exact ⟨call, List.mem_append_left _ hmem, howes⟩
    | env event => exact event.elim
    | step index =>
      cases hcall : config.threads[index]? with
      | none =>
        rw [apply_step_of_none _ hcall]
        exact hadvancing.owed slot hslot
      | some call =>
        rw [apply_step_of_getElem? _ hcall]
        exact hadvancing.owed_step hcall hclear hslot

variable (g hasher) in
/-- The condition on runs under which no advance is lost: the pending undos stay bounded, no
recovery starts, and no sweep starts its scan at a trimmed slot. -/
def KeepsAdvancing (config : Config Call Memory) (action : Action Request Empty) : Prop :=
  UndosBounded g hasher config action ∧ startsRecover action = false ∧
    startsAtTrimmed g config action = false

instance (config : Config Call Memory) (action : Action Request Empty) :
    Decidable (KeepsAdvancing g hasher config action) :=
  inferInstanceAs (Decidable (_ ∧ _))

/-- A pool just created owes nothing. -/
theorem Advancing.fresh : Advancing g hasher (freshConfig g) where
  toTrimming := Trimming.fresh
  owed := by
    intro slot hslot hlow hcommitted
    have hstate := hcommitted slot hlow (Nat.le_refl _)
    rw [freshConfig, ofMemory_freshMemory] at hstate
    exact absurd hstate (by decide : (0 : UInt8) ≠ stateCommitted)

/-- After every run that meets the condition, what has been committed is published or owed. -/
theorem advancing_of_run {schedule : List (Action Request Empty)}
    (hkeeps : (runtimeMachine g hasher).Along (KeepsAdvancing g hasher) schedule
      (freshConfig g)) :
    Advancing g hasher ((runtimeMachine g hasher).run schedule (freshConfig g)) :=
  invariant_run (Advancing g hasher)
    (fun _ _ hadvancing hcondition ↦
      hadvancing.apply hcondition.1 hcondition.2.1 hcondition.2.2) hkeeps Advancing.fresh

end Step

end Fence
