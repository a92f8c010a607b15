import Fence.Protocol.Advance
import Fence.Protocol.Lasting

/-!
# What a finished sweep has reached

A sweep over slots that are all committed does not stop before their end: when it returns, the
committed tail has reached it (`Recovery.advanceCommittedTail_reaches`). A recovery that has
returned, and an append that was acknowledged, has finished a sweep. So in a life that spares the
first slots, all of which were on the media when it began, the tail has passed them as soon as one
such call has returned (`Sweeping`).
-/

set_option autoImplicit false
set_option relaxedAutoImplicit false

namespace Fence

open ByteMemory Interleaving

variable {g : PoolGeometry} {hasher : Hasher}

/-- A call that has finished a sweep. -/
def Call.HasSwept : Call → Prop
  | .append _ (.running (.countAppends _)) => True
  | .append _ (.running (.countBytes _)) => True
  | .append _ (.returned (.ok _)) => True
  | .recover _ (.running (.countRuns _)) => True
  | .recover _ (.running (.countAbandoned _)) => True
  | .recover _ (.returned _) => True
  | _ => False

/-- No call has finished a sweep when it starts. -/
theorem Request.not_hasSwept (request : Request) : ¬ (request.call g).HasSwept := by
  cases request with
  | append entry =>
    rw [Request.call, startAppend]
    split_ifs <;> exact id
  | _ => exact id

/-! ### Sweeps -/

section Sweep

variable {memory : Memory} {count : ℕ}

/-- A sweep that is about to move the tail moves it past the first slots. -/
def SweepPoint.Reaches (count : ℕ) : SweepPoint → Prop
  | .compareExchange _ newTail => count ≤ newTail
  | _ => True

/-- What a sweep over the first slots comes to, given the tail it leaves. -/
def SweepPoint.ReachesTask (count tail : ℕ) : Task SweepPoint ℕ → Prop
  | .running point => point.Reaches count
  | .returned _ => count ≤ tail

theorem SweepPoint.settle_reaches {currentTail newTail tail : ℕ} (hcount : count ≤ newTail)
    (htail : currentTail ≤ tail) :
    SweepPoint.ReachesTask count tail (SweepPoint.settle currentTail newTail) := by
  unfold SweepPoint.settle
  split_ifs with hsame
  · exact (hsame ▸ hcount).trans htail
  · exact hcount

theorem SweepPoint.scanFrom_reaches {currentTail newTail tail : ℕ} (hcount : count ≤ g.capacity)
    (htail : currentTail ≤ tail) :
    SweepPoint.ReachesTask count tail (SweepPoint.scanFrom g currentTail newTail) := by
  unfold SweepPoint.scanFrom
  split_ifs with hroom
  · trivial
  · exact SweepPoint.settle_reaches (hcount.trans (Nat.le_of_not_lt hroom)) htail

/-- A step of a sweep while the first slots are committed. -/
theorem Recovery.advanceCommittedTail_reaches {threads : List Call} {point : SweepPoint}
    (hsound : point.Sound g (tailOf memory) threads) (hcount : count ≤ g.capacity)
    (hcommitted : ∀ slot < count, (Pool.ofMemory g memory).state slot = stateCommitted)
    (hreaches : point.Reaches count) :
    SweepPoint.ReachesTask count (tailOf ((Recovery.advanceCommittedTail g point).exec memory).2)
      ((Recovery.advanceCommittedTail g point).exec memory).1 := by
  cases point with
  | loadTail => exact SweepPoint.scanFrom_reaches hcount (Nat.le_refl _)
  | loadState currentTail newTail =>
    obtain ⟨hcurrent, -, hroom, -⟩ := hsound
    simp only [Recovery.advanceCommittedTail, BackendCall.exec,
      asU32_of_lt hroom (Nat.le_of_lt g.capacity_lt), load_state hroom]
    split_ifs with hstate
    · refine SweepPoint.settle_reaches (Nat.le_of_not_lt fun hbelow ↦ ?_) hcurrent
      exact hstate (hcommitted newTail hbelow)
    · exact SweepPoint.scanFrom_reaches hcount hcurrent
  | compareExchange currentTail newTail =>
    have hword : newTail < 256 ^ 8 := by
      have hcapacity := hsound.2.2.1
      have hcapacityLt := g.capacity_lt
      omega
    simp only [Recovery.advanceCommittedTail, BackendCall.exec]
    split_ifs with hsame
    · unfold tailOf
      rw [loadWord_storeWord_self, Nat.mod_eq_of_lt hword]
      exact hreaches
    · trivial

/-- A recovery ends with its sweep. -/
theorem Recovery.recover_returned {point : RecoverPoint} {report : RecoveryReport}
    (hreturned : ((Recovery.recover g hasher point).exec memory).1 = .returned report) :
    ∃ scan sweep value, point = .sweep scan sweep ∧
      ((Recovery.advanceCommittedTail g sweep).exec memory).1 = .returned value := by
  have hhead : ∀ scan : Scan, scan.head ≠ .returned report := by
    intro scan
    unfold Scan.head
    split_ifs <;> exact fun hsame ↦ by cases hsame
  have hcheck : ∀ (scan : Scan) term index payload storedChecksum,
      scan.check hasher term index payload storedChecksum ≠ .returned report := by
    intro scan term index payload storedChecksum
    unfold Scan.check
    split_ifs
    · exact hhead _
    · exact fun hsame ↦ by cases hsame
  cases point with
  | loadReserveTail => exact absurd hreturned (hhead _)
  | loadState scan =>
    simp only [Recovery.recover, BackendCall.exec] at hreturned
    split_ifs at hreturned
    exact absurd hreturned (hhead _)
  | flushAbandoned scan => exact absurd hreturned (hhead _)
  | loadChecksum scan term index dataLen =>
    simp only [Recovery.recover, BackendCall.exec] at hreturned
    split_ifs at hreturned
    exact absurd hreturned (hcheck _ _ _ _ _)
  | readPayload scan term index payloadLen storedChecksum =>
    exact absurd hreturned (hcheck _ _ _ _ _)
  | sweep scan sweep =>
    cases hnext : ((Recovery.advanceCommittedTail g sweep).exec memory).1 with
    | running next =>
      simp only [Recovery.recover, BackendCall.exec_map, hnext] at hreturned
      cases hreturned
    | returned value => exact ⟨scan, sweep, value, rfl, hnext⟩
  | _ => cases hreturned

/-- A call finishes a sweep only when its sweep returns. -/
theorem Call.hasSwept_step {call : Call} (hswept : (call.step g hasher memory).1.HasSwept) :
    call.HasSwept ∨ ∃ point value, call.sweepPoint = some point ∧
      ((Recovery.advanceCommittedTail g point).exec memory).1 = .returned value := by
  match call with
  | .append entry (.returned outcome) => exact Or.inl hswept
  | .read hostId index (.returned outcome) => exact Or.inl hswept
  | .trim upTo (.returned outcome) => exact Or.inl hswept
  | .recover hostId (.returned report) => exact Or.inl trivial
  | .read hostId index (.running point) =>
    rw [Call.step_read] at hswept
    exact hswept.elim
  | .trim upTo (.running point) =>
    rw [Call.step_trim] at hswept
    exact hswept.elim
  | .append entry (.running point) =>
    rw [Call.step_append] at hswept
    cases point with
    | reserve =>
      simp only [FenceRuntime.append, BackendCall.exec] at hswept
      split_ifs at hswept <;> exact hswept.elim
    | writeDataLen slot =>
      simp only [FenceRuntime.append, BackendCall.exec] at hswept
      split_ifs at hswept <;> exact hswept.elim
    | sweep slot sweep =>
      cases hnext : ((Recovery.advanceCommittedTail g sweep).exec memory).1 with
      | running next =>
        simp only [FenceRuntime.append, BackendCall.exec_map, hnext] at hswept
        exact hswept.elim
      | returned value => exact Or.inr ⟨sweep, value, rfl, hnext⟩
    | countAppends slot => exact Or.inl trivial
    | countBytes slot => exact Or.inl trivial
    | _ => exact hswept.elim
  | .recover hostId (.running (.recovery point)) =>
    rw [Call.step_recover] at hswept
    simp only [FenceRuntime.recover, BackendCall.exec_map] at hswept
    cases hnext : ((Recovery.recover g hasher point).exec memory).1 with
    | running next =>
      rw [hnext] at hswept
      exact hswept.elim
    | returned report =>
      obtain ⟨scan, sweep, value, rfl, hvalue⟩ := Recovery.recover_returned hnext
      exact Or.inr ⟨sweep, value, rfl, hvalue⟩
  | .recover hostId (.running (.countRuns report)) => exact Or.inl trivial
  | .recover hostId (.running (.countAbandoned report)) => exact Or.inl trivial

end Sweep

/-! ### Lives -/

variable (g) in
/-- The first slots last, every sweep that is about to move the tail moves it past them, and the
tail has passed them if a sweep has finished. -/
structure Sweeping (count : ℕ) (config : Config Call CachedMemory) : Prop where
  lasting : ∀ slot < count, Lasting g slot config
  reaches : ∀ call ∈ config.threads, ∀ point, call.sweepPoint = some point → point.Reaches count
  swept : ∀ call ∈ config.threads, call.HasSwept → count ≤ tailOf config.shared.cached

section Life

variable {first count : ℕ} {gone : List Call} {config : Config Call CachedMemory}
  {action : Action Request ℕ}

/-- A step of a call while the first slots last. -/
theorem Sweeping.step (hsweeping : Sweeping g count config)
    (hcarried : Carried g hasher first gone config) (hcount : count ≤ g.capacity) {call : Call}
    (hmem : call ∈ config.threads) :
    (∀ point, (call.step g hasher config.shared.cached).1.sweepPoint = some point →
      point.Reaches count) ∧
      ((call.step g hasher config.shared.cached).1.HasSwept →
        count ≤ tailOf (call.step g hasher config.shared.cached).2) := by
  cases hpoint : call.sweepPoint with
  | none =>
    obtain ⟨hsame, hstarts⟩ :=
      @Call.step_of_no_sweep g hasher _ hpoint config.shared.cached
    refine ⟨fun point hsome ↦ ?_, fun hswept ↦ ?_⟩
    · rw [hstarts point hsome]
      trivial
    · rw [hsame]
      rcases Call.hasSwept_step hswept with hbefore | ⟨point, -, hsome, -⟩
      · exact hsweeping.swept call hmem hbefore
      · rw [hpoint] at hsome
        cases hsome
  | some point =>
    obtain ⟨hmemory, hnext⟩ :=
      @Call.step_of_sweepPoint g hasher _ _ hpoint config.shared.cached
    have hsound := (hcarried.inherited.contents.sound call
      (List.mem_append_right _ hmem)).sweepPoint hpoint
    have htask : SweepPoint.ReachesTask count
        (tailOf ((Recovery.advanceCommittedTail g point).exec config.shared.cached).2)
        ((Recovery.advanceCommittedTail g point).exec config.shared.cached).1 :=
      Recovery.advanceCommittedTail_reaches hsound hcount
        (fun slot hslot ↦ (hsweeping.lasting slot hslot).cached)
        (hsweeping.reaches call hmem point hpoint)
    rw [← hmemory] at htask
    refine ⟨fun next hsome ↦ ?_, fun hswept ↦ ?_⟩
    · rw [hnext] at hsome
      cases hresult : ((Recovery.advanceCommittedTail g point).exec config.shared.cached).1 with
      | running after =>
        rw [hresult] at hsome htask
        cases hsome
        exact htask
      | returned value =>
        rw [hresult] at hsome
        cases hsome
    · rcases Call.hasSwept_step hswept with hbefore | ⟨other, value, hsome, hvalue⟩
      · match call, hpoint with
        | .append entry (.running (.sweep slot point)), rfl => exact hbefore.elim
        | .recover hostId (.running (.recovery (.sweep scan point))), rfl => exact hbefore.elim
      · obtain rfl := Option.some.inj (hpoint.symm.trans hsome)
        rw [hvalue] at htask
        exact htask

/-- Every action that spares the first slots keeps the invariant. -/
theorem Sweeping.apply (hsweeping : Sweeping g count config)
    (hcarried : Carried g hasher first gone config) (hcount : count ≤ g.capacity)
    (hspares : ∀ slot, SparesSlot slot action) :
    Sweeping g count ((cachedMachine g hasher).apply config action) where
  lasting := fun slot hslot ↦ (hsweeping.lasting slot hslot).apply hcarried (hspares slot)
  reaches := by
    cases action with
    | env line => exact hsweeping.reaches
    | start request =>
      intro call hmem point hpoint
      rcases List.mem_append.mp hmem with hold | hnew
      · exact hsweeping.reaches call hold point hpoint
      · rw [List.mem_singleton.mp hnew] at hpoint
        cases (request.call_sweepPoint (g := g)).symm.trans hpoint
    | step index =>
      cases hcall : config.threads[index]? with
      | none =>
        rw [apply_step_of_none _ hcall]
        exact hsweeping.reaches
      | some call =>
        have hafter : ((cachedMachine g hasher).step call config.shared).1 =
            (call.step g hasher config.shared.cached).1 := (call.stepCached_eq config.shared).1
        rw [apply_step_of_getElem? _ hcall]
        refine forall_mem_set _ hcall ?_ fun _ other _ hother ↦
          hsweeping.reaches other (List.mem_of_getElem? hother)
        rw [hafter]
        exact (hsweeping.step hcarried hcount (List.mem_of_getElem? hcall)).1
  swept := by
    have hrises := hcarried.tail_le_apply action
    cases action with
    | env line => exact hsweeping.swept
    | start request =>
      intro call hmem hswept
      rcases List.mem_append.mp hmem with hold | hnew
      · exact hsweeping.swept call hold hswept
      · rw [List.mem_singleton.mp hnew] at hswept
        exact absurd hswept request.not_hasSwept
    | step index =>
      cases hcall : config.threads[index]? with
      | none =>
        rw [apply_step_of_none _ hcall]
        exact hsweeping.swept
      | some call =>
        have hstep := @Call.stepCached_eq g hasher call config.shared
        rw [apply_step_of_getElem? _ hcall] at hrises ⊢
        refine forall_mem_set _ hcall ?_ fun _ other _ hother hswept ↦
          (hsweeping.swept other (List.mem_of_getElem? hother) hswept).trans hrises
        rw [show ((cachedMachine g hasher).step call config.shared).1 = _ from hstep.1,
          show ((cachedMachine g hasher).step call config.shared).2.cached = _ from hstep.2]
        exact (hsweeping.step hcarried hcount (List.mem_of_getElem? hcall)).2

end Life

end Fence
