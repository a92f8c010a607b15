import Fence.Protocol.TailRuns
import Fence.Protocol.Lives
import Mathlib.Data.List.Induction
import Mathlib.Logic.Relation

/-!
# Records that last

A slot is marked abandoned by a trim that reaches it, or by a recovery that found it in a state
other than committed; what is committed passes the checksum test (`Call.abandoning_step`). So a
record that is committed on the media when a life begins stays committed, in the cache and on the
media, as long as no trim reaches it (`Lasting.apply`). A committed state byte that is not on the
media is that of an append that is about to flush it (`Flushing`), so a record that was acknowledged
is on the media. Its entry outlives the calls of its life, and `KeepsRecord` is what is known of it
at the beginning of every later one.
-/

set_option autoImplicit false
set_option relaxedAutoImplicit false

namespace Fence

open ByteMemory Interleaving

variable {g : PoolGeometry} {hasher : Hasher}

/-! ### Who abandons a slot -/

/-- A request that trims no record from a slot on. -/
def Request.Spares (slot : ℕ) : Request → Prop
  | .trim upTo => upTo.toNat ≤ slot
  | _ => True

instance (slot : ℕ) : DecidablePred (Request.Spares slot)
  | .trim upTo => inferInstanceAs (Decidable (upTo.toNat ≤ slot))
  | .append _ => isTrue trivial
  | .read _ _ => isTrue trivial
  | .recover _ => isTrue trivial

/-- An action that starts no trim of a slot. -/
def SparesSlot (slot : ℕ) : Action Request ℕ → Prop
  | .start request => request.Spares slot
  | _ => True

instance (slot : ℕ) : DecidablePred (SparesSlot slot)
  | .start request => inferInstanceAs (Decidable (request.Spares slot))
  | .step _ => isTrue trivial
  | .env _ => isTrue trivial

/-- An action that spares a slot spares those after it. -/
theorem SparesSlot.mono {slot other : ℕ} {action : Action Request ℕ}
    (hspares : SparesSlot slot action) (hle : slot ≤ other) : SparesSlot other action := by
  match action with
  | .start (.trim upTo) => exact Nat.le_trans hspares hle
  | .start (.append entry) => trivial
  | .start (.read hostId index) => trivial
  | .start (.recover hostId) => trivial
  | .step index => trivial
  | .env line => trivial

section Abandon

variable {threads : List Call} {memory : Memory}

theorem Scan.head_ne_storeAbandoned (scan next : Scan) :
    scan.head ≠ .running (.storeAbandoned next) := by
  unfold Scan.head
  split_ifs <;> exact fun hsame ↦ by cases hsame

/-- A recovery comes to abandon a slot only if it finds it in a state other than committed. -/
theorem Recovery.recover_abandons (hrely : Rely g hasher threads (Pool.ofMemory g memory))
    {point : RecoverPoint}
    (hsound : point.Sound g hasher (Pool.ofMemory g memory).committedTail threads) {scan : Scan}
    (habandons : ((Recovery.recover g hasher point).exec memory).1 =
      .running (.storeAbandoned scan)) :
    (Pool.ofMemory g memory).state scan.slot ≠ stateCommitted := by
  have hchecked : ∀ (held : Scan) (entry : Entry),
      held.check hasher entry.term.toNat (held.slot + 1) entry.data
        (Checksum.compute hasher entry.term.toNat (held.slot + 1) entry.data) ≠
          .running (.storeAbandoned scan) := by
    intro held entry
    rw [Scan.check, if_pos (Checksum.verify_compute _ _ _)]
    exact Scan.head_ne_storeAbandoned _ _
  cases point with
  | loadReserveTail => exact absurd habandons (Scan.head_ne_storeAbandoned _ _)
  | loadState held =>
    obtain ⟨hslot, hscan⟩ := hsound
    simp only [Recovery.recover, BackendCall.exec,
      load_state (Nat.lt_of_lt_of_le hslot hscan)] at habandons
    split_ifs at habandons with hwriting hcommitted hknown
    · cases habandons
      rw [hwriting]
      decide
    · cases habandons
    · exact absurd habandons (Scan.head_ne_storeAbandoned _ _)
    · cases habandons
      exact hcommitted
  | flushAbandoned held => exact absurd habandons (Scan.head_ne_storeAbandoned _ _)
  | loadChecksum held term index dataLen =>
    obtain ⟨hscan, entry, hstored, rfl, rfl, rfl⟩ := hsound
    obtain ⟨hslot, hsize, hcomplete⟩ := hrely.complete_of_stored _ _ hstored
    have hchecksum : loadWord memory (g.recordOffset held.slot + recChecksum) 8 = _ :=
      (loadWord_meta hslot (by decide)).trans hcomplete.checksum
    simp only [Recovery.recover, BackendCall.exec, hchecksum] at habandons
    rw [Nat.min_eq_left hsize] at habandons
    split_ifs at habandons with hdata
    · cases habandons
    · have hempty : [] = entry.data :=
        (List.eq_nil_of_length_eq_zero (Nat.eq_zero_of_not_pos hdata)).symm
      rw [hempty] at habandons
      exact absurd habandons (hchecked held entry)
  | readPayload held term index payloadLen storedChecksum =>
    obtain ⟨hscan, entry, hstored, rfl, rfl, rfl, rfl⟩ := hsound
    obtain ⟨hslot, hsize, hcomplete⟩ := hrely.complete_of_stored _ _ hstored
    have hpayload : load memory (g.recordOffset held.slot + recordMetaSize)
        entry.data.length = _ := (load_payload hslot hsize).trans hcomplete.payload
    simp only [Recovery.recover, BackendCall.exec, hpayload] at habandons
    exact absurd habandons (hchecked held entry)
  | sweep held point =>
    simp only [Recovery.recover, BackendCall.exec_map] at habandons
    cases hnext : ((Recovery.advanceCommittedTail g point).exec memory).1 with
    | running next =>
      rw [hnext] at habandons
      cases habandons
    | returned value =>
      rw [hnext] at habandons
      cases habandons
  | _ => cases habandons

/-- A trim comes to abandon only slots below its bound. -/
theorem Compaction.trim_abandons {upTo : ℕ} {point : TrimPoint} {tail slot count : ℕ}
    (hsound : point.Sound tail threads upTo)
    (habandons : ((Compaction.trim g upTo point).exec memory).1 =
      .running (.storeAbandoned slot count)) : slot < upTo := by
  have hhead : ∀ first marked,
      TrimPoint.head upTo first marked ≠ .running (.storeAbandoned slot count) := by
    intro first marked
    unfold TrimPoint.head
    split_ifs <;> exact fun hsame ↦ by cases hsame
  cases point with
  | loadTail =>
    simp only [Compaction.trim, BackendCall.exec] at habandons
    split_ifs at habandons
    exact absurd habandons (hhead _ _)
  | loadState held marked =>
    simp only [Compaction.trim, BackendCall.exec] at habandons
    split_ifs at habandons
    · cases habandons
      exact hsound.1
    · exact absurd habandons (hhead _ _)
  | storeAbandoned held marked => cases habandons
  | flushAbandoned held marked => exact absurd habandons (hhead _ _)

/-- A call comes to abandon a slot only if it finds it in a state other than committed, or trims
it. -/
theorem Call.abandoning_step (hrely : Rely g hasher threads (Pool.ofMemory g memory)) {call : Call}
    (hsound : call.Sound g hasher (Pool.ofMemory g memory).committedTail threads) {slot : ℕ}
    (hspares : call.request.Spares slot)
    (hcommitted : (Pool.ofMemory g memory).state slot = stateCommitted) :
    (call.step g hasher memory).1.abandoning ≠ some slot := by
  match call with
  | .append entry (.running point) =>
    rw [Call.step_append]
    exact fun habandoning ↦ by cases habandoning
  | .read hostId index (.running point) =>
    rw [Call.step_read]
    exact fun habandoning ↦ by cases habandoning
  | .append entry (.returned outcome) => exact fun habandoning ↦ by cases habandoning
  | .read hostId index (.returned outcome) => exact fun habandoning ↦ by cases habandoning
  | .trim upTo (.returned outcome) => exact fun habandoning ↦ by cases habandoning
  | .recover hostId (.returned report) => exact fun habandoning ↦ by cases habandoning
  | .trim upTo (.running point) =>
    rw [Call.step_trim]
    intro habandoning
    cases hnext : ((Compaction.trim g upTo.toNat point).exec memory).1 with
    | returned outcome =>
      rw [hnext] at habandoning
      cases habandoning
    | running next =>
      rw [hnext] at habandoning
      cases next with
      | storeAbandoned held count =>
        cases habandoning
        have hbelow := Compaction.trim_abandons hsound hnext
        have hbound : upTo.toNat ≤ slot := hspares
        omega
      | _ => cases habandoning
  | .recover hostId (.running (.recovery point)) =>
    rw [Call.step_recover]
    simp only [FenceRuntime.recover, BackendCall.exec_map]
    intro habandoning
    cases hnext : ((Recovery.recover g hasher point).exec memory).1 with
    | returned report =>
      rw [hnext] at habandoning
      cases habandoning
    | running next =>
      rw [hnext] at habandoning
      cases next with
      | storeAbandoned scan =>
        cases habandoning
        exact Recovery.recover_abandons hrely hsound hnext hcommitted
      | _ => cases habandoning
  | .recover hostId (.running (.countRuns report)) =>
    rw [Call.step_recover]
    simp only [FenceRuntime.recover, Metrics.incrementRecoveryRuns, exec_incrementCounter_fst]
    split_ifs <;> exact fun habandoning ↦ by cases habandoning
  | .recover hostId (.running (.countAbandoned report)) =>
    rw [Call.step_recover]
    exact fun habandoning ↦ by cases habandoning

end Abandon

/-! ### Actions -/

section Apply

variable {first slot : ℕ} {gone : List Call} {config : Config Call CachedMemory}
  {action : Action Request ℕ}

/-- Every byte of the media is what it was or what the cache held. -/
theorem media_mixes_apply (config : Config Call CachedMemory) (action : Action Request ℕ) :
    Mixes config.shared.media config.shared.cached
      ((cachedMachine g hasher).apply config action).shared.media := by
  cases action with
  | start request => exact fun _ ↦ Or.inl rfl
  | env line => exact CachedMemory.writeBack_media line config.shared
  | step index =>
    cases hcall : config.threads[index]? with
    | none =>
      rw [apply_step_of_none _ hcall]
      exact fun _ ↦ Or.inl rfl
    | some call =>
      rw [apply_step_of_getElem? _ hcall]
      exact call.stepCached_media config.shared

/-- A state byte that is committed in the cache and on the media is so after any mix. -/
theorem Mixes.committed {media cached later : Memory} (hmixes : Mixes media cached later)
    (hmedia : (Pool.ofMemory g media).state slot = stateCommitted)
    (hcached : (Pool.ofMemory g cached).state slot = stateCommitted) :
    (Pool.ofMemory g later).state slot = stateCommitted := by
  rcases hmixes.slot (g := g) slot recState with hsame | hsame
  · exact hsame.trans hmedia
  · exact hsame.trans hcached

/-- A slot whose state byte is committed is one of the pool. -/
theorem Pool.lt_capacity_of_committed {memory : Memory}
    (hcommitted : (Pool.ofMemory g memory).state slot = stateCommitted) : slot < g.capacity := by
  by_contra hbeyond
  have hzero : (Pool.ofMemory g memory).state slot = 0 := if_neg fun hinside ↦ hbeyond hinside.1
  exact absurd (hzero.symm.trans hcommitted) (by decide)

section Carried

variable (hcarried : Carried g hasher first gone config)

include hcarried

/-- A committed slot that no call is about to abandon stays committed. -/
theorem Carried.committed_apply
    (hcommitted : (Pool.ofMemory g config.shared.cached).state slot = stateCommitted)
    (hspared : ∀ call ∈ config.threads, call.abandoning ≠ some slot) :
    (Pool.ofMemory g ((cachedMachine g hasher).apply config action).shared.cached).state slot =
      stateCommitted := by
  cases action with
  | start request => exact hcommitted
  | env line => exact hcommitted
  | step index =>
    cases hcall : config.threads[index]? with
    | none => rwa [apply_step_of_none _ hcall]
    | some call =>
      have hcall' : (withoutMedia config).threads[index]? = some call := hcall
      rw [apply_step_of_getElem? _ hcall]
      have hlater := (@Call.stepCached_eq g hasher call config.shared).2
      rw [show ((cachedMachine g hasher).step call config.shared).2.cached = _ from hlater]
      rcases (hcarried.inherited.stepSpec hcall').1.state_cases slot with hsame |
        ⟨-, entry, rfl⟩ | ⟨hafter, -⟩ | ⟨-, habandoning, -⟩
      · exact hsame.trans hcommitted
      · -- the slot of an append that has not begun is free
        have hmem := List.mem_append_right gone (List.mem_of_getElem? hcall')
        have hfree := StateAt.zero_iff.mp
          (hcarried.inherited.contents.written _ hmem slot entry 0 rfl).2
        have hstate := Pool.state_writeOff_free.mp hfree
        exact absurd (hstate.symm.trans hcommitted) (by decide)
      · exact hafter
      · exact absurd habandoning (hspared call (List.mem_of_getElem? hcall))

/-- A slot that has become committed is that of an append that is about to flush its state. -/
theorem Carried.committed_of_apply
    (hcommitted : (Pool.ofMemory g
      ((cachedMachine g hasher).apply config action).shared.cached).state slot = stateCommitted) :
    (Pool.ofMemory g config.shared.cached).state slot = stateCommitted ∨
      ∃ entry, .append entry (.running (.flushState slot)) ∈
        ((cachedMachine g hasher).apply config action).threads := by
  cases action with
  | start request => exact Or.inl hcommitted
  | env line => exact Or.inl hcommitted
  | step index =>
    cases hcall : config.threads[index]? with
    | none =>
      rw [apply_step_of_none _ hcall] at hcommitted
      exact Or.inl hcommitted
    | some call =>
      have hcall' : (withoutMedia config).threads[index]? = some call := hcall
      obtain ⟨hplace, -⟩ := List.getElem?_eq_some_iff.mp hcall
      rw [apply_step_of_getElem? _ hcall] at hcommitted ⊢
      have hstep := @Call.stepCached_eq g hasher call config.shared
      rw [show ((cachedMachine g hasher).step call config.shared).2.cached = _ from
        hstep.2] at hcommitted
      rcases (hcarried.inherited.stepSpec hcall').1.state_cases slot with hsame |
        ⟨hwriting, -⟩ | ⟨-, entry, -, hafter⟩ | ⟨habandoned, -⟩
      · exact Or.inl (hsame.symm.trans hcommitted)
      · exact absurd (hwriting.symm.trans hcommitted) (by decide)
      · refine Or.inr ⟨entry, ?_⟩
        rw [← hafter, show ((cachedMachine g hasher).step call config.shared).1 = _ from hstep.1]
        exact List.mem_set hplace _
      · exact absurd (habandoned.symm.trans hcommitted) (by decide)

end Carried

/-! ### Invariants of a life -/

variable (g) in
/-- A slot is committed in the cache and on the media, and no call is about to abandon it. -/
structure Lasting (slot : ℕ) (config : Config Call CachedMemory) : Prop where
  cached : (Pool.ofMemory g config.shared.cached).state slot = stateCommitted
  media : (Pool.ofMemory g config.shared.media).state slot = stateCommitted
  spared : ∀ call ∈ config.threads, call.abandoning ≠ some slot ∧ call.request.Spares slot

/-- A request starts a call that abandons nothing. -/
theorem Request.call_abandoning (request : Request) : (request.call g).abandoning = none := by
  cases request with
  | append entry =>
    rw [Request.call, startAppend]
    split_ifs <;> rfl
  | read hostId index =>
    rw [Request.call, startRead]
    split_ifs <;> rfl
  | trim upTo => rfl
  | recover hostId => rfl

/-- A slot lasts, whatever calls run, as long as none trims it. -/
theorem Lasting.apply (hlasting : Lasting g slot config)
    (hcarried : Carried g hasher first gone config) (hspares : SparesSlot slot action) :
    Lasting g slot ((cachedMachine g hasher).apply config action) where
  cached := hcarried.committed_apply hlasting.cached fun call hmem ↦ (hlasting.spared call hmem).1
  media := (media_mixes_apply config action).committed hlasting.media hlasting.cached
  spared := by
    cases action with
    | env line => exact hlasting.spared
    | start request =>
      intro call hmem
      rcases List.mem_append.mp hmem with hold | hnew
      · exact hlasting.spared call hold
      · rw [List.mem_singleton.mp hnew]
        refine ⟨?_, ?_⟩
        · rw [show (cachedMachine g hasher).start request = request.call g from rfl,
            request.call_abandoning]
          exact fun hnone ↦ by cases hnone
        · rwa [show (cachedMachine g hasher).start request = request.call g from rfl,
            request.request_call]
    | step index =>
      cases hcall : config.threads[index]? with
      | none =>
        rw [apply_step_of_none _ hcall]
        exact hlasting.spared
      | some call =>
        have hmem := List.mem_of_getElem? hcall
        have hafter : ((cachedMachine g hasher).step call config.shared).1 =
            (call.step g hasher config.shared.cached).1 := (call.stepCached_eq config.shared).1
        rw [apply_step_of_getElem? _ hcall]
        refine forall_mem_set _ hcall ?_ fun _ other _ hother ↦
          hlasting.spared other (List.mem_of_getElem? hother)
        rw [hafter, call.request_step]
        exact ⟨call.abandoning_step hcarried.inherited.rely
          (hcarried.inherited.contents.sound call (List.mem_append_right _ hmem))
          (hlasting.spared call hmem).2 hlasting.cached, (hlasting.spared call hmem).2⟩

variable (g) in
/-- A slot that is committed is so on the media, or an append is about to flush its state. -/
def Flushing (config : Config Call CachedMemory) : Prop :=
  ∀ slot < g.capacity, (Pool.ofMemory g config.shared.cached).state slot = stateCommitted →
    (Pool.ofMemory g config.shared.media).state slot = stateCommitted ∨
      ∃ entry, .append entry (.running (.flushState slot)) ∈ config.threads

/-- Every action keeps this so. -/
theorem Flushing.apply (hflushing : Flushing g config)
    (hcarried : Carried g hasher first gone config) :
    Flushing g ((cachedMachine g hasher).apply config action) := by
  intro slot hslot hcommitted
  rcases hcarried.committed_of_apply hcommitted with hbefore | hflushes
  · rcases hflushing slot hslot hbefore with hmedia | ⟨entry, hmem⟩
    · exact Or.inl ((media_mixes_apply config action).committed hmedia hbefore)
    · cases action with
      | env line => exact Or.inr ⟨entry, hmem⟩
      | start request => exact Or.inr ⟨entry, List.mem_append_left _ hmem⟩
      | step index =>
        cases hcall : config.threads[index]? with
        | none =>
          rw [apply_step_of_none _ hcall]
          exact Or.inr ⟨entry, hmem⟩
        | some call =>
          rw [apply_step_of_getElem? _ hcall]
          by_cases hsame : call = .append entry (.running (.flushState slot))
          · subst hsame
            exact Or.inl ((ofMemory_flush_state hslot).trans hbefore)
          · obtain ⟨place, hplace⟩ := List.mem_iff_getElem?.mp hmem
            refine Or.inr ⟨entry, List.mem_of_getElem? (i := place) ?_⟩
            rw [List.getElem?_set_ne, hplace]
            rintro rfl
            exact hsame (Option.some.inj (hcall.symm.trans hplace))
  · exact Or.inr hflushes

end Apply

/-! ### Lives -/

section Lives

variable {first : ℕ} {gone : List Call} {memory : CachedMemory}
  {schedule : List (Action Request ℕ)}

/-- What every action of a short life keeps holds at its end. -/
theorem Carried.keeps (hcarried : Carried g hasher first gone ⟨memory, []⟩)
    (property : Config Call CachedMemory → Prop)
    (hstep : ∀ config action, action ∈ schedule → Carried g hasher first gone config →
      property config → property ((cachedMachine g hasher).apply config action))
    (hbegin : property ⟨memory, []⟩) (hshort : ShortLife g hasher memory schedule) :
    property (life g hasher memory schedule) := by
  induction schedule using List.reverseRecOn with
  | nil => exact hbegin
  | append_singleton before action ih =>
    have hmoment := hcarried.lives hshort.of_append
    rw [life_append, run_cons, run_nil]
    exact hstep _ _ (List.mem_append_right _ List.mem_cons_self) hmoment
      (ih (fun config other hother ↦ hstep config other (List.mem_append_left _ hother))
        hshort.of_append)

/-- The committed tail only rises in a life. -/
theorem Carried.tail_le_life (hcarried : Carried g hasher first gone ⟨memory, []⟩)
    {before after : List (Action Request ℕ)}
    (hshort : ShortLife g hasher memory (before ++ after)) :
    tailOf (life g hasher memory before).shared.cached ≤
      tailOf (life g hasher memory (before ++ after)).shared.cached := by
  induction after using List.reverseRecOn with
  | nil => rw [List.append_nil]
  | append_singleton rest action ih =>
    rw [← List.append_assoc] at hshort ⊢
    refine (ih hshort.of_append).trans ?_
    rw [life_append memory (before ++ rest), run_cons, run_nil]
    exact (hcarried.lives hshort.of_append).tail_le_apply action

/-- A life begins with the cache as the media is. -/
theorem Opened.clean {past : List Call} (hopened : Opened g hasher past memory) :
    memory.cached = memory.media := by
  cases hopened with
  | created =>
    rw [freshCached_shared]
    rfl
  | reopened hopened hshort hcovers => rfl

variable (g hasher) in
/-- One life follows another: a short life that spares a slot, and a failure at which the reserve
tail on the media covers the slots that have reached it. -/
def Succeeds (slot : ℕ) (memory later : CachedMemory) : Prop :=
  ∃ schedule, (∀ action ∈ schedule, SparesSlot slot action) ∧ ShortLife g hasher memory schedule ∧
    SavedTailCovers g (life g hasher memory schedule).shared.media ∧
    later = (life g hasher memory schedule).shared.powerFailure

theorem Succeeds.mono {slot other : ℕ} {later : CachedMemory}
    (hsucceeds : Succeeds g hasher slot memory later) (hle : slot ≤ other) :
    Succeeds g hasher other memory later := by
  obtain ⟨schedule, hspares, hends⟩ := hsucceeds
  exact ⟨schedule, fun action haction ↦ (hspares action haction).mono hle, hends⟩

variable (g hasher) in
/-- A life begins with a slot committed that holds an entry. -/
structure KeepsRecord (slot : ℕ) (entry : Entry) (memory : CachedMemory) : Prop where
  clean : memory.cached = memory.media
  committed : (Pool.ofMemory g memory.media).state slot = stateCommitted
  held : ∃ first lost gone,
    Carried g hasher first (List.replicate lost (lostUndo g) ++ gone) ⟨memory, []⟩ ∧
      Stored gone slot entry

variable {slot : ℕ} {entry : Entry}

/-- A slot that is kept lasts through a life that spares it. -/
theorem KeepsRecord.lasting (hkeeps : KeepsRecord g hasher slot entry memory)
    (hspares : ∀ action ∈ schedule, SparesSlot slot action)
    (hshort : ShortLife g hasher memory schedule) :
    Lasting g slot (life g hasher memory schedule) := by
  obtain ⟨first, lost, gone, hcarried, -⟩ := hkeeps.held
  refine hcarried.keeps (Lasting g slot) (fun config action haction hmoment hlasting ↦
    hlasting.apply hmoment (hspares action haction)) ?_ hshort
  exact
    { cached := (congrArg (fun bytes ↦ (Pool.ofMemory g bytes).state slot) hkeeps.clean).trans
        hkeeps.committed
      media := hkeeps.committed
      spared := fun call hmem ↦ by cases hmem }

/-- A slot that is kept is kept in the next life. -/
theorem KeepsRecord.succeeds (hkeeps : KeepsRecord g hasher slot entry memory)
    {later : CachedMemory}
    (hsucceeds : Succeeds g hasher slot memory later) : KeepsRecord g hasher slot entry later := by
  obtain ⟨schedule, hspares, hshort, hcovers, rfl⟩ := hsucceeds
  obtain ⟨first, lost, gone, hcarried, hstored⟩ := hkeeps.held
  have hend := hcarried.lives hshort
  have hlive : Stored (gone ++ (life g hasher memory schedule).threads) slot entry := by
    obtain ⟨call, hmem, rest⟩ := hstored
    exact ⟨call, List.mem_append_left _ hmem, rest⟩
  exact
    { clean := rfl
      committed := (hkeeps.lasting hspares hshort).media
      held := ⟨_, _, _, hend.remains hcovers,
        Stored.left hlive (hend.lt_savedTail hcovers hlive)⟩ }

theorem KeepsRecord.outlives (hkeeps : KeepsRecord g hasher slot entry memory)
    {later : CachedMemory}
    (houtlives : Relation.ReflTransGen (Succeeds g hasher slot) memory later) :
    KeepsRecord g hasher slot entry later := by
  induction houtlives with
  | refl => exact hkeeps
  | tail _ hsucceeds ih => exact ih.succeeds hsucceeds

/-- A slot that was committed when a life began is kept, with the entry stored there. -/
theorem Opened.keeps {past : List Call} (hopened : Opened g hasher past memory)
    (hcommitted : (Pool.ofMemory g memory.media).state slot = stateCommitted) :
    KeepsRecord g hasher slot (storedEntry ((Pool.ofMemory g memory.media).slot slot)) memory := by
  obtain ⟨first, lost, gone, hcarried, -⟩ := hopened.carried
  have hslot : slot < g.capacity := Pool.lt_capacity_of_committed hcommitted
  obtain ⟨entry, hstored⟩ := hcarried.backed.committed slot hslot hcommitted
  have hcomplete := (hcarried.inherited.rely.complete_of_stored slot entry hstored).2.2
  have hentry : storedEntry ((Pool.ofMemory g memory.media).slot slot) = entry := by
    rw [← hopened.clean]
    exact hcomplete.storedEntry_eq
  rw [List.append_nil] at hstored
  rw [hentry]
  exact ⟨hopened.clean, hcommitted, first, lost, gone, hcarried,
    reached_lostUndo_append.mp hstored⟩

/-- The slot of an append that was acknowledged is kept, if it is still committed when the power
fails. -/
theorem Opened.keeps_of_acknowledged {past : List Call} {number : ℕ}
    (hopened : Opened g hasher past memory) (hshort : ShortLife g hasher memory schedule)
    (hcovers : SavedTailCovers g (life g hasher memory schedule).shared.media)
    (hacknowledged : .append entry (.returned (.ok number)) ∈
      past ++ (life g hasher memory schedule).threads)
    (hcommitted : (Pool.ofMemory g
      (life g hasher memory schedule).shared.cached).state (number - 1) = stateCommitted) :
    KeepsRecord g hasher (number - 1) entry
      (life g hasher memory schedule).shared.powerFailure := by
  obtain ⟨first, lost, gone, hcarried, hremembers⟩ := hopened.carried
  have hend := hcarried.lives hshort
  obtain ⟨index, hindex⟩ := List.mem_iff_getElem?.mp hacknowledged
  obtain ⟨held, later, hheld, hlater, hreserves⟩ :=
    (hremembers.live hend).stored index _ hindex (number - 1) entry 13 (by decide) rfl
  have hholds := holds_of_reservation hheld hreserves
  have hstored : Stored (gone ++ (life g hasher memory schedule).threads) (number - 1) entry :=
    ⟨held, List.mem_of_getElem? hheld, later, hlater, hreserves⟩
  have hflushing : Flushing g (life g hasher memory schedule) := by
    refine hcarried.keeps (Flushing g)
      (fun config action _ hmoment hflushing ↦ hflushing.apply hmoment) ?_ hshort
    intro slot _ hstate
    rw [hopened.clean] at hstate
    exact Or.inl hstate
  have hmedia : (Pool.ofMemory g
      (life g hasher memory schedule).shared.media).state (number - 1) = stateCommitted := by
    refine (hflushing _ (hend.slot_lt hholds) hcommitted).resolve_right ?_
    -- the append that holds the slot has returned, so nobody is about to flush it
    rintro ⟨other, hmem⟩
    obtain ⟨place, hplace⟩ := List.mem_iff_getElem?.mp hmem
    have hflushes := @getElem?_gone_append gone _ _ _ hplace
    obtain rfl := hend.exclusive_calls hholds (holds_of_reservation hflushes rfl)
    rw [hremembers.length_eq, getElem?_gone_append hplace] at hindex
    cases hindex
  exact
    { clean := rfl
      committed := hmedia
      held := ⟨_, _, _, hend.remains hcovers,
        Stored.left hstored (hend.lt_savedTail hcovers hstored)⟩ }

/-- A read of a slot that is kept returns its record, unless the tail is still below it. -/
theorem KeepsRecord.read (hkeeps : KeepsRecord g hasher slot entry memory)
    {before after : List (Action Request ℕ)}
    (hspares : ∀ action ∈ before ++ after, SparesSlot slot action)
    (hshort : ShortLife g hasher memory (before ++ after)) {index : ℕ} {hostId : UInt16}
    {readIndex : UInt64} {outcome : Except FenceError (Option Record)}
    (hstarted : (life g hasher memory before).threads.length ≤ index)
    (hindex : readIndex.toNat = slot + 1)
    (hreturned : (life g hasher memory (before ++ after)).threads[index]? =
      some (.read hostId readIndex (.returned outcome))) :
    ∃ middle rest, after = middle ++ rest ∧
      outcome = if slot < tailOf (life g hasher memory (before ++ middle)).shared.cached then
          .ok (some (entry.record slot))
        else .error (.indexOutOfBounds (slot + 1)
          (tailOf (life g hasher memory (before ++ middle)).shared.cached)) := by
  obtain ⟨first, lost, gone, hcarried, hstored⟩ := hkeeps.held
  obtain ⟨middle, rest, point, rfl, -, houtcome⟩ :=
    hcarried.read_moment hshort hstarted hreturned
  rw [← List.append_assoc] at hspares hshort
  have hmoment := hcarried.lives hshort.of_append
  have hlasting := hkeeps.lasting (fun action haction ↦
    hspares action (List.mem_append_left _ haction)) hshort.of_append
  refine ⟨middle, _, rfl, ?_⟩
  rw [houtcome, hindex]
  split_ifs with htail
  · have hlive : Stored (List.replicate lost (lostUndo g) ++ gone ++
        (life g hasher memory (before ++ middle)).threads) slot entry := by
      obtain ⟨call, hmem, rest⟩ := hstored
      exact ⟨call, List.mem_append_left _ (List.mem_append_right _ hmem), rest⟩
    exact (hmoment.inherited.rely.read_publishedLog htail hlive).trans
      (congrArg Except.ok (if_pos hlasting.cached))
  · have hlength : (publishedLog g
        (life g hasher memory (before ++ middle)).shared.cached).length =
          tailOf (life g hasher memory (before ++ middle)).shared.cached :=
      Pool.length_publishedLog _
    rw [Log.read_eq_error (Or.inr (by omega)), hlength]

end Lives

end Fence
