import Fence.Library.Session
import Fence.Protocol.Represents
import Fence.Protocol.Statistics

/-!
# Pools that represent a log and its statistics

What the service of a pool does to its clients is a log with a table of counters: the operations act
on the log and move the counters on, and a statistics call adds them up (`Journal.serve`). A pool
serves a journal when it holds its log, and no statistics of the build at hand tell its counters
from those of the journal (`Alike`). Then every session on it gets the answers of the journal
(`Serves.answers_iff`).
-/

set_option autoImplicit false
set_option relaxedAutoImplicit false

namespace Fence

open ByteMemory Interleaving

variable {checked : Bool} {g : PoolGeometry} {hasher : Hasher}

/-! ### The journal -/

/-- A log, and the counters of every host. -/
structure Journal where
  log : Log
  counters : ℕ → ℕ → ℕ

/-- The journal of a new pool. -/
def Journal.empty : Journal := ⟨[], fun _ _ ↦ 0⟩

/-- What the journal answers, and what becomes of it. -/
def Journal.serve (checked : Bool) (g : PoolGeometry) :
    ServiceRequest → Journal → ServiceAnswer × Journal
  | .operation request, journal =>
    (.operation (Log.serve g request journal.log).1,
      ⟨(Log.serve g request journal.log).2,
        (request.increments (Log.serve g request journal.log).1).foldl bump journal.counters⟩)
  | .statistics, journal =>
    (.statistics (statsResult checked g.maxHosts journal.counters), journal)

/-- Whether a request is an append. -/
def ServiceRequest.isAppend : ServiceRequest → Bool
  | .operation (.append _) => true
  | _ => false

section Journal

variable (log : Log)

/-- An operation makes the log longer by at most one entry, and only when it is an append. -/
theorem Log.length_serve_le (request : Request) :
    (Log.serve g request log).2.length ≤
      log.length + if (ServiceRequest.operation request).isAppend then 1 else 0 := by
  cases request with
  | append entry =>
    have happend : (ServiceRequest.operation (.append entry)).isAppend = true := rfl
    rw [if_pos happend, Log.serve]
    split_ifs
    · exact Nat.le_succ _
    · exact Nat.le_succ _
    · exact List.length_append.le
  | read hostId index => exact Nat.le_add_right _ _
  | trim upTo =>
    refine Nat.le_add_right_of_le ?_
    rw [Log.serve]
    split_ifs
    · exact Nat.le_refl _
    · exact (log.length_markTrimmed upTo.toNat).le
  | recover hostId => exact Nat.le_add_right _ _

/-- An entry of the log was there before, or is the one appended. -/
theorem Log.mem_serve {request : Request} {item : LogEntry}
    (hitem : item ∈ (Log.serve g request log).2) :
    (∃ old ∈ log, old.entry = item.entry) ∨ request = .append item.entry := by
  cases request with
  | append entry =>
    rw [Log.serve] at hitem
    split_ifs at hitem
    · exact Or.inl ⟨item, hitem, rfl⟩
    · exact Or.inl ⟨item, hitem, rfl⟩
    · rcases List.mem_append.mp hitem with hold | hnew
      · exact Or.inl ⟨item, hold, rfl⟩
      · exact Or.inr (by rw [List.mem_singleton.mp hnew])
  | read hostId index => exact Or.inl ⟨item, hitem, rfl⟩
  | trim upTo =>
    rw [Log.serve] at hitem
    split_ifs at hitem
    · exact Or.inl ⟨item, hitem, rfl⟩
    · obtain ⟨slot, hslot⟩ := List.mem_iff_getElem?.mp hitem
      rw [Log.getElem?_markTrimmed, Option.map_eq_some_iff] at hslot
      obtain ⟨old, hold, rfl⟩ := hslot
      refine Or.inl ⟨old, List.mem_iff_getElem?.mpr ⟨slot, hold⟩, ?_⟩
      split_ifs <;> rfl
  | recover hostId => exact Or.inl ⟨item, hitem, rfl⟩

/-- A record that the log returns is that of one of its entries. -/
theorem Log.mem_of_read {index : ℕ} {record : Record} (hread : log.read index = .ok (some record)) :
    ∃ item ∈ log, ∃ slot, record = item.entry.record slot := by
  rw [Log.read] at hread
  split_ifs at hread with hbounds
  rw [Except.ok.injEq, Option.bind_eq_some_iff] at hread
  obtain ⟨item, hitem, hrecord⟩ := hread
  split_ifs at hrecord
  obtain rfl := Option.some.inj hrecord
  have hindex : index - 1 + 1 = index := by omega
  refine ⟨item, List.mem_iff_getElem?.mpr ⟨_, hitem⟩, index - 1, ?_⟩
  rw [Entry.record, hindex]

end Journal

/-- The log is no longer than the number of appends. -/
theorem Journal.length_serveAll_le (requests : List ServiceRequest) :
    (serveAll (Journal.serve checked g) requests .empty).2.log.length ≤
      requests.countP ServiceRequest.isAppend := by
  refine serveAll_invariant (fun before (journal : Journal) ↦
    journal.log.length ≤ before.countP ServiceRequest.isAppend) ?_ requests (Nat.zero_le _)
  intro before request journal hjournal
  rw [List.countP_append, List.countP_singleton]
  cases request with
  | operation request =>
    exact (Log.length_serve_le _ request).trans (Nat.add_le_add_right hjournal _)
  | statistics => exact hjournal

/-- Every entry of the log was appended. -/
theorem Journal.mem_serveAll (requests : List ServiceRequest) :
    ∀ item ∈ (serveAll (Journal.serve checked g) requests .empty).2.log,
      .operation (.append item.entry) ∈ requests := by
  refine serveAll_invariant (fun before (journal : Journal) ↦
    ∀ item ∈ journal.log, .operation (.append item.entry) ∈ before) ?_ requests ?_
  · intro before request journal hjournal item hitem
    cases request with
    | operation request =>
      rcases Log.mem_serve _ hitem with ⟨old, hold, hentry⟩ | rfl
      · exact List.mem_append_left _ (hentry ▸ hjournal old hold)
      · exact List.mem_append_right _ List.mem_cons_self
    | statistics => exact List.mem_append_left _ (hjournal item hitem)
  · intro item hitem
    cases hitem

/-! ### Serving a journal -/

/-- No statistics tell two tables of counters apart. A build that checks for overflows may see every
counter, since one that wraps takes its sum out of range at another time than the next does. -/
structure Alike (checked : Bool) (hosts : ℕ) (counters others : ℕ → ℕ → ℕ) : Prop where
  totals : ∀ field ∈ metricsFields, total hosts counters field = total hosts others field
  words : checked = true → ∀ hostId < hosts, ∀ field ∈ metricsFields,
    counters hostId field = others hostId field

/-- Equal counters are alike in every build. -/
theorem Alike.of_eq {hosts : ℕ} {counters others : ℕ → ℕ → ℕ}
    (hsame : ∀ hostId < hosts, ∀ field ∈ metricsFields,
      counters hostId field = others hostId field) : Alike checked hosts counters others where
  totals := fun _ hfield ↦
    congrArg (· % 2 ^ 64) (sumOf_congr fun hostId hhost ↦ hsame hostId hhost _ hfield)
  words := fun _ ↦ hsame

theorem Alike.trans {hosts : ℕ} {counters others last : ℕ → ℕ → ℕ}
    (hfirst : Alike checked hosts counters others) (hsecond : Alike checked hosts others last) :
    Alike checked hosts counters last where
  totals := fun field hfield ↦ (hfirst.totals field hfield).trans (hsecond.totals field hfield)
  words := fun hchecked hostId hhost field hfield ↦
    (hfirst.words hchecked hostId hhost field hfield).trans
      (hsecond.words hchecked hostId hhost field hfield)

/-- Statistics of counters that are alike are the same. -/
theorem Alike.statsResult_eq {hosts : ℕ} {counters others : ℕ → ℕ → ℕ}
    (halike : Alike checked hosts counters others) :
    statsResult checked hosts counters = statsResult checked hosts others := by
  have hpanics : (checked = true ∧ ∃ field ∈ metricsFields, 2 ^ 64 ≤ sumOf counters hosts field) ↔
      checked = true ∧ ∃ field ∈ metricsFields, 2 ^ 64 ≤ sumOf others hosts field := by
    refine and_congr_right fun hchecked ↦ exists_congr fun field ↦ and_congr_right fun hfield ↦ ?_
    rw [sumOf_congr fun hostId hhost ↦ halike.words hchecked hostId hhost field hfield]
  rw [statsResult, if_congr hpanics rfl rfl, statsOf_inj.mpr halike.totals, statsResult]

/-- Increments keep counters alike. -/
theorem Alike.foldl_bump {hosts : ℕ} {counters others : ℕ → ℕ → ℕ}
    (halike : Alike checked hosts counters others) (increments : List Increment) :
    Alike checked hosts (increments.foldl bump counters) (increments.foldl bump others) where
  totals := by
    intro field hfield
    rw [total_foldl_bump, total_foldl_bump]
    exact bumpTotal_congr _ halike.totals _ hfield
  words := by
    intro hchecked hostId hhost field hfield
    exact bump_congr (halike.words hchecked hostId hhost field hfield) increments

/-- The pool holds the log of the journal, and its counters are like those of the journal. -/
structure Serves (checked : Bool) (g : PoolGeometry) (hasher : Hasher) (journal : Journal)
    (memory : Memory) : Prop where
  represents : Represents g hasher journal.log (Pool.ofMemory g memory)
  counters : Alike checked g.maxHosts (counter g memory) journal.counters

/-- A call that has answered does not go on. -/
theorem Call.step_of_answer {call : Call} {answer : Answer} (hanswer : call.answer = some answer)
    (memory : Memory) : call.step g hasher memory = (call, memory) := by
  rcases call with ⟨entry, point | outcome⟩ | ⟨hostId, index, point | outcome⟩ |
    ⟨upTo, point | outcome⟩ | ⟨hostId, point | report⟩
  · cases hanswer
  · rfl
  · cases hanswer
  · rfl
  · cases hanswer
  · rfl
  · cases hanswer
  · rfl

theorem ServiceCall.step_of_answer {call : ServiceCall} {answer : ServiceAnswer}
    (hanswer : call.answer = some answer) (memory : Memory) :
    call.step checked g hasher memory = (call, memory) := by
  rcases call with call | point | stats
  · obtain ⟨inner, hinner, -⟩ := Option.map_eq_some_iff.mp hanswer
    rw [ServiceCall.step_operation, Call.step_of_answer hinner]
  · cases hanswer
  · rfl

/-- Every request does to the pool what it does to the journal. -/
theorem Serves.serve {journal : Journal} {memory : Memory}
    (hserves : Serves checked g hasher journal memory) (request : ServiceRequest) :
    ∃ call later, (serviceMachine checked g hasher).Ends (request.start g) memory call later ∧
      call.answer = some (Journal.serve checked g request journal).1 ∧
      Serves checked g hasher (Journal.serve checked g request journal).2 later := by
  cases request with
  | operation request =>
    obtain ⟨call, later, hends, hanswer, hlater, hcounted⟩ := hserves.represents.serve request
    refine ⟨.operation call, later, ServiceCall.ends_operation hends, ?_, hlater, ?_⟩
    · rw [ServiceCall.answer, hanswer]
      rfl
    · exact (Alike.of_eq fun hostId _ field hfield ↦ hcounted hostId field hfield).trans
        (hserves.counters.foldl_bump _)
  | statistics =>
    refine ⟨_, memory, statistics_ends checked g hasher memory, ?_, hserves⟩
    rw [ServiceCall.answer, hserves.counters.statsResult_eq]
    rfl

/-- The answers a pool gives that serves a journal. -/
theorem Serves.answers_iff {journal : Journal} {memory : Memory}
    (hserves : Serves checked g hasher journal memory) (requests : List ServiceRequest)
    (answers : List ServiceAnswer) :
    (∃ later, (serviceMachine checked g hasher).Session ServiceCall.answer requests memory answers
        later) ↔
      answers = (serveAll (Journal.serve checked g) requests journal).1 :=
  Machine.Session.answers_iff (Journal.serve checked g) (Serves checked g hasher)
    (fun _ _ hanswer ↦ ServiceCall.step_of_answer hanswer)
    (fun request _ _ hserves ↦ hserves.serve request) requests hserves answers

/-- What a session leaves on a pool that serves a journal. -/
theorem Serves.session {journal : Journal} {memory later : Memory}
    (hserves : Serves checked g hasher journal memory) {requests : List ServiceRequest}
    {answers : List ServiceAnswer}
    (hsession : (serviceMachine checked g hasher).Session ServiceCall.answer requests memory answers
      later) :
    answers = (serveAll (Journal.serve checked g) requests journal).1 ∧
      Serves checked g hasher (serveAll (Journal.serve checked g) requests journal).2 later := by
  obtain ⟨other, hother, hrepresents⟩ := Machine.Session.refines (Journal.serve checked g)
    (Serves checked g hasher) (fun request _ _ hserves ↦ hserves.serve request) requests hserves
  obtain ⟨rfl, rfl⟩ := hsession.unique (fun _ _ hanswer ↦ ServiceCall.step_of_answer hanswer)
    hother
  exact ⟨rfl, hrepresents⟩

end Fence
