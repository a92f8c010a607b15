import Fence.Core.RawGeometry
import Fence.Library.Session
import Fence.Properties.CreatedPools
import Fence.Properties.LayoutSeparation
import Fence.Protocol.ReadAlone
import Fence.Runtime.Open

/-!
# Pools that are reopened

A pool is created, used by calls one after another, and closed. Its file then has the dimensions in
the header, where no call has touched them (`Closed`). Opening it again without `create` looks at
the magic number only and takes the dimensions of its own caller. `ReopensAs` is what reopening is
there for, and it holds when the caller repeats the dimensions the pool was created with, and only
then (`reopensAs_iff`).
-/

set_option autoImplicit false
set_option relaxedAutoImplicit false

namespace Fence

open ByteMemory Interleaving

variable {checked : Bool} {g : PoolGeometry} {hasher : Hasher} {start memory : Memory}

/-! ### What calls leave alone -/

/-- The dimensions in the header and the bytes past the end are those of the start, and the
committed tail lies within the pool. -/
structure KeepsHeader (g : PoolGeometry) (start memory : Memory) : Prop where
  tail : TailWithin g memory
  same : ∀ address, address < hdrCommittedTail ∨ g.totalSize ≤ address →
    memory address = start address

/-- A step of a bounded call leaves the dimensions alone. -/
theorem KeepsHeader.step (hkeeps : KeepsHeader g start memory) {call : ServiceCall}
    (hcall : call.Bounded g) : KeepsHeader g start (call.step checked g hasher memory).2 := by
  refine ⟨ServiceCall.step_tail hkeeps.tail hcall, fun address houtside ↦ ?_⟩
  rw [← hkeeps.same address houtside, ServiceCall.step]
  cases hnext : call.next checked g hasher with
  | none => rfl
  | some backend =>
    have hlawful := ServiceCall.next_lawful hcall hnext
    refine BackendCall.exec_apply_of_store_outside fun hstore ↦ ?_
    have hheader := hlawful.header hstore
    have hbounds := hlawful.bounds
    omega

/-- Calls of hosts of the pool, one after another, leave the dimensions alone. -/
theorem KeepsHeader.session {requests : List ServiceRequest} {answers : List ServiceAnswer}
    {later : Memory}
    (hhosts : ∀ request ∈ requests, ∀ hostId, request.host = some hostId →
      hostId.toNat < g.maxHosts)
    (hsession : (serviceMachine checked g hasher).Session ServiceCall.answer requests start
      answers later)
    (htail : TailWithin g start) : KeepsHeader g start later := by
  refine hsession.preserves (KeepsHeader g start) ?_ ⟨htail, fun _ _ ↦ rfl⟩
  intro request hmem shared call later hkeeps hends
  exact (hends.preserves (fun call shared ↦ call.Bounded g ∧ KeepsHeader g start shared)
    (fun call shared hboth ↦
      ⟨ServiceCall.step_bounded hboth.2.tail hboth.1, hboth.2.step hboth.1⟩)
    ⟨ServiceRequest.start_bounded (hhosts request hmem), hkeeps⟩).2

/-! ### The header of a closed pool -/

/-- The dimensions are those the header records. -/
structure RecordedIn (g : PoolGeometry) (memory : Memory) : Prop where
  capacity : loadWord memory hdrCapacity 8 = g.capacity
  recordSize : loadWord memory hdrRecordSize 8 = g.recordSize
  maxHosts : loadWord memory hdrMaxHosts 8 = g.maxHosts

/-- Two memories that agree below the tails record the same word there. -/
theorem loadWord_header_congr {first second : Memory} {offset : ℕ}
    (hsame : ∀ address < hdrCommittedTail, first address = second address)
    (hoffset : offset + 8 ≤ hdrCommittedTail) :
    loadWord first offset 8 = loadWord second offset 8 :=
  loadWord_congr (load_congr fun i hi ↦ hsame _ (by omega))

theorem RecordedIn.congr {first second : Memory} (hrecorded : RecordedIn g first)
    (hsame : ∀ address < hdrCommittedTail, first address = second address) :
    RecordedIn g second where
  capacity := (loadWord_header_congr hsame (by decide)).symm.trans hrecorded.capacity
  recordSize := (loadWord_header_congr hsame (by decide)).symm.trans hrecorded.recordSize
  maxHosts := (loadWord_header_congr hsame (by decide)).symm.trans hrecorded.maxHosts

/-- Creating a pool leaves the bytes past the header alone. -/
theorem createHeader_apply_of_le {address : ℕ} (haddress : headerSize ≤ address) :
    createHeader g memory address = memory address := by
  have hheader : headerSize = 64 := rfl
  have hkeep : ∀ {between : Memory} {offset value : ℕ}, offset + 8 ≤ headerSize →
      storeWord between offset 8 value address = between address :=
    fun hfits ↦ store_apply_outside (by rw [length_leBytes]; omega)
  rw [createHeader]
  iterate 7 rw [hkeep (by decide)]

/-- The dimensions of a geometry are those it was made from. -/
theorem PoolGeometry.new_fields {capacity payloadSize : UInt32} {maxHosts : UInt16}
    (hnew : PoolGeometry.new capacity payloadSize maxHosts = some g) :
    g.capacity = capacity.toNat ∧ g.payloadSize = payloadSize.toNat ∧
      g.maxHosts = maxHosts.toNat := by
  unfold PoolGeometry.new at hnew
  split_ifs at hnew
  rw [← Option.some.inj hnew]
  exact ⟨rfl, rfl, rfl⟩

/-- Creating a pool records its dimensions and the magic number. -/
theorem recordedIn_createHeader (g : PoolGeometry) (memory : Memory) :
    RecordedIn g (createHeader g memory) ∧
      loadWord (createHeader g memory) hdrMagic 8 = magicNumber := by
  have hcapacity := g.capacity_lt
  have hrecord := g.recordSize_lt
  have hhosts := g.maxHosts_lt
  have hskip : ∀ {between : Memory} {offset other value : ℕ},
      other + 8 ≤ offset ∨ offset + 8 ≤ other →
      loadWord (storeWord between offset 8 value) other 8 = loadWord between other 8 :=
    fun hdisjoint ↦ loadWord_store_outside (by rwa [length_leBytes])
  have hself : ∀ {between : Memory} {offset value : ℕ}, value < 256 ^ 8 →
      loadWord (storeWord between offset 8 value) offset 8 = value :=
    fun hvalue ↦ (loadWord_storeWord_self _ _ _ _).trans (Nat.mod_eq_of_lt hvalue)
  refine ⟨⟨?_, ?_, ?_⟩, ?_⟩
  · rw [createHeader]
    iterate 5 rw [hskip (by decide)]
    exact hself (by omega)
  · rw [createHeader]
    iterate 4 rw [hskip (by decide)]
    exact hself (by omega)
  · rw [createHeader]
    iterate 3 rw [hskip (by decide)]
    exact hself (by omega)
  · rw [createHeader]
    iterate 6 rw [hskip (by decide)]
    exact hself (by decide)

/-! ### Reopening -/

/-- A read of a runtime that makes no other call returns an outcome. -/
def Runtime.ReadReturns (hasher : Hasher) (runtime : Runtime) (index : UInt64)
    (outcome : Except FenceError (Option Record)) : Prop :=
  (runtimeMachine runtime.geometry hasher).Leads
    (Request.call runtime.geometry (.read runtime.hostId index)) runtime.memory
    (.read runtime.hostId index (.returned outcome))

/-- The file of a runtime that was closed. -/
def Runtime.file (runtime : Runtime) : List UInt8 :=
  unmapped runtime.memory runtime.geometry.totalSize

/-- What reopening a pool is there for: it fails, or the dimensions are those of the header and
every read returns what it did before. -/
def ReopensAs (hasher : Hasher) (closed : Runtime) (result : Option (Except FenceError Runtime)) :
    Prop :=
  (∃ error, result = some (.error error)) ∨
    ∃ opened, result = some (.ok opened) ∧ RecordedIn opened.geometry closed.memory ∧
      ∀ index outcome,
        opened.ReadReturns hasher index outcome ↔ closed.ReadReturns hasher index outcome

theorem Runtime.readReturns_iff {runtime : Runtime} {index : UInt64}
    {outcome : Except FenceError (Option Record)} :
    runtime.ReadReturns hasher index outcome ↔
      readOutcome runtime.geometry hasher runtime.memory index.toNat = outcome := by
  have hleads := (read_ends runtime.geometry hasher runtime.memory runtime.hostId index).leads
  constructor
  · intro hreturns
    have hsame := hleads.unique hreturns (fun _ ↦ rfl) fun _ ↦ rfl
    rw [Call.read.injEq, Task.returned.injEq] at hsame
    exact hsame.2.2
  · rintro rfl
    exact hleads

/-- A pool that was created with some dimensions, used by hosts of the pool, and closed. -/
structure Closed (hasher : Hasher) (created : PoolConfig) (closed : Runtime) : Prop where
  geometry : PoolGeometry.new created.capacity created.payloadSize created.maxHosts =
    some closed.geometry
  recorded : RecordedIn closed.geometry closed.memory
  magic : loadWord closed.memory hdrMagic 8 = magicNumber
  past : ∀ address, closed.geometry.totalSize ≤ address → closed.memory address = 0

/-- The pool a session leaves that a runtime was created for. -/
theorem closed_of_session {created : PoolConfig} {file : List UInt8} {runtime : Runtime}
    (hcreate : created.create = true)
    (hopen : FenceRuntime.open created file = some (.ok runtime))
    {requests : List ServiceRequest} {answers : List ServiceAnswer} {later : Memory}
    (hhosts : ∀ request ∈ requests, ∀ hostId, request.host = some hostId →
      hostId.toNat < runtime.geometry.maxHosts)
    (hsession : (serviceMachine checked runtime.geometry hasher).Session ServiceCall.answer requests
      runtime.memory answers later) :
    Closed hasher created { runtime with memory := later } := by
  have hmemory := FenceRuntime.memory_of_open hcreate hopen
  have hpool : Pool.ofMemory runtime.geometry runtime.memory = _ :=
    hmemory ▸ ofMemory_createHeader _
  have htail : loadWord runtime.memory hdrCommittedTail 8 = 0 :=
    congrArg Pool.committedTail hpool
  have hwithin : TailWithin runtime.geometry runtime.memory := by
    rw [TailWithin, htail]
    exact Nat.zero_le _
  have hkeeps := KeepsHeader.session hhosts hsession hwithin
  have hbelow : ∀ address < hdrCommittedTail, runtime.memory address = later address :=
    fun address haddress ↦ (hkeeps.same address (Or.inl haddress)).symm
  obtain ⟨hrecorded, hmagic⟩ := recordedIn_createHeader runtime.geometry
    (mapped (ftruncate file runtime.geometry.totalSize))
  rw [← hmemory] at hrecorded hmagic
  exact
    { geometry := by
        rw [FenceRuntime.open, Option.map_eq_some_iff] at hopen
        obtain ⟨geometry, hnew, hopened⟩ := hopen
        rw [if_pos hcreate, Except.ok.injEq] at hopened
        rw [hnew, ← hopened]
      recorded := hrecorded.congr hbelow
      magic := (loadWord_header_congr hbelow (by decide)).symm.trans hmagic
      past := by
        intro address haddress
        have hend := PoolGeometry.headerSize_le_totalSize (g := runtime.geometry)
        have hsame : later address = runtime.memory address :=
          hkeeps.same address (Or.inr haddress)
        show later address = 0
        rw [hsame, hmemory, createHeader_apply_of_le (hend.trans haddress)]
        exact mapped_of_length_le (by rwa [length_ftruncate]) }

section Closed

variable {created : PoolConfig} {closed : Runtime} (hclosed : Closed hasher created closed)

include hclosed

/-- The memory of a closed pool is mapped again when the sizes agree. -/
theorem Closed.mapped_file :
    mapped (ftruncate closed.file closed.geometry.totalSize) = closed.memory := by
  funext address
  by_cases haddress : address < closed.geometry.totalSize
  · rw [mapped_ftruncate_of_lt haddress, Runtime.file, mapped_unmapped_of_lt haddress]
  · have hpast : closed.geometry.totalSize ≤ address := Nat.le_of_not_lt haddress
    rw [mapped_of_length_le (by rwa [length_ftruncate]), hclosed.past address hpast]

omit hclosed in
/-- The first bytes of a closed pool are mapped again whatever the size is. -/
theorem mapped_file_of_lt_headerSize (closed : Runtime) (geometry : PoolGeometry) {address : ℕ}
    (haddress : address < headerSize) :
    mapped (ftruncate closed.file geometry.totalSize) address = closed.memory address := by
  have hfirst : address < geometry.totalSize :=
    Nat.lt_of_lt_of_le haddress PoolGeometry.headerSize_le_totalSize
  have hsecond : address < closed.geometry.totalSize :=
    Nat.lt_of_lt_of_le haddress PoolGeometry.headerSize_le_totalSize
  rw [mapped_ftruncate_of_lt hfirst, Runtime.file, mapped_unmapped_of_lt hsecond]

/-- Opening a closed pool with a valid configuration succeeds, with the dimensions of that
configuration. -/
theorem Closed.open_eq {config : FenceConfig} (hvalid : config.validate = .ok ()) :
    ∃ g, PoolGeometry.new config.pool.capacity config.pool.payloadSize config.pool.maxHosts =
        some g ∧
      FenceRuntime.open (config.poolConfig false) closed.file = some (.ok
        ⟨g, config.host.hostId, mapped (ftruncate closed.file g.totalSize)⟩) := by
  obtain ⟨raw, hraw, hexact⟩ := config.exists_exact hvalid
  obtain ⟨g, hnew, -⟩ := RawGeometry.exists_pool hraw hexact
  have hmagic : loadWord (mapped (ftruncate closed.file g.totalSize)) hdrMagic 8 =
      magicNumber := by
    rw [← hclosed.magic]
    refine loadWord_congr (load_congr fun i hi ↦ mapped_file_of_lt_headerSize closed g ?_)
    have hheader : hdrMagic + 8 ≤ headerSize := by decide
    omega
  refine ⟨g, hnew, ?_⟩
  rw [FenceRuntime.open, FenceConfig.poolConfig, hnew]
  simp only [Option.map_some, Bool.false_eq_true, if_false, hmagic, ne_eq, not_true_eq_false]

/-- A closed pool reopens as it was when the dimensions are the same, and only then. -/
theorem Closed.reopens_iff {config : FenceConfig} (hvalid : config.validate = .ok ()) :
    ReopensAs hasher closed (FenceRuntime.open (config.poolConfig false) closed.file) ↔
      config.pool.capacity = created.capacity ∧ config.pool.payloadSize = created.payloadSize ∧
        config.pool.maxHosts = created.maxHosts := by
  obtain ⟨g, hnew, hopen⟩ := hclosed.open_eq hvalid
  rw [hopen]
  constructor
  · rintro (⟨error, herror⟩ | ⟨opened, hopened, hrecorded, -⟩)
    · cases herror
    · rw [Option.some.injEq, Except.ok.injEq] at hopened
      have hgeometry : g = opened.geometry := congrArg Runtime.geometry hopened
      rw [← hgeometry] at hrecorded
      have hcapacity := hclosed.recorded.capacity.symm.trans hrecorded.capacity
      have hrecord := hclosed.recorded.recordSize.symm.trans hrecorded.recordSize
      have hhosts := hclosed.recorded.maxHosts.symm.trans hrecorded.maxHosts
      have hfirst := PoolGeometry.new_fields hclosed.geometry
      have hsecond := PoolGeometry.new_fields hnew
      have hsize := closed.geometry.recordSize_eq
      have hsize' := g.recordSize_eq
      refine ⟨UInt32.toNat_inj.mp ?_, UInt32.toNat_inj.mp ?_, UInt16.toNat_inj.mp ?_⟩
      · omega
      · omega
      · omega
  · rintro ⟨hcapacity, hpayload, hhosts⟩
    rw [hcapacity, hpayload, hhosts, hclosed.geometry, Option.some.injEq] at hnew
    subst hnew
    refine Or.inr ⟨_, rfl, hclosed.recorded, fun index outcome ↦ ?_⟩
    rw [Runtime.readReturns_iff, Runtime.readReturns_iff, hclosed.mapped_file]

end Closed

/-- A pool that was created, used by hosts of the pool one call after another, and closed reopens as
it was when the dimensions are the ones it was created with, and only then. -/
theorem reopensAs_iff (hasher : Hasher) {created : PoolConfig} {file : List UInt8}
    {runtime : Runtime} (hcreate : created.create = true)
    (hopen : FenceRuntime.open created file = some (.ok runtime))
    {requests : List ServiceRequest} {answers : List ServiceAnswer} {later : Memory}
    (hhosts : ∀ request ∈ requests, ∀ hostId, request.host = some hostId →
      hostId.toNat < runtime.geometry.maxHosts)
    (hsession : (serviceMachine checked runtime.geometry hasher).Session ServiceCall.answer requests
      runtime.memory answers later)
    {config : FenceConfig} (hvalid : config.validate = .ok ()) :
    ReopensAs hasher { runtime with memory := later }
        (FenceRuntime.open (config.poolConfig false) (unmapped later runtime.geometry.totalSize)) ↔
      config.pool.capacity = created.capacity ∧ config.pool.payloadSize = created.payloadSize ∧
        config.pool.maxHosts = created.maxHosts :=
  (closed_of_session hcreate hopen hhosts hsession).reopens_iff hvalid

/-! ### A pool reopened with longer payloads -/

/-- The configuration of a pool of two slots with eight payload bytes. -/
def twoConfig : PoolConfig := ⟨2, 8, 1, 0, true⟩

/-- A configuration file for two slots of sixteen payload bytes. -/
def widerConfig : FenceConfig := ⟨⟨2, 16, 1⟩, ⟨0⟩, ⟨"error"⟩⟩

/-- The pool of two slots, just created. -/
def twoRuntime : Runtime :=
  ⟨twoPool, 0, createHeader twoPool (mapped (ftruncate [] twoPool.totalSize))⟩

/-- The memory two appends leave on it. -/
def filledMemory : Memory :=
  ((runtimeMachine twoPool crc32fast).solo 17 (Request.call twoPool (.append ⟨0, 1, [6]⟩))
    ((runtimeMachine twoPool crc32fast).solo 17 (Request.call twoPool (.append ⟨0, 1, [5]⟩))
      twoRuntime.memory).2).2

/-- The appends that fill the pool. -/
def fillingRequests : List ServiceRequest :=
  [.operation (.append ⟨0, 1, [5]⟩), .operation (.append ⟨0, 1, [6]⟩)]

theorem hosts_fillingRequests : ∀ request ∈ fillingRequests, ∀ hostId,
    request.host = some hostId → hostId.toNat < twoRuntime.geometry.maxHosts := by
  intro request hmem hostId hhost
  have hsome : request.host = some 0 := by
    simp only [fillingRequests, List.mem_cons, List.not_mem_nil, or_false] at hmem
    rcases hmem with rfl | rfl <;> rfl
  obtain rfl : 0 = hostId := Option.some.inj (hsome.symm.trans hhost)
  exact Nat.zero_lt_one

theorem session_filledMemory : (serviceMachine checked twoPool crc32fast).Session ServiceCall.answer
    fillingRequests twoRuntime.memory
    [.operation (.append (.ok 1)), .operation (.append (.ok 2))] filledMemory := by
  have hfirst : (runtimeMachine twoPool crc32fast).Ends
      (Request.call twoPool (.append ⟨0, 1, [5]⟩)) twoRuntime.memory
      (.append ⟨0, 1, [5]⟩ (.returned (.ok 1))) _ := ⟨17, Prod.ext (by decide +kernel) rfl⟩
  have hsecond : (runtimeMachine twoPool crc32fast).Ends
      (Request.call twoPool (.append ⟨0, 1, [6]⟩)) _
      (.append ⟨0, 1, [6]⟩ (.returned (.ok 2))) filledMemory :=
    ⟨17, Prod.ext (by decide +kernel) rfl⟩
  exact .cons (ServiceCall.ends_operation hfirst) rfl
    (.cons (ServiceCall.ends_operation hsecond) rfl (.nil _))

/-- The pool of two slots, reopened with longer payloads. -/
theorem reopensAs_iff_filledMemory :
    ReopensAs crc32fast { twoRuntime with memory := filledMemory }
        (FenceRuntime.open (widerConfig.poolConfig false)
          (unmapped filledMemory twoPool.totalSize)) ↔
      (2 : UInt32) = 2 ∧ (16 : UInt32) = 8 ∧ (1 : UInt16) = 1 :=
  reopensAs_iff crc32fast (rfl : twoConfig.create = true)
    (rfl : FenceRuntime.open twoConfig [] = some (.ok twoRuntime)) hosts_fillingRequests
    (@session_filledMemory true) (by decide : widerConfig.validate = .ok ())

/-- Reopened with longer payloads, the pool has lost its second record. -/
theorem not_reopensAs_widerConfig :
    ¬ ReopensAs crc32fast { twoRuntime with memory := filledMemory }
      (FenceRuntime.open (widerConfig.poolConfig false)
        (unmapped filledMemory twoPool.totalSize)) := by
  have hclosed : Closed crc32fast twoConfig { twoRuntime with memory := filledMemory } :=
    closed_of_session rfl (rfl : FenceRuntime.open twoConfig [] = some (.ok twoRuntime))
      hosts_fillingRequests (@session_filledMemory true)
  obtain ⟨g, hnew, hopen⟩ := hclosed.open_eq (by decide : widerConfig.validate = .ok ())
  have hfile : Runtime.file { twoRuntime with memory := filledMemory } =
      unmapped filledMemory twoPool.totalSize := rfl
  rw [hfile] at hopen
  rw [hopen]
  obtain rfl : _ = g := Option.some.inj ((rfl : PoolGeometry.new 2 16 1 = some _).symm.trans hnew)
  rintro (⟨error, herror⟩ | ⟨opened, hopened, -, hreads⟩)
  · cases herror
  · have hlost : readOutcome opened.geometry crc32fast opened.memory 2 = .ok none := by
      rw [← Except.ok.inj (Option.some.inj hopened)]
      decide +kernel
    have hheld : readOutcome twoPool crc32fast filledMemory 2 =
        .ok (some ⟨2, 1, 0, [6]⟩) := by decide +kernel
    have hreturns : opened.ReadReturns crc32fast 2 (.ok none) :=
      Runtime.readReturns_iff.mpr hlost
    have hsame := Runtime.readReturns_iff.mp ((hreads 2 (.ok none)).mp hreturns)
    have hdiffer : (.ok (some ⟨2, 1, 0, [6]⟩) : Except FenceError (Option Record)) = .ok none :=
      hheld.symm.trans hsame
    cases hdiffer

end Fence
