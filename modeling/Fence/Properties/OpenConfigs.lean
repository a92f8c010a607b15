import Fence.Protocol.AppendAlone
import Fence.Protocol.RecoverAlone
import Fence.Properties.LayoutSeparation
import Fence.Runtime.Open

/-!
# Configurations that are opened

`FenceRuntime::open` takes a `PoolConfig` as it is: with `create` set it succeeds as soon as the
assertions of `PoolGeometry::new` hold. `OpenSafe` says that the geometry is exact and that all
accesses of the runtime lie in the pool, aligned. That is so when a record fits 32 bits, the payload
size is a multiple of eight and the host is one of the pool, and only then (`openSafe_iff`). The
validation of a configuration file asks for all three.
-/

set_option autoImplicit false
set_option relaxedAutoImplicit false

namespace Fence

open ByteMemory Interleaving

variable {checked : Bool} {g : PoolGeometry} {hasher : Hasher} {hostId : UInt16}

/-! ### Runs of one runtime -/

/-- A request comes from a runtime of a host. -/
def FromHost (hostId : UInt16) (action : Action ServiceRequest Empty) : Prop :=
  ∀ request, action = .start request → ∀ host, request.host = some host → host = hostId

/-- All accesses of a runtime on a fresh pool lie in it, aligned if they are to words. -/
def RuntimeSafe (checked : Bool) (g : PoolGeometry) (hasher : Hasher) (hostId : UInt16) : Prop :=
  ∀ schedule : List (Action ServiceRequest Empty), (∀ action ∈ schedule, FromHost hostId action) →
    (serviceMachine checked g hasher).Along (AccessesPool checked g hasher) schedule
      (freshService g)

/-- A runtime gets from a fresh pool to a configuration. -/
def Reaches (checked : Bool) (g : PoolGeometry) (hasher : Hasher) (hostId : UInt16)
    (config : Config ServiceCall Memory) : Prop :=
  ∃ schedule : List (Action ServiceRequest Empty), (∀ action ∈ schedule, FromHost hostId action) ∧
    (serviceMachine checked g hasher).run schedule (freshService g) = config

theorem Reaches.fresh : Reaches checked g hasher hostId (freshService g) :=
  ⟨[], by simp, rfl⟩

/-- A call of the runtime runs alone for a while. -/
theorem Reaches.alone {config : Config ServiceCall Memory}
    (hreaches : Reaches checked g hasher hostId config)
    {request : ServiceRequest} (hhost : ∀ host, request.host = some host → host = hostId)
    {call : ServiceCall} {later : Memory}
    (hends : (serviceMachine checked g hasher).Ends (request.start g) config.shared call later) :
    Reaches checked g hasher hostId ⟨later, config.threads ++ [call]⟩ := by
  obtain ⟨schedule, hfrom, rfl⟩ := hreaches
  obtain ⟨count, hcount⟩ := hends
  refine ⟨schedule ++ Interleaving.alone request
    ((serviceMachine checked g hasher).run schedule (freshService g)).threads.length count, ?_, ?_⟩
  · intro action hmem
    rcases List.mem_append.mp hmem with hold | hnew
    · exact hfrom action hold
    · rcases eq_of_mem_alone hnew with rfl | ⟨index, rfl⟩
      · intro started hstart
        rw [Action.start.injEq] at hstart
        exact hstart ▸ hhost
      · intro started hstart
        cases hstart
  · rw [run_append, run_alone]
    have hsolo : (serviceMachine checked g hasher).solo count
      ((serviceMachine checked g hasher).start request)
        _ = (call, later) := hcount
    rw [hsolo]

/-- The accesses of a safe runtime, wherever it gets. -/
theorem RuntimeSafe.access (hsafe : RuntimeSafe checked g hasher hostId)
    {config : Config ServiceCall Memory} (hreaches : Reaches checked g hasher hostId config)
    {call : ServiceCall} (hcall : call ∈ config.threads) {backend : BackendCall ServiceCall}
    (hnext : call.next checked g hasher = some backend) :
    backend.offset + backend.length ≤ g.totalSize ∧
      (backend.isWord = true → backend.offset % 8 = 0) := by
  obtain ⟨schedule, hfrom, rfl⟩ := hreaches
  obtain ⟨index, hindex⟩ := List.mem_iff_getElem?.mp hcall
  have halong := hsafe (schedule ++ [.step index]) (by
    intro action hmem
    rcases List.mem_append.mp hmem with hold | hnew
    · exact hfrom action hold
    · rw [List.mem_singleton.mp hnew]
      rintro _ hstart
      cases hstart)
  exact (along_append.mp halong).2.1 index call backend rfl hindex hnext

/-! ### What safe runtimes need -/

/-- The recovery of a host that is none of the pool counts its runs past the end. -/
theorem RuntimeSafe.hostId_lt (hsafe : RuntimeSafe checked g hasher hostId) :
    hostId.toNat < g.maxHosts := by
  obtain ⟨recovered, hends, -⟩ := exists_recovered_report g hasher (freshMemory g)
  have hrun : (serviceMachine checked g hasher).Ends
      (ServiceRequest.start g (.operation (.recover hostId))) (freshService g).shared _ recovered :=
    ServiceCall.ends_operation (recover_recovery_ends hostId hends)
  have hhost : ∀ host, ServiceRequest.host (.operation (.recover hostId)) = some host →
      host = hostId := fun host hhost ↦ (Option.some.inj hhost).symm
  have hreaches := Reaches.fresh.alone hhost hrun
  have hbound : g.metricsOffset hostId.toNat + metricsRecoveryRuns + 8 ≤ g.totalSize :=
    (hsafe.access hreaches (List.mem_append_right _ List.mem_cons_self) rfl).1
  rw [PoolGeometry.totalSize_eq_metricsOffset] at hbound
  unfold PoolGeometry.metricsOffset cacheline at hbound
  omega

/-- Statistics load the first counter at a multiple of eight. -/
theorem RuntimeSafe.metricsOffset_mod (hsafe : RuntimeSafe checked g hasher hostId) :
    g.metricsOffset 0 % 8 = 0 := by
  have hstart : ServiceRequest.start g .statistics =
      .statistics (.running (.loadAppendsTotal 0 .default)) := by
    rw [ServiceRequest.start, StatsPoint.head, if_pos g.maxHosts_pos]
  have hrun : (serviceMachine checked g hasher).Ends (ServiceRequest.start g .statistics)
      (freshService g).shared (.statistics (.running (.loadAppendsTotal 0 .default)))
      (freshMemory g) := by
    rw [hstart]
    exact .refl _ _
  have hreaches := @Reaches.fresh checked g hasher hostId |>.alone
    (fun host hhost ↦ by cases hhost) hrun
  exact (hsafe.access hreaches (List.mem_append_right _ List.mem_cons_self) rfl).2 rfl

/-- The second append stores its term at a multiple of eight. -/
theorem RuntimeSafe.recordSize_mod (hsafe : RuntimeSafe checked g hasher hostId)
    (htwo : 2 ≤ g.capacity) : g.recordSize % 8 = 0 := by
  have hpool : Pool.ofMemory g (freshMemory g) = _ := ofMemory_createHeader _
  obtain ⟨between, hfirst, happended⟩ := @append_ends g hasher (emptyEntry hostId) (freshMemory g) 0
    g.capacity_pos (Nat.zero_le _) (by rw [hpool]) (by rw [hpool])
  have hreserve : loadWord between hdrReserveTail 8 = 1 := happended.reserveTail_eq
  have hsecond : ∃ later, (runtimeMachine g hasher).Ends
      (Request.call g (.append (emptyEntry hostId))) between
      (.append (emptyEntry hostId) (.running (.storeTerm 1))) later := by
    have hstart : Request.call g (.append (emptyEntry hostId)) =
        .append (emptyEntry hostId) (.running .reserve) := by
      have hsmall : ¬ g.payloadSize < (emptyEntry hostId).data.length :=
        Nat.not_lt.mpr (Nat.zero_le _)
      rw [Request.call, startAppend, if_neg hsmall]
    rw [hstart]
    refine ⟨((FenceRuntime.append g hasher (emptyEntry hostId) (.storeWriting 1)).exec
      ((FenceRuntime.append g hasher (emptyEntry hostId) .reserve).exec between).2).2,
      append_ends_step ?_⟩
    have hreserved : ((FenceRuntime.append g hasher (emptyEntry hostId) .reserve).exec
        between).1 = .running (.storeWriting 1) := by
      simp only [FenceRuntime.append, BackendCall.exec, hreserve, if_neg (Nat.not_le.mpr htwo)]
    rw [hreserved]
    exact append_ends_step (.refl _ _)
  obtain ⟨later, hsecond⟩ := hsecond
  have hhost : ∀ host, ServiceRequest.host (.operation (.append (emptyEntry hostId))) = some host →
      host = hostId := fun host hhost ↦ (Option.some.inj hhost).symm
  have hrun : (serviceMachine checked g hasher).Ends
      (ServiceRequest.start g (.operation (.append (emptyEntry hostId)))) (freshService g).shared _
      between := ServiceCall.ends_operation hfirst
  have hnext : (serviceMachine checked g hasher).Ends
      (ServiceRequest.start g (.operation (.append (emptyEntry hostId)))) between _ later :=
    ServiceCall.ends_operation hsecond
  have hreaches := (Reaches.fresh.alone hhost hrun).alone hhost hnext
  have hoffset : (appendOffset g 1 + recTerm) % 8 = 0 :=
    (hsafe.access hreaches (List.mem_append_right _ List.mem_cons_self) rfl).2 rfl
  rw [appendOffset_of_lt (Nat.lt_of_succ_le htwo)] at hoffset
  unfold PoolGeometry.recordOffset headerSize recTerm at hoffset
  omega

/-- The payloads of a safe runtime are a multiple of eight. -/
theorem RuntimeSafe.payloadSize_mod (hsafe : RuntimeSafe checked g hasher hostId) :
    g.payloadSize % 8 = 0 := by
  have hrecord := g.recordSize_eq
  have hmeta : recordMetaSize = 64 := rfl
  by_cases htwo : 2 ≤ g.capacity
  · have hmod := hsafe.recordSize_mod htwo
    omega
  · have hone : g.capacity = 1 := by
      have hpos := g.capacity_pos
      omega
    have hmod := hsafe.metricsOffset_mod
    rw [PoolGeometry.metricsOffset, hone] at hmod
    unfold headerSize at hmod
    omega

/-! ### When open is safe -/

/-- What the caller of `open` may rely on in a release build: the geometry is exact, and the runtime
is safe. -/
structure OpenSafe (hasher : Hasher) (config : PoolConfig) (raw : RawGeometry) : Prop where
  exact : raw.Exact
  safe : ∀ g, PoolGeometry.new config.capacity config.payloadSize config.maxHosts = some g →
    RuntimeSafe false g hasher config.hostId

/-- A configuration for which `open` with `create` set returns a runtime is safe when a record fits
32 bits, the payload size is a multiple of eight and the host is one of the pool, and only then. -/
theorem openSafe_iff (hasher : Hasher) {config : PoolConfig} {raw : RawGeometry}
    (hopen : RawGeometry.new config.capacity config.payloadSize config.maxHosts = some raw) :
    OpenSafe hasher config raw ↔
      recordMetaSize + config.payloadSize.toNat < 2 ^ 32 ∧ config.payloadSize.toNat % 8 = 0 ∧
        config.hostId.toNat < config.maxHosts.toNat := by
  constructor
  · rintro ⟨hexact, hsafe⟩
    obtain ⟨g, hnew, -, hpayload, hhosts, -⟩ := RawGeometry.exists_pool hopen hexact
    refine ⟨(RawGeometry.exact_iff hopen).mp hexact, ?_, ?_⟩
    · rw [← hpayload]
      exact (hsafe g hnew).payloadSize_mod
    · rw [← hhosts]
      exact (hsafe g hnew).hostId_lt
  · rintro ⟨hfits, haligned, hhost⟩
    have hexact := (RawGeometry.exact_iff hopen).mpr hfits
    refine ⟨hexact, fun g hnew schedule hfrom ↦ ?_⟩
    obtain ⟨other, hother, -, hpayload, hhosts, -⟩ := RawGeometry.exists_pool hopen hexact
    obtain rfl := Option.some.inj (hnew.symm.trans hother)
    rw [← hpayload] at haligned
    rw [← hhosts] at hhost
    refine along_of_invariant (Contained g) ?_
      (along_of_forall_mem (FromHost config.hostId) hfrom (freshService g)) (Contained.fresh g)
    intro before action hcontained haction
    refine ⟨hcontained.accessesPool haligned action, hcontained.apply ?_⟩
    intro request hstart host hrequest
    rw [haction request hstart host hrequest]
    exact hhost

/-- The smallest pool is safe for its only host. -/
theorem openSafe_iff_oneConfig : OpenSafe crc32fast ⟨1, 8, 1, 0, true⟩ ⟨1, 8, 1, 72, 200⟩ ↔
    recordMetaSize + (8 : UInt32).toNat < 2 ^ 32 ∧ (8 : UInt32).toNat % 8 = 0 ∧
      (0 : UInt16).toNat < (1 : UInt16).toNat :=
  @openSafe_iff crc32fast ⟨1, 8, 1, 0, true⟩ ⟨1, 8, 1, 72, 200⟩ (by decide)

/-- The smallest pool is not safe for another host, although `open` returns a runtime. -/
theorem not_openSafe_of_host :
    ∃ raw, RawGeometry.new 1 8 1 = some raw ∧ ¬ OpenSafe crc32fast ⟨1, 8, 1, 1, true⟩ raw := by
  refine ⟨⟨1, 8, 1, 72, 200⟩, by decide, fun hsafe ↦ ?_⟩
  have hhost := (hsafe.safe onePool rfl).hostId_lt
  revert hhost
  decide

end Fence
