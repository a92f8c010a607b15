import Mathlib.Data.List.Basic
import Mathlib.Tactic.Common

/-!
# Configurations

The sections of a `FenceConfig` that its validation reads, with their defaults, and the validation
of `config.rs`: a sequence of checks, each with the field it names and its own text.
`validate_eq_ok_iff` is what they come to.
-/

set_option autoImplicit false
set_option relaxedAutoImplicit false

namespace Fence

/-- `PoolSection`, less the path. -/
structure PoolSection where
  capacity : UInt32
  payloadSize : UInt32
  maxHosts : UInt16
  deriving DecidableEq, Repr

/-- `HostSection`, less the name. -/
structure HostSection where
  hostId : UInt16
  deriving DecidableEq, Repr

/-- `OverflowSection`, as far as it is validated. -/
structure OverflowSection where
  strategy : String
  deriving DecidableEq, Repr

/-- `FenceConfig`. -/
structure FenceConfig where
  pool : PoolSection
  host : HostSection
  overflow : OverflowSection
  deriving DecidableEq, Repr

/-- The defaults of `defaults.rs`. -/
def FenceConfig.default : FenceConfig where
  pool := ⟨1000000, 128, 16⟩
  host := ⟨0⟩
  overflow := ⟨"error"⟩

/-- `ConfigError`, the error of a validation. -/
inductive ConfigError
  /-- A field has an invalid value. -/
  | validationError (field detail : String)
  deriving DecidableEq, Repr

/-- The strategies a configuration may name. -/
def validStrategies : List String := ["error", "segmented", "circular"]

/-- `FenceConfig::validate`. -/
def FenceConfig.validate (config : FenceConfig) : Except ConfigError Unit :=
  if config.pool.capacity = 0 then
    .error (.validationError "pool.capacity" "must be > 0")
  else if config.pool.payloadSize = 0 then
    .error (.validationError "pool.payload_size" "must be > 0")
  else if 65536 < config.pool.payloadSize then
    .error (.validationError "pool.payload_size" "must be <= 65536")
  else if config.pool.payloadSize % 8 ≠ 0 then
    .error (.validationError "pool.payload_size" "must be a multiple of 8 (alignment)")
  else if config.pool.maxHosts = 0 ∨ 256 < config.pool.maxHosts then
    .error (.validationError "pool.max_hosts" "must be 1-256")
  else if config.pool.maxHosts ≤ config.host.hostId then
    .error (.validationError "host.host_id"
      ("must be < max_hosts (" ++ toString config.pool.maxHosts.toNat ++ ")"))
  else if config.overflow.strategy ∉ validStrategies then
    .error (.validationError "overflow.strategy"
      ("must be one of: " ++ ", ".intercalate validStrategies))
  else .ok ()

/-- What a valid configuration meets. -/
structure FenceConfig.Valid (config : FenceConfig) : Prop where
  capacity_pos : 0 < config.pool.capacity.toNat
  payloadSize_pos : 0 < config.pool.payloadSize.toNat
  payloadSize_le : config.pool.payloadSize.toNat ≤ 65536
  payloadSize_aligned : config.pool.payloadSize.toNat % 8 = 0
  maxHosts_pos : 0 < config.pool.maxHosts.toNat
  maxHosts_le : config.pool.maxHosts.toNat ≤ 256
  hostId_lt : config.host.hostId.toNat < config.pool.maxHosts.toNat
  strategy_mem : config.overflow.strategy ∈ validStrategies

/-- A configuration passes its validation when it is valid, and only then. -/
theorem FenceConfig.validate_eq_ok_iff (config : FenceConfig) :
    config.validate = .ok () ↔ config.Valid := by
  have hzero32 : ∀ value : UInt32, value = 0 ↔ value.toNat = 0 := fun value ↦
    ⟨fun h ↦ h ▸ rfl, fun h ↦ UInt32.toNat_inj.mp h⟩
  have hzero16 : ∀ value : UInt16, value = 0 ↔ value.toNat = 0 := fun value ↦
    ⟨fun h ↦ h ▸ rfl, fun h ↦ UInt16.toNat_inj.mp h⟩
  have hmod : (config.pool.payloadSize % 8).toNat = config.pool.payloadSize.toNat % 8 := rfl
  have hlarge : 65536 < config.pool.payloadSize ↔ 65536 < config.pool.payloadSize.toNat := Iff.rfl
  have hmany : 256 < config.pool.maxHosts ↔ 256 < config.pool.maxHosts.toNat := Iff.rfl
  have hhost : config.pool.maxHosts ≤ config.host.hostId ↔
    config.pool.maxHosts.toNat ≤ config.host.hostId.toNat := Iff.rfl
  unfold FenceConfig.validate
  simp only [hzero32, ne_eq, hmod, hlarge, hzero16, hmany, hhost]
  constructor
  · intro hok
    split_ifs at hok with hcapacity hpayload hsize haligned hhosts hid hstrategy
    exact
      { capacity_pos := by omega
        payloadSize_pos := by omega
        payloadSize_le := by omega
        payloadSize_aligned := by omega
        maxHosts_pos := by omega
        maxHosts_le := by omega
        hostId_lt := by omega
        strategy_mem := hstrategy }
  · rintro ⟨hcapacity, hpayload, hsize, haligned, hhosts, hmost, hid, hstrategy⟩
    rw [if_neg (by omega), if_neg (by omega), if_neg (by omega), if_neg (by omega),
      if_neg (by omega), if_neg (by omega), if_neg (not_not.mpr hstrategy)]

/-- The defaults are valid. -/
theorem FenceConfig.validate_default : FenceConfig.default.validate = .ok () := by decide

end Fence
