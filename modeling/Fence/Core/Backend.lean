import Fence.Library.ByteMemory
import Fence.Library.Interleaving

/-!
# Backend calls and errors

All access to a pool goes through the trait `MemoryBackend`. A routine of the runtime is
modelled as a machine over program points: at every point it makes one call of the backend, and
the answer decides where it goes next. `BackendCall` is such a call together with what the
routine does with the answer, and `BackendCall.exec` performs it on a memory, in one atomic
step. A `flush` has no effect on the memory that other callers see.
-/

set_option autoImplicit false
set_option relaxedAutoImplicit false

namespace Fence

open ByteMemory

/-- `FenceError`, the errors of the modelled operations. -/
inductive FenceError
  /-- No slot remains for a new record. -/
  | poolFull (capacity requestedSlot : ℕ)
  /-- The payload exceeds the maximum of the pool. -/
  | payloadTooLarge (max got : ℕ)
  /-- The record has an invalid checksum. -/
  | checksumMismatch (index : ℕ)
  /-- The requested index is out of bounds. -/
  | indexOutOfBounds (index committedTail : ℕ)
  /-- Trim was requested past the committed tail. -/
  | trimBeyondCommitted (requested committedTail : ℕ)
  /-- The pool file could not be mapped. -/
  | mmapFailed (detail : String)
  /-- The pool header contains an invalid magic number. -/
  | invalidMagic (expected actual : ℕ)
  deriving DecidableEq, Repr

/-- One call of a `MemoryBackend`, with what the caller does with the answer. -/
inductive BackendCall (Next : Type)
  | read (offset length : ℕ) (next : List UInt8 → Next)
  | write (offset : ℕ) (src : List UInt8) (next : Next)
  | loadU64 (offset : ℕ) (next : ℕ → Next)
  | storeU64 (offset value : ℕ) (next : Next)
  | fetchAddU64 (offset delta : ℕ) (next : ℕ → Next)
  | compareExchangeU64 (offset expected desired : ℕ) (next : Except ℕ ℕ → Next)
  | loadU8 (offset : ℕ) (next : UInt8 → Next)
  | storeU8 (offset : ℕ) (value : UInt8) (next : Next)
  | flush (offset length : ℕ) (next : Next)

variable {Next Other : Type}

/-- The call, with the caller continuing inside another routine. -/
def BackendCall.map (f : Next → Other) : BackendCall Next → BackendCall Other
  | .read offset length next => .read offset length fun bytes ↦ f (next bytes)
  | .write offset src next => .write offset src (f next)
  | .loadU64 offset next => .loadU64 offset fun value ↦ f (next value)
  | .storeU64 offset value next => .storeU64 offset value (f next)
  | .fetchAddU64 offset delta next => .fetchAddU64 offset delta fun value ↦ f (next value)
  | .compareExchangeU64 offset expected desired next =>
    .compareExchangeU64 offset expected desired fun outcome ↦ f (next outcome)
  | .loadU8 offset next => .loadU8 offset fun value ↦ f (next value)
  | .storeU8 offset value next => .storeU8 offset value (f next)
  | .flush offset length next => .flush offset length (f next)

/-- The call performed on a memory: where the caller goes, and the memory it leaves. The word
operations wrap modulo `2 ^ 64`. -/
def BackendCall.exec : BackendCall Next → Memory → Next × Memory
  | .read offset length next, memory => (next (load memory offset length), memory)
  | .write offset src next, memory => (next, store memory offset src)
  | .loadU64 offset next, memory => (next (loadWord memory offset 8), memory)
  | .storeU64 offset value next, memory => (next, storeWord memory offset 8 value)
  | .fetchAddU64 offset delta next, memory =>
    (next (loadWord memory offset 8),
      storeWord memory offset 8 ((loadWord memory offset 8 + delta) % 2 ^ 64))
  | .compareExchangeU64 offset expected desired next, memory =>
    if loadWord memory offset 8 = expected then
      (next (.ok (loadWord memory offset 8)), storeWord memory offset 8 desired)
    else (next (.error (loadWord memory offset 8)), memory)
  | .loadU8 offset next, memory => (next (memory offset), memory)
  | .storeU8 offset value next, memory => (next, store memory offset [value])
  | .flush _ _ next, memory => (next, memory)

/-- A caller that continues inside another routine leaves the same memory. -/
theorem BackendCall.exec_map (f : Next → Other) (call : BackendCall Next) (memory : Memory) :
    (call.map f).exec memory = (f (call.exec memory).1, (call.exec memory).2) := by
  cases call with
  | compareExchangeU64 offset expected desired next =>
    simp only [BackendCall.map, BackendCall.exec]
    split_ifs <;> rfl
  | _ => rfl

/-- `x as u32` for a 64-bit `x`. -/
@[irreducible] def asU32 (value : ℕ) : ℕ := value % 2 ^ 32

theorem asU32_of_lt {value bound : ℕ} (hvalue : value < bound) (hbound : bound ≤ 2 ^ 32) :
    asU32 value = value := by
  unfold asU32
  exact Nat.mod_eq_of_lt (Nat.lt_of_lt_of_le hvalue hbound)

theorem asU32_le (value : ℕ) : asU32 value ≤ value := by
  unfold asU32
  exact Nat.mod_le _ _

end Fence
