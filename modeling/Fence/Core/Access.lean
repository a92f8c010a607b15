import Fence.Core.Backend
import Fence.Core.Layout

/-!
# What a backend call accesses

Every call of a backend accesses one run of bytes. `offset` and `length` say which, `isWord` whether
it is an access to a word, which must be aligned, and `isStore` whether it may change the bytes. No
call changes a byte outside its run (`exec_apply_outside`).
-/

set_option autoImplicit false
set_option relaxedAutoImplicit false

namespace Fence

open ByteMemory

variable {Next Other : Type}

namespace BackendCall

/-- The first byte a call accesses. -/
def offset : BackendCall Next → ℕ
  | .read offset _ _ => offset
  | .write offset _ _ => offset
  | .loadU64 offset _ => offset
  | .storeU64 offset _ _ => offset
  | .fetchAddU64 offset _ _ => offset
  | .compareExchangeU64 offset _ _ _ => offset
  | .loadU8 offset _ => offset
  | .storeU8 offset _ _ => offset
  | .flush offset _ _ => offset

/-- The number of bytes a call accesses. -/
def length : BackendCall Next → ℕ
  | .read _ length _ => length
  | .write _ src _ => src.length
  | .loadU64 _ _ => 8
  | .storeU64 _ _ _ => 8
  | .fetchAddU64 _ _ _ => 8
  | .compareExchangeU64 _ _ _ _ => 8
  | .loadU8 _ _ => 1
  | .storeU8 _ _ _ => 1
  | .flush _ length _ => length

/-- Whether a call is one of the atomic operations on a `u64`. -/
def isWord : BackendCall Next → Bool
  | .loadU64 _ _ => true
  | .storeU64 _ _ _ => true
  | .fetchAddU64 _ _ _ => true
  | .compareExchangeU64 _ _ _ _ => true
  | _ => false

/-- Whether a call may change bytes. -/
def isStore : BackendCall Next → Bool
  | .write _ _ _ => true
  | .storeU64 _ _ _ => true
  | .fetchAddU64 _ _ _ => true
  | .compareExchangeU64 _ _ _ _ => true
  | .storeU8 _ _ _ => true
  | _ => false

section Map

variable (f : Next → Other) (call : BackendCall Next)

@[simp] theorem offset_map : (call.map f).offset = call.offset := by cases call <;> rfl

@[simp] theorem length_map : (call.map f).length = call.length := by cases call <;> rfl

@[simp] theorem isWord_map : (call.map f).isWord = call.isWord := by cases call <;> rfl

@[simp] theorem isStore_map : (call.map f).isStore = call.isStore := by cases call <;> rfl

end Map

variable {call : BackendCall Next} {memory : Memory}

/-- A call leaves the bytes outside its run alone. -/
theorem exec_apply_outside {address : ℕ}
    (houtside : address < call.offset ∨ call.offset + call.length ≤ address) :
    (call.exec memory).2 address = memory address := by
  cases call with
  | read offset length next => rfl
  | write offset src next => exact store_apply_outside houtside
  | loadU64 offset next => rfl
  | storeU64 offset value next => exact store_apply_outside (by rwa [length_leBytes])
  | fetchAddU64 offset delta next => exact store_apply_outside (by rwa [length_leBytes])
  | compareExchangeU64 offset expected desired next =>
    simp only [exec]
    split_ifs
    · exact store_apply_outside (by rwa [length_leBytes])
    · rfl
  | loadU8 offset next => rfl
  | storeU8 offset value next => exact store_apply_outside houtside
  | flush offset length next => rfl

/-- A call that is no store leaves the memory alone. -/
theorem exec_snd_of_not_isStore (hload : call.isStore = false) : (call.exec memory).2 = memory := by
  cases call <;> first | rfl | cases hload

/-- A call leaves alone what it does not store to. -/
theorem exec_apply_of_store_outside {address : ℕ}
    (houtside : call.isStore = true →
      address < call.offset ∨ call.offset + call.length ≤ address) :
    (call.exec memory).2 address = memory address := by
  cases hstore : call.isStore with
  | true => exact exec_apply_outside (houtside hstore)
  | false => rw [exec_snd_of_not_isStore hstore]

end BackendCall

end Fence
