import Mathlib.Algebra.Order.Ring.Nat
import Mathlib.Data.List.Basic
import Mathlib.Tactic.Common

/-!
# Byte-addressed memory

A memory is a function from addresses to bytes. `load` reads a run of bytes and `store` writes
one; `loadWord` and `storeWord` do the same for a number held in little-endian order. The laws
are the usual ones: a load sees the last store to the same run (`load_store_self`), a store
leaves every run it does not touch alone (`load_store_outside`), a later store of the same
length hides an earlier one (`store_store_self`), and storing what is already there changes
nothing (`store_load_self`). The word laws follow from the round trips of the little-endian
encoding, `leValue_leBytes` and `leBytes_leValue`.
-/

set_option autoImplicit false
set_option relaxedAutoImplicit false

namespace ByteMemory

/-! ### Little-endian numbers -/

/-- The number a list of bytes holds, lowest byte first. -/
def leValue : List UInt8 → ℕ
  | [] => 0
  | byte :: rest => byte.toNat + 256 * leValue rest

/-- The `width` low bytes of a number, lowest byte first. -/
def leBytes : ℕ → ℕ → List UInt8
  | 0, _ => []
  | width + 1, value => UInt8.ofNat value :: leBytes width (value / 256)

@[simp] theorem length_leBytes (width value : ℕ) : (leBytes width value).length = width := by
  induction width generalizing value with
  | zero => rfl
  | succ width ih => simp [leBytes, ih]

/-- Encoding keeps a number modulo the range of its width. -/
theorem leValue_leBytes (width value : ℕ) :
    leValue (leBytes width value) = value % 256 ^ width := by
  induction width generalizing value with
  | zero => simp [leBytes, leValue, Nat.mod_one]
  | succ width ih =>
    have hbyte : (UInt8.ofNat value).toNat = value % 256 := by simp
    rw [leBytes, leValue, ih, hbyte, Nat.pow_succ, Nat.mul_comm (256 ^ width), Nat.mod_mul]

/-- A list of bytes is the encoding of the number it holds. -/
theorem leBytes_leValue (bytes : List UInt8) : leBytes bytes.length (leValue bytes) = bytes := by
  induction bytes with
  | nil => rfl
  | cons byte rest ih =>
    have hlow : (byte.toNat + 256 * leValue rest) / 256 = leValue rest := by
      have := byte.toNat_lt
      omega
    have hbyte : UInt8.ofNat (byte.toNat + 256 * leValue rest) = byte := by
      apply UInt8.toNat_inj.mp
      have := byte.toNat_lt
      simp only [UInt8.toNat_ofNat']
      omega
    rw [List.length_cons, leBytes, leValue, hlow, ih, hbyte]

/-- Byte strings of one length holding one number are equal. -/
theorem leValue_inj {first second : List UInt8} (hlength : first.length = second.length)
    (hvalue : leValue first = leValue second) : first = second := by
  rw [← leBytes_leValue first, ← leBytes_leValue second, hlength, hvalue]

theorem leValue_lt (bytes : List UInt8) : leValue bytes < 256 ^ bytes.length := by
  rw [← leBytes_leValue bytes, leValue_leBytes, length_leBytes]
  exact Nat.mod_lt _ (Nat.pow_pos (by decide))

/-! ### Loads and stores -/

/-- A memory holds one byte at every address. -/
abbrev Memory := ℕ → UInt8

/-- The `length` bytes from `offset` on. -/
def load (memory : Memory) (offset length : ℕ) : List UInt8 :=
  (List.range length).map fun i ↦ memory (offset + i)

/-- The memory with `bytes` written from `offset` on. -/
def store (memory : Memory) (offset : ℕ) (bytes : List UInt8) : Memory := fun address ↦
  if offset ≤ address then bytes[address - offset]?.getD (memory address) else memory address

@[simp] theorem length_load (memory : Memory) (offset length : ℕ) :
    (load memory offset length).length = length := by
  simp [load]

theorem getElem_load (memory : Memory) (offset length i : ℕ)
    (hi : i < (load memory offset length).length) :
    (load memory offset length)[i] = memory (offset + i) := by
  simp [load]

/-- Loads of runs that agree byte by byte are equal. -/
theorem load_congr {first second : Memory} {offset other length : ℕ}
    (hagree : ∀ i < length, first (offset + i) = second (other + i)) :
    load first offset length = load second other length :=
  List.map_congr_left fun i hi ↦ hagree i (List.mem_range.mp hi)

/-- Runs whose loads are equal agree byte by byte. -/
theorem eq_of_load_eq {first second : Memory} {offset length i : ℕ}
    (hload : load first offset length = load second offset length) (hi : i < length) :
    first (offset + i) = second (offset + i) := by
  have hfirst := getElem_load first offset length i (by simpa using hi)
  have hsecond := getElem_load second offset length i (by simpa using hi)
  rw [← hfirst, ← hsecond]
  simp only [hload]

/-- A store leaves the bytes outside its run alone. -/
theorem store_apply_outside {memory : Memory} {offset address : ℕ} {bytes : List UInt8}
    (houtside : address < offset ∨ offset + bytes.length ≤ address) :
    store memory offset bytes address = memory address := by
  unfold store
  split_ifs with hle
  · rw [List.getElem?_eq_none (by omega), Option.getD_none]
  · rfl

/-- A store puts its bytes at their addresses. -/
theorem store_apply_inside {memory : Memory} {offset i : ℕ} {bytes : List UInt8}
    (hi : i < bytes.length) : store memory offset bytes (offset + i) = bytes[i] := by
  simp [store, hi]

theorem store_one_self (memory : Memory) (offset : ℕ) (byte : UInt8) :
    store memory offset [byte] offset = byte := by
  simp [store]

/-- Storing no bytes changes nothing. -/
@[simp] theorem store_nil (memory : Memory) (offset : ℕ) : store memory offset [] = memory := by
  funext address
  exact store_apply_outside (Nat.lt_or_ge address offset)

/-- A load sees the last store to the same run. -/
theorem load_store_self (memory : Memory) (offset : ℕ) (bytes : List UInt8) :
    load (store memory offset bytes) offset bytes.length = bytes := by
  refine List.ext_getElem (by simp) fun i hload hi ↦ ?_
  rw [getElem_load, store_apply_inside hi]

/-- A load does not see a store to a disjoint run. -/
theorem load_store_outside {memory : Memory} {offset other length : ℕ} {bytes : List UInt8}
    (houtside : offset + length ≤ other ∨ other + bytes.length ≤ offset) :
    load (store memory other bytes) offset length = load memory offset length :=
  load_congr fun i hi ↦ store_apply_outside (by omega)

/-- Storing what is already there changes nothing. -/
theorem store_load_self (memory : Memory) (offset length : ℕ) :
    store memory offset (load memory offset length) = memory := by
  funext address
  by_cases hin : offset ≤ address ∧ address < offset + length
  · obtain ⟨i, rfl⟩ := Nat.exists_eq_add_of_le hin.1
    rw [store_apply_inside (by simp; omega), getElem_load]
  · exact store_apply_outside (by simp; omega)

/-- A later store of the same length hides an earlier one. -/
theorem store_store_self (memory : Memory) (offset : ℕ) {first second : List UInt8}
    (hlength : first.length = second.length) :
    store (store memory offset first) offset second = store memory offset second := by
  funext address
  by_cases hin : offset ≤ address ∧ address < offset + second.length
  · obtain ⟨i, rfl⟩ := Nat.exists_eq_add_of_le hin.1
    rw [store_apply_inside (by omega), store_apply_inside (by omega)]
  · rw [store_apply_outside (by omega), store_apply_outside (by omega),
      store_apply_outside (by omega)]

/-! ### Words -/

/-- The number held in `width` bytes. -/
@[irreducible] def loadWord (memory : Memory) (offset width : ℕ) : ℕ :=
  leValue (load memory offset width)

/-- The memory with a number written into `width` bytes. -/
def storeWord (memory : Memory) (offset width value : ℕ) : Memory :=
  store memory offset (leBytes width value)

theorem loadWord_lt (memory : Memory) (offset width : ℕ) :
    loadWord memory offset width < 256 ^ width := by
  simpa [loadWord] using leValue_lt (load memory offset width)

/-- Words are equal when their bytes are, and only then. -/
theorem loadWord_congr {first second : Memory} {offset other width : ℕ}
    (hload : load first offset width = load second other width) :
    loadWord first offset width = loadWord second other width := by
  rw [loadWord, loadWord, hload]

theorem load_eq_of_loadWord_eq {first second : Memory} {offset other width : ℕ}
    (hword : loadWord first offset width = loadWord second other width) :
    load first offset width = load second other width := by
  rw [loadWord, loadWord] at hword
  exact leValue_inj (by rw [length_load, length_load]) hword

/-- A word load sees the last store to the same word, modulo the range of its width. -/
theorem loadWord_storeWord_self (memory : Memory) (offset width value : ℕ) :
    loadWord (storeWord memory offset width value) offset width = value % 256 ^ width := by
  have hload := load_store_self memory offset (leBytes width value)
  rw [length_leBytes] at hload
  rw [loadWord, storeWord, hload, leValue_leBytes]

/-- A word load does not see a store to a disjoint run. -/
theorem loadWord_store_outside {memory : Memory} {offset other width : ℕ} {bytes : List UInt8}
    (houtside : offset + width ≤ other ∨ other + bytes.length ≤ offset) :
    loadWord (store memory other bytes) offset width = loadWord memory offset width := by
  rw [loadWord, load_store_outside houtside, loadWord]

/-- The bytes of a loaded word are those in the memory. -/
theorem leBytes_loadWord (memory : Memory) (offset width : ℕ) :
    leBytes width (loadWord memory offset width) = load memory offset width := by
  have hbytes := leBytes_leValue (load memory offset width)
  rw [length_load] at hbytes
  rw [loadWord, hbytes]

/-- Storing the number a word already holds changes nothing. -/
theorem storeWord_loadWord_self (memory : Memory) (offset width : ℕ) :
    storeWord memory offset width (loadWord memory offset width) = memory := by
  rw [storeWord, leBytes_loadWord, store_load_self]

/-- A later store to a word hides an earlier one. -/
theorem storeWord_storeWord_self (memory : Memory) (offset width first second : ℕ) :
    storeWord (storeWord memory offset width first) offset width second =
      storeWord memory offset width second :=
  store_store_self memory offset (by simp)

end ByteMemory
