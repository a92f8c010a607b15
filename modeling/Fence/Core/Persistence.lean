import Fence.Core.Layout
import Fence.Library.Interleaving
import Mathlib.Data.List.Range

/-!
# Flushing a range

`flush_range` of `persistence.rs` walks over a range of addresses from line to line and issues a
`clwb` for each, then one `sfence`. Addresses are words: the mask that rounds the start down, the
end of the range and the steps of the loop are all computed modulo `2 ^ 64`. The shared state of the
machine is the list of the instructions that were issued. `flushLoop_ends` is the run of the loop
from any line on.
-/

set_option autoImplicit false
set_option relaxedAutoImplicit false

namespace Fence

open Interleaving

/-- The instructions that `persistence.rs` issues. -/
inductive Instruction
  /-- The cacheline of an address is to be written back. -/
  | clwb (addr : UInt64)
  /-- What was issued before is complete before what is stored after. -/
  | sfence
  deriving DecidableEq, Repr

/-- `CACHELINE`, as a `usize`. -/
def cachelineWord : UInt64 := UInt64.ofNat cacheline

/-- Program points of `flush_range`. -/
inductive FlushPoint
  | clwb (ptr : UInt64)
  | sfence
  deriving DecidableEq, Repr

/-- The head of the loop over the lines. -/
def FlushPoint.head (stop ptr : UInt64) : Task FlushPoint Unit :=
  if ptr < stop then .running (.clwb ptr) else .running .sfence

variable (addr len : UInt64)

/-- The start of the range, aligned down to a line boundary. -/
def alignedStart : UInt64 := addr &&& ~~~(cachelineWord - 1)

/-- `flush_range`, up to the first instruction. -/
def startFlush : Task FlushPoint Unit :=
  if len = 0 then .returned () else FlushPoint.head (addr + len) (alignedStart addr)

/-- `flush_range`: the instruction at a program point, and how it goes on. -/
def flushRange : FlushPoint → Instruction × Task FlushPoint Unit
  | .clwb ptr => (.clwb ptr, FlushPoint.head (addr + len) (ptr + cachelineWord))
  | .sfence => (.sfence, .returned ())

/-- `flush_range` on its own, with the instructions issued so far. -/
def flushMachine : Machine (Task FlushPoint Unit) (Task FlushPoint Unit) (List Instruction) Empty
    where
  start := id
  step := fun task issued ↦
    match task with
    | .running point => ((flushRange addr len point).2, issued ++ [(flushRange addr len point).1])
    | .returned result => (.returned result, issued)
  env := fun event _ ↦ event.elim

/-! ### Lines -/

/-- A mask without the low bits rounds a number down. -/
theorem and_two_pow_sub_two_pow {value width low : ℕ} (hvalue : value < 2 ^ width)
    (hlow : low ≤ width) : value &&& (2 ^ width - 2 ^ low) = value / 2 ^ low * 2 ^ low := by
  have hpos : 2 ^ low = 2 ^ low - 1 + 1 := (Nat.sub_add_cancel (Nat.pow_pos (by decide))).symm
  have hmask (i : ℕ) :
      (2 ^ width - 2 ^ low).testBit i = (decide (i < width) && decide (low ≤ i)) := by
    have hle : 2 ^ low - 1 < 2 ^ width :=
      Nat.lt_of_lt_of_le (Nat.sub_lt (Nat.pow_pos (by decide)) Nat.zero_lt_one)
        (Nat.pow_le_pow_right (by decide) hlow)
    rw [hpos, Nat.testBit_two_pow_sub_succ hle, Nat.testBit_two_pow_sub_one]
    simp only [← decide_not, Nat.not_lt]
  apply Nat.eq_of_testBit_eq
  intro i
  rw [Nat.testBit_and, hmask, Nat.testBit_mul_two_pow, Nat.testBit_div_two_pow]
  by_cases hi : low ≤ i
  · by_cases hwidth : i < width
    · simp [hi, hwidth]
    · have hhigh : value.testBit i = false := Nat.testBit_lt_two_pow
        (Nat.lt_of_lt_of_le hvalue (Nat.pow_le_pow_right (by decide) (Nat.le_of_not_lt hwidth)))
      simp [hi, hhigh]
  · simp [hi]

/-- The address of a line. -/
def lineAddress (line : ℕ) : UInt64 := UInt64.ofNat (line * cacheline)

theorem toNat_lineAddress {line : ℕ} (hline : line * cacheline < 2 ^ 64) :
    (lineAddress line).toNat = line * cacheline := UInt64.toNat_ofNat_of_lt' hline

theorem lineAddress_add_cachelineWord (line : ℕ) :
    lineAddress line + cachelineWord = lineAddress (line + 1) := by
  rw [lineAddress, lineAddress, cachelineWord, Nat.succ_mul, UInt64.ofNat_add]

/-- The loop starts at the line of the address. -/
theorem alignedStart_eq : alignedStart addr = lineAddress (addr.toNat / cacheline) := by
  have hmask : (~~~(cachelineWord - 1)).toNat = 2 ^ 64 - 2 ^ 6 := by decide
  apply UInt64.toNat_inj.mp
  have hle : addr.toNat / cacheline * cacheline < 2 ^ 64 :=
    Nat.lt_of_le_of_lt (Nat.div_mul_le_self _ _) addr.toNat_lt
  rw [toNat_lineAddress hle, alignedStart, UInt64.toNat_and, hmask,
    and_two_pow_sub_two_pow addr.toNat_lt (by decide)]
  rfl

variable {addr len}

/-- The loop writes back every line that starts before the end of the range. -/
theorem flushLoop_ends (hstop : (addr + len).toNat + 63 < 2 ^ 64) (first count : ℕ)
    (hcount : ((addr + len).toNat + 63) / cacheline = first + count) (issued : List Instruction) :
    (flushMachine addr len).Ends (FlushPoint.head (addr + len) (lineAddress first)) issued
      (.running .sfence)
      (issued ++ (List.range' first count).map fun line ↦ .clwb (lineAddress line)) := by
  have haddress : (lineAddress first).toNat = first * cacheline := by
    apply toNat_lineAddress
    unfold cacheline at *
    omega
  induction count generalizing first issued with
  | zero =>
    have hdone : ¬ lineAddress first < addr + len := by
      rw [UInt64.lt_iff_toNat_lt, haddress]
      unfold cacheline at *
      omega
    rw [FlushPoint.head, if_neg hdone, List.range'_zero, List.map_nil, List.append_nil]
    exact .refl _ _
  | succ count ih =>
    have hnext : lineAddress first < addr + len := by
      rw [UInt64.lt_iff_toNat_lt, haddress]
      unfold cacheline at *
      omega
    have hrest := ih (first + 1) (by omega) (issued ++ [.clwb (lineAddress first)])
      (toNat_lineAddress (by unfold cacheline at *; omega))
    rw [FlushPoint.head, if_pos hnext, List.range'_succ, List.map_cons,
      List.append_cons issued]
    refine .step ?_
    simpa only [flushMachine, flushRange, lineAddress_add_cachelineWord] using hrest

end Fence
