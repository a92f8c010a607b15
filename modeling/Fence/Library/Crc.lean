import Mathlib.Algebra.Order.Ring.Nat
import Mathlib.Data.Nat.Bitwise
import Mathlib.Logic.Function.Iterate
import Mathlib.Tactic.Common

/-!
# Reflected 32-bit cyclic redundancy checks

The register starts at all ones, takes every byte in its low bits, shifts right once per bit
and folds the polynomial in whenever a one falls out, and is complemented at the end. The
polynomial is given reflected, so a polynomial of degree 32 with constant term one has its top
bit set.

Bit steps are linear in exclusive or, and with the top bit of the polynomial set no two registers
step to the same one. Four bytes in a row enter the register like one word, and a register that is
different stays different, whatever comes after: no change within four bytes in a row goes
unnoticed (`checkValue_ne`).
-/

set_option autoImplicit false
set_option relaxedAutoImplicit false

namespace Crc

/-- One bit step of the register. -/
def bitStep (polynomial register : UInt32) : UInt32 :=
  if register &&& 1 = 1 then (register >>> 1) ^^^ polynomial else register >>> 1

/-- One byte step of the register. -/
def byteStep (polynomial register : UInt32) (byte : UInt8) : UInt32 :=
  Nat.repeat (bitStep polynomial) 8 (register ^^^ byte.toUInt32)

/-- The check value of a byte string. -/
def checkValue (polynomial : UInt32) (bytes : List UInt8) : UInt32 :=
  ~~~ bytes.foldl (byteStep polynomial) 0xFFFFFFFF

/-- The polynomial of the common 32-bit check, with the check value of the usual test string. -/
def ieee : UInt32 := 0xEDB88320

example : checkValue ieee [49, 50, 51, 52, 53, 54, 55, 56, 57] = 0xCBF43926 := by decide +kernel

variable {polynomial : UInt32}

/-! ### Bit steps -/

theorem and_one_eq_one_iff (register : UInt32) : register &&& 1 = 1 ↔ register.toNat % 2 = 1 := by
  rw [← UInt32.toNat_inj, UInt32.toNat_and]
  exact Eq.congr_left (Nat.and_one_is_mod _)

/-- A bit step is linear in exclusive or. -/
theorem bitStep_xor (first second : UInt32) :
    bitStep polynomial (first ^^^ second) =
      bitStep polynomial first ^^^ bitStep polynomial second := by
  have hparity : (first ^^^ second).toNat % 2 = (first.toNat + second.toNat) % 2 := by
    rw [UInt32.toNat_xor, Nat.xor_mod_two_eq]
  have hcancel : first >>> 1 ^^^ polynomial ^^^ (second >>> 1 ^^^ polynomial) =
      first >>> 1 ^^^ second >>> 1 ^^^ (polynomial ^^^ polynomial) := by ac_rfl
  rw [UInt32.xor_self, UInt32.xor_zero] at hcancel
  simp only [bitStep, and_one_eq_one_iff, UInt32.shiftRight_xor, hparity]
  split_ifs <;> first | omega | ac_rfl | exact hcancel.symm

theorem toNat_bitStep_of_even {register : UInt32} (heven : register.toNat % 2 = 0) :
    (bitStep polynomial register).toNat = register.toNat / 2 := by
  have hlow : ¬ register &&& 1 = 1 := by
    rw [and_one_eq_one_iff]
    omega
  rw [bitStep, if_neg hlow, UInt32.toNat_shiftRight]
  exact Nat.shiftRight_eq_div_pow _ _

/-- No two registers step to the same one when the top bit of the polynomial is set. -/
theorem bitStep_injective (hpolynomial : 2 ^ 31 ≤ polynomial.toNat) :
    Function.Injective (bitStep polynomial) := by
  intro first second hsame
  have hzero : bitStep polynomial (first ^^^ second) = 0 := by
    rw [bitStep_xor, hsame, UInt32.xor_self]
  refine UInt32.xor_eq_zero_iff.mp ?_
  generalize first ^^^ second = difference at hzero ⊢
  have hhalf : (difference >>> 1).toNat = difference.toNat / 2 := by
    rw [UInt32.toNat_shiftRight]
    exact Nat.shiftRight_eq_div_pow _ _
  have hlt := difference.toNat_lt
  rcases Nat.mod_two_eq_zero_or_one difference.toNat with heven | hodd
  · have hstep : (bitStep polynomial difference).toNat = _ := toNat_bitStep_of_even heven
    rw [hzero, UInt32.toNat_zero] at hstep
    exact UInt32.toNat_inj.mp (by rw [UInt32.toNat_zero]; omega)
  · -- the polynomial would have to be a register shifted right
    rw [bitStep, if_pos ((and_one_eq_one_iff _).mpr hodd), UInt32.xor_eq_zero_iff] at hzero
    rw [hzero] at hhalf
    omega

theorem iterate_bitStep_xor (count : ℕ) (first second : UInt32) :
    (bitStep polynomial)^[count] (first ^^^ second) =
      (bitStep polynomial)^[count] first ^^^ (bitStep polynomial)^[count] second := by
  induction count generalizing first second with
  | zero => rfl
  | succ count ih => rw [Function.iterate_succ_apply, bitStep_xor, ih]; rfl

/-- As long as no one falls out, bit steps shift right. -/
theorem toNat_iterate_bitStep (count value : ℕ) {register : UInt32}
    (hregister : register.toNat = 2 ^ count * value) :
    ((bitStep polynomial)^[count] register).toNat = value := by
  induction count generalizing register with
  | zero => rwa [Nat.pow_zero, Nat.one_mul] at hregister
  | succ count ih =>
    have hdouble : register.toNat = 2 * (2 ^ count * value) := by
      rw [hregister, Nat.pow_succ', Nat.mul_assoc]
    rw [Function.iterate_succ_apply]
    refine ih ?_
    rw [toNat_bitStep_of_even (by omega), hdouble, Nat.mul_div_cancel_left _ (by decide)]

/-! ### Byte steps -/

theorem byteStep_eq (register : UInt32) (byte : UInt8) :
    byteStep polynomial register byte =
      (bitStep polynomial)^[8] (register ^^^ byte.toUInt32) := rfl

/-- A register that is different stays different. -/
theorem foldl_byteStep_injective (hpolynomial : 2 ^ 31 ≤ polynomial.toNat) (bytes : List UInt8) :
    Function.Injective fun register ↦ bytes.foldl (byteStep polynomial) register := by
  induction bytes with
  | nil => exact Function.injective_id
  | cons byte rest ih =>
    intro first second hsame
    have hstep := ih hsame
    rw [byteStep_eq, byteStep_eq] at hstep
    exact (UInt32.xor_left_inj _).mp ((bitStep_injective hpolynomial).iterate 8 hstep)

/-! ### Four bytes in a row -/

/-- A few bytes as a word, the first byte lowest. -/
def word : List UInt8 → UInt32
  | [] => 0
  | byte :: rest => byte.toUInt32 ^^^ (word rest <<< 8)

theorem toNat_shiftLeft_eight {register : UInt32} (hregister : register.toNat < 2 ^ 24) :
    (register <<< 8).toNat = 2 ^ 8 * register.toNat := by
  have hshift : (8 : UInt32).toNat % 32 = 8 := rfl
  rw [UInt32.toNat_shiftLeft, hshift, Nat.shiftLeft_eq, Nat.mul_comm]
  exact Nat.mod_eq_of_lt (by omega)

/-- The low byte of a word is its first, and the others are the word of the others. -/
theorem toNat_word_cons {byte : UInt8} {rest : List UInt8} (hrest : (word rest).toNat < 2 ^ 24) :
    (word (byte :: rest)).toNat % 2 ^ 8 = byte.toNat ∧
      (word (byte :: rest)).toNat / 2 ^ 8 = (word rest).toNat := by
  have hbyte := byte.toNat_lt
  rw [word, UInt32.toNat_xor, UInt8.toNat_toUInt32, toNat_shiftLeft_eight hrest,
    Nat.xor_mod_two_pow, Nat.xor_div_two_pow, Nat.mul_mod_right,
    Nat.mul_div_cancel_left _ (by decide),
    Nat.mod_eq_of_lt hbyte, Nat.div_eq_of_lt hbyte, Nat.xor_zero, Nat.zero_xor]
  exact ⟨rfl, rfl⟩

theorem toNat_word_lt {bytes : List UInt8} (hlength : bytes.length ≤ 4) :
    (word bytes).toNat < 2 ^ (8 * bytes.length) := by
  induction bytes with
  | nil => exact Nat.one_pos
  | cons byte rest ih =>
    rw [List.length_cons] at hlength
    have hrest := ih (by omega)
    have hpow : 2 ^ (8 * rest.length) ≤ 2 ^ 24 := Nat.pow_le_pow_right (by decide) (by omega)
    obtain ⟨-, hdiv⟩ := @toNat_word_cons byte rest (hrest.trans_le hpow)
    rw [List.length_cons, Nat.mul_succ, Nat.pow_add]
    omega

/-- Up to four bytes are determined by their word. -/
theorem word_injective {first second : List UInt8} (hlength : first.length = second.length)
    (hbound : first.length ≤ 4) (hword : word first = word second) : first = second := by
  induction first generalizing second with
  | nil => exact (List.length_eq_zero_iff.mp hlength.symm).symm
  | cons byte rest ih =>
    obtain ⟨other, others, rfl⟩ := List.exists_cons_of_length_eq_add_one hlength.symm
    rw [List.length_cons] at hlength hbound
    rw [List.length_cons] at hlength
    have hpow : 2 ^ (8 * rest.length) ≤ 2 ^ 24 := Nat.pow_le_pow_right (by decide) (by omega)
    have hfirst := (@toNat_word_lt rest (by omega)).trans_le hpow
    have hsecond : (word others).toNat < 2 ^ 24 := by
      refine (@toNat_word_lt others (by omega)).trans_le ?_
      rwa [show others.length = rest.length by omega]
    obtain ⟨hmod, hdiv⟩ := @toNat_word_cons byte rest hfirst
    obtain ⟨hmod', hdiv'⟩ := @toNat_word_cons other others hsecond
    rw [hword] at hmod hdiv
    have hbyte : byte = other := UInt8.toNat_inj.mp (hmod.symm.trans hmod')
    have hrest : rest = others :=
      ih (by omega) (by omega) (UInt32.toNat_inj.mp (hdiv.symm.trans hdiv'))
    rw [hbyte, hrest]

/-- Up to four bytes enter a register like their word. -/
theorem foldl_byteStep_eq (register : UInt32) {bytes : List UInt8} (hlength : bytes.length ≤ 4) :
    bytes.foldl (byteStep polynomial) register =
      (bitStep polynomial)^[8 * bytes.length] (register ^^^ word bytes) := by
  induction bytes generalizing register with
  | nil => exact (UInt32.xor_zero).symm
  | cons byte rest ih =>
    rw [List.length_cons] at hlength
    have hpow : 2 ^ (8 * rest.length) ≤ 2 ^ 24 := Nat.pow_le_pow_right (by decide) (by omega)
    have hrest := (@toNat_word_lt rest (by omega)).trans_le hpow
    -- the later bytes fall through the eight steps of the first
    have hthrough : (bitStep polynomial)^[8] (word rest <<< 8) = word rest :=
      UInt32.toNat_inj.mp (toNat_iterate_bitStep 8 _ (toNat_shiftLeft_eight hrest))
    rw [List.foldl_cons, ih _ (by omega), byteStep_eq, List.length_cons, Nat.mul_succ,
      Function.iterate_add_apply, word, ← UInt32.xor_assoc,
      iterate_bitStep_xor 8 (register ^^^ byte.toUInt32) (word rest <<< 8), hthrough]

/-- A window of up to four bytes between others determines what it does to a register. -/
theorem foldl_window_injective (hpolynomial : 2 ^ 31 ≤ polynomial.toNat) (register : UInt32)
    (front back : List UInt8) {first second : List UInt8} (hlength : first.length = second.length)
    (hbound : first.length ≤ 4)
    (hsame : (front ++ first ++ back).foldl (byteStep polynomial) register =
      (front ++ second ++ back).foldl (byteStep polynomial) register) : first = second := by
  simp only [List.foldl_append] at hsame
  have hwindow := foldl_byteStep_injective hpolynomial back hsame
  have hsecond : second.length ≤ 4 := hlength ▸ hbound
  generalize front.foldl (byteStep polynomial) register = entered at hwindow
  simp only [foldl_byteStep_eq _ hbound, foldl_byteStep_eq _ hsecond, ← hlength] at hwindow
  have hword := (bitStep_injective hpolynomial).iterate _ hwindow
  exact word_injective hlength hbound ((UInt32.xor_right_inj _).mp hword)

/-- Two byte strings that differ, but only within four bytes in a row, have different check
values. -/
theorem checkValue_ne (hpolynomial : 2 ^ 31 ≤ polynomial.toNat) {first second : List UInt8}
    (hlength : first.length = second.length) (hdiffer : first ≠ second) {start : ℕ}
    (hwindow : ∀ position, position < start ∨ start + 4 ≤ position →
      first[position]? = second[position]?) :
    checkValue polynomial first ≠ checkValue polynomial second := by
  intro hsame
  have hfront : first.take start = second.take start := by
    refine List.ext_getElem? fun position ↦ ?_
    rw [List.getElem?_take, List.getElem?_take]
    split_ifs with hbefore
    · exact hwindow position (Or.inl hbefore)
    · rfl
  have hback : first.drop (start + 4) = second.drop (start + 4) := by
    refine List.ext_getElem? fun position ↦ ?_
    rw [List.getElem?_drop, List.getElem?_drop]
    exact hwindow _ (Or.inr (Nat.le_add_right _ _))
  have hsplit : ∀ bytes : List UInt8, bytes.take start ++ (bytes.drop start).take 4 ++
      bytes.drop (start + 4) = bytes := by
    intro bytes
    rw [← List.drop_drop, List.append_assoc, List.take_append_drop, List.take_append_drop]
  have hmiddle : (first.drop start).take 4 = (second.drop start).take 4 := by
    refine foldl_window_injective hpolynomial 0xFFFFFFFF (first.take start) (first.drop (start + 4))
      (by simp [hlength]) (by simp) ?_
    rw [hsplit, hfront, hback, hsplit]
    exact UInt32.not_inj.mp hsame
  rw [← hsplit first, ← hsplit second, hfront, hmiddle, hback] at hdiffer
  exact hdiffer rfl

end Crc
