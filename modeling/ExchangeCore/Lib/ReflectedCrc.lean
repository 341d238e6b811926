import Mathlib.Data.BitVec

/-!
# Reflected cyclic redundancy checks

The remainder of a bit string by a polynomial over the two-element field, with the
bits taken from the low end: `bitStep` divides by one more bit.  It is linear for
exclusive or, and it loses nothing when the polynomial has its top bit, because
that bit then tells which of the two branches was taken.

A table-driven implementation looks up what eight steps make of the low byte and
shifts the rest; `iterate_bitStep_split` is the reason why that is the same.
-/

namespace ExchangeCore

open BitVec

namespace ReflectedCrc

variable {w : Nat} (polynomial : BitVec w)

/-- Divide by one bit. -/
def bitStep (value : BitVec w) : BitVec w :=
  if value &&& 1#w ≠ 0#w then (value >>> 1) ^^^ polynomial else value >>> 1

theorem and_one_ne_zero_iff (value : BitVec w) : value &&& 1#w ≠ 0#w ↔ value.getLsbD 0 = true := by
  constructor
  · intro hNe
    by_contra hLow
    refine hNe (eq_of_getLsbD_eq fun i hi => ?_)
    rw [getLsbD_and, getLsbD_one, getLsbD_zero]
    cases i with
    | zero => simp [Bool.eq_false_iff.mpr hLow]
    | succ i => simp
  · intro hLow hEq
    have hWidth : 0 < w := lt_of_getLsbD hLow
    have hBit := congrArg (fun value : BitVec w => value.getLsbD 0) hEq
    simp only [getLsbD_and, hLow, getLsbD_one, hWidth, getLsbD_zero] at hBit
    cases hBit

theorem bitStep_eq (value : BitVec w) :
    bitStep polynomial value =
      (value >>> 1) ^^^ if value.getLsbD 0 then polynomial else 0#w := by
  unfold bitStep
  by_cases hLow : value.getLsbD 0 = true
  · rw [if_pos ((and_one_ne_zero_iff value).mpr hLow), if_pos hLow]
  · rw [if_neg (fun h => hLow ((and_one_ne_zero_iff value).mp h)), if_neg hLow, xor_zero]

/-! ## Linearity -/

theorem bitStep_xor (x y : BitVec w) :
    bitStep polynomial (x ^^^ y) = bitStep polynomial x ^^^ bitStep polynomial y := by
  rw [bitStep_eq, bitStep_eq, bitStep_eq, BitVec.getLsbD_xor, BitVec.ushiftRight_xor_distrib]
  cases hx : x.getLsbD 0 <;> cases hy : y.getLsbD 0
  · simp
  · simp [BitVec.xor_assoc]
  · simp only [Bool.true_xor, Bool.not_false, if_true, Bool.false_eq_true, if_false,
      BitVec.xor_zero]
    rw [BitVec.xor_assoc, BitVec.xor_comm (y >>> 1), BitVec.xor_assoc]
  simp only [Bool.xor_self, Bool.false_eq_true, if_false, if_true, BitVec.xor_zero]
  rw [BitVec.xor_assoc, BitVec.xor_comm polynomial, BitVec.xor_assoc, BitVec.xor_self,
    BitVec.xor_zero]

theorem iterate_bitStep_xor (n : Nat) (x y : BitVec w) :
    (bitStep polynomial)^[n] (x ^^^ y) =
      (bitStep polynomial)^[n] x ^^^ (bitStep polynomial)^[n] y := by
  induction n generalizing x y with
  | zero => rfl
  | succ n ih => rw [Function.iterate_succ_apply, bitStep_xor, ih]; rfl

/-! ## Nothing is lost -/

/-- Only zero is divided to zero, because the polynomial would show. -/
theorem eq_zero_of_bitStep (hTop : polynomial.msb = true) {value : BitVec w}
    (hZero : bitStep polynomial value = 0#w) : value = 0#w := by
  rw [bitStep_eq] at hZero
  have hShift : (value >>> 1).toNat = value.toNat / 2 := by
    rw [toNat_ushiftRight, Nat.shiftRight_eq_div_pow, Nat.pow_one]
  cases hLow : value.getLsbD 0 with
  | true =>
    rw [hLow, if_pos rfl] at hZero
    -- The shifted value has a clear top bit and the polynomial has not.
    have hEq : value >>> 1 = polynomial := by
      have hXor := congrArg (· ^^^ polynomial) hZero
      simpa [xor_assoc] using hXor
    have hLarge := msb_eq_true_iff_two_mul_ge.mp hTop
    rw [← hEq, hShift] at hLarge
    have hLt := value.isLt
    omega
  | false =>
    rw [hLow, if_neg Bool.false_ne_true, xor_zero] at hZero
    have hNat := congrArg BitVec.toNat hZero
    rw [hShift] at hNat
    have hEven : value.toNat % 2 = 0 := by
      rw [BitVec.getLsbD, Nat.testBit_zero] at hLow
      have hBit := of_decide_eq_false hLow
      omega
    refine eq_of_toNat_eq ?_
    simp only [toNat_ofNat, Nat.zero_mod] at hNat ⊢
    omega

theorem bitStep_injective (hTop : polynomial.msb = true) :
    Function.Injective (bitStep polynomial) := by
  intro x y hEq
  have hZero : bitStep polynomial (x ^^^ y) = 0#w := by
    rw [bitStep_xor, hEq, BitVec.xor_self]
  have hXor := eq_zero_of_bitStep polynomial hTop hZero
  exact BitVec.xor_eq_zero_iff.mp hXor

/-! ## Several bits at once -/

/-- Low bits that are clear are only shifted out. -/
theorem iterate_bitStep_of_clear {n : Nat} {value : BitVec w}
    (hClear : ∀ i < n, value.getLsbD i = false) :
    (bitStep polynomial)^[n] value = value >>> n := by
  induction n generalizing value with
  | zero => exact (ushiftRight_zero value).symm
  | succ n ih =>
    have hFirst : bitStep polynomial value = value >>> 1 := by
      rw [bitStep_eq, hClear 0 (Nat.succ_pos n), if_neg Bool.false_ne_true, xor_zero]
    have hRest : ∀ i < n, (value >>> 1).getLsbD i = false := by
      intro i hi
      rw [getLsbD_ushiftRight]
      exact hClear (1 + i) (by omega)
    rw [Function.iterate_succ_apply, hFirst, ih hRest, ← shiftRight_add, Nat.add_comm]

/-- What several steps make of a value: what they make of its low bits, and the
rest shifted down. -/
theorem iterate_bitStep_split (n : Nat) (value : BitVec w) :
    (bitStep polynomial)^[n] value =
      (bitStep polynomial)^[n] (value &&& BitVec.ofNat w (2 ^ n - 1)) ^^^ (value >>> n) := by
  have hMask : ∀ i, (BitVec.ofNat w (2 ^ n - 1)).getLsbD i = (decide (i < w) && decide (i < n)) :=
    fun i => by rw [getLsbD_ofNat, Nat.testBit_two_pow_sub_one]
  generalize hHigh : value &&& ~~~BitVec.ofNat w (2 ^ n - 1) = high
  have hSplit : value = (value &&& BitVec.ofNat w (2 ^ n - 1)) ^^^ high := by
    refine eq_of_getLsbD_eq fun i hi => ?_
    rw [← hHigh]
    simp only [getLsbD_xor, getLsbD_and, getLsbD_not, hMask, hi]
    cases value.getLsbD i <;> cases decide (i < n) <;> rfl
  have hClear : ∀ i < n, high.getLsbD i = false := by
    intro i hi
    rw [← hHigh, getLsbD_and, getLsbD_not, hMask]
    by_cases hWidth : i < w <;> simp [hi, hWidth]
  have hShift : high >>> n = value >>> n := by
    refine eq_of_getLsbD_eq fun i hi => ?_
    rw [← hHigh, getLsbD_ushiftRight, getLsbD_ushiftRight, getLsbD_and,
      getLsbD_not, hMask]
    by_cases hWidth : n + i < w
    · simp [hWidth]
    · simp [hWidth, getLsbD_of_ge value (n + i) (by omega)]
  rw [← hShift, ← iterate_bitStep_of_clear polynomial hClear, ← iterate_bitStep_xor, ← hSplit]

end ReflectedCrc
end ExchangeCore
