import ExchangeCore.Lib.ReflectedCrc

/-!
# CRC-32C

The table-driven checksum of `src/util/crc32c.cpp`.  Each byte steps the 32-bit
state, a step is injective in the state, and four bytes are one word of the division.
So two inputs whose differences lie within four bytes have different checksums, whatever
surrounds them (`crc32c_exact`).
-/

namespace ExchangeCore

open ReflectedCrc BitVec List

/-- The Castagnoli polynomial, low bit first. -/
def kReflectedPolynomial : BitVec 32 := 0x82F63B78#32

/-- Entry `i` of the table built at compile time. -/
def kTable (i : Fin 256) : BitVec 32 :=
  (bitStep kReflectedPolynomial)^[8] (BitVec.ofNat 32 i)

namespace Crc32c

theorem index_lt (value : BitVec 32) : (value &&& 0xFF#32).toNat < 256 := by
  rw [toNat_and]
  exact Nat.lt_of_le_of_lt Nat.and_le_right (by decide)

/-- One byte of input. -/
def step (crc : BitVec 32) (byte : UInt8) : BitVec 32 :=
  let index := (crc ^^^ byte.toBitVec.setWidth 32) &&& 0xFF#32
  kTable ⟨index.toNat, index_lt _⟩ ^^^ (crc >>> 8)

end Crc32c

def crc32c (data : List UInt8) (seed : BitVec 32) : BitVec 32 :=
  ~~~(data.foldl Crc32c.step (~~~seed))

namespace Crc32c

/-- A byte is eight bits of the division. -/
theorem step_eq (crc : BitVec 32) (byte : UInt8) :
    step crc byte =
      (bitStep kReflectedPolynomial)^[8] (crc ^^^ byte.toBitVec.setWidth 32) := by
  have hShift : (byte.toBitVec.setWidth 32) >>> 8 = 0#32 := by
    refine eq_of_toNat_eq ?_
    have hLt := byte.toBitVec.isLt
    rw [toNat_ushiftRight, toNat_setWidth, Nat.shiftRight_eq_div_pow,
      toNat_ofNat]
    omega
  rw [iterate_bitStep_split, ushiftRight_xor_distrib, hShift, xor_zero]
  show (bitStep kReflectedPolynomial)^[8] (BitVec.ofNat 32 (BitVec.toNat _)) ^^^ _ = _
  rw [ofNat_toNat, setWidth_eq]
  rfl

theorem step_injective (byte : UInt8) : Function.Injective fun crc => step crc byte := by
  intro x y hEq
  simp only [step_eq] at hEq
  exact (xor_left_inj _).mp ((bitStep_injective _ (by decide)).iterate 8 hEq)

theorem foldl_step_injective (data : List UInt8) :
    Function.Injective fun crc => data.foldl step crc := by
  induction data with
  | nil => exact Function.injective_id
  | cons byte data ih => exact ih.comp (step_injective byte)

/-- Bytes as one word, the first of them lowest. -/
def word : List UInt8 → BitVec 32
  | [] => 0#32
  | byte :: bytes => (word bytes <<< 8) ^^^ byte.toBitVec.setWidth 32

theorem getLsbD_word_of_ge {bytes : List UInt8} {i : Nat} (hi : 8 * bytes.length ≤ i) :
    (word bytes).getLsbD i = false := by
  induction bytes generalizing i with
  | nil => exact getLsbD_zero
  | cons byte bytes ih =>
    rw [length_cons] at hi
    rw [word, getLsbD_xor, getLsbD_shiftLeft, ih (by omega), getLsbD_setWidth,
      getLsbD_of_ge _ i (by omega)]
    simp

/-- Eight steps take the lowest byte off. -/
theorem iterate_word_shift {bytes : List UInt8} (hShort : bytes.length ≤ 3) :
    (bitStep kReflectedPolynomial)^[8] (word bytes <<< 8) = word bytes := by
  rw [iterate_bitStep_of_clear _ fun i hi => by simp [hi]]
  refine eq_of_getLsbD_eq fun i hi => ?_
  rw [getLsbD_ushiftRight, getLsbD_shiftLeft]
  by_cases hLow : 8 + i < 32
  · simp [hLow]
  · simp [hLow, getLsbD_word_of_ge (show 8 * bytes.length ≤ i by omega)]

/-- Up to four bytes are one word of the division. -/
theorem foldl_step_eq {bytes : List UInt8} (hShort : bytes.length ≤ 4) (crc : BitVec 32) :
    bytes.foldl step crc =
      (bitStep kReflectedPolynomial)^[8 * bytes.length] (crc ^^^ word bytes) := by
  induction bytes generalizing crc with
  | nil => exact (xor_zero).symm
  | cons byte bytes ih =>
    rw [length_cons] at hShort
    rw [foldl_cons, ih (by omega), step_eq, ← iterate_word_shift (by omega),
      ← iterate_bitStep_xor, ← Function.iterate_add_apply, word, length_cons, Nat.mul_succ,
      xor_assoc, BitVec.xor_comm (byte.toBitVec.setWidth 32)]

theorem word_injective {x y : List UInt8} (hLength : x.length = y.length) (hShort : x.length ≤ 4)
    (hWord : word x = word y) : x = y := by
  induction x generalizing y with
  | nil => exact (length_eq_zero_iff.mp hLength.symm).symm
  | cons a x ih =>
    obtain ⟨b, y, rfl⟩ := exists_cons_of_length_eq_add_one hLength.symm
    rw [length_cons] at hShort
    have hBits : ∀ i < 32, (word (a :: x)).getLsbD i = (word (b :: y)).getLsbD i := fun i _ =>
      congrArg (fun w => w.getLsbD i) hWord
    simp only [word, getLsbD_xor, getLsbD_shiftLeft, getLsbD_setWidth] at hBits
    have hByte : a = b := by
      refine UInt8.toBitVec_inj.mp (eq_of_getLsbD_eq fun i hi => ?_)
      simpa [hi, show i < 32 by omega] using hBits i (by omega)
    have hRest : word x = word y := by
      refine eq_of_getLsbD_eq fun i hi => ?_
      by_cases hTop : i + 8 < 32
      · simpa [hTop, hByte, show ¬ i + 8 < 8 by omega] using hBits (i + 8) hTop
      · rw [getLsbD_word_of_ge (by omega),
          getLsbD_word_of_ge (by rw [← Nat.succ.inj hLength]; omega)]
    rw [hByte, ih (Nat.succ.inj hLength) (by omega) hRest]

end Crc32c

/-- A checksum tells apart inputs that differ in up to four bytes in a row. -/
theorem crc32c_ne_of_burst {x y : List UInt8} (hLength : x.length = y.length)
    (hShort : x.length ≤ 4) (hNe : x ≠ y) (before after : List UInt8) (seed : BitVec 32) :
    crc32c (before ++ (x ++ after)) seed ≠ crc32c (before ++ (y ++ after)) seed := by
  unfold crc32c
  intro hEq
  rw [BitVec.not_inj] at hEq
  simp only [foldl_append] at hEq
  have hFold := Crc32c.foldl_step_injective after hEq
  generalize before.foldl Crc32c.step _ = crc at hFold
  rw [Crc32c.foldl_step_eq hShort, Crc32c.foldl_step_eq (hLength ▸ hShort), ← hLength] at hFold
  have hXor := (bitStep_injective kReflectedPolynomial (by decide)).iterate _ hFold
  exact hNe (Crc32c.word_injective hLength hShort ((BitVec.xor_right_inj _).mp hXor))

theorem crc32c_ne_of_near {x y : List UInt8} (hLength : x.length = y.length) (hNe : x ≠ y)
    {start : Nat} (hNear : ∀ i, x[i]? ≠ y[i]? → start ≤ i ∧ i < start + 4) (seed : BitVec 32) :
    crc32c x seed ≠ crc32c y seed := by
  have hSame : ∀ i, i < start ∨ start + 4 ≤ i → x[i]? = y[i]? := by
    intro i hFar
    by_contra hDiffer
    have := hNear i hDiffer
    omega
  have hBefore : x.take start = y.take start := by
    refine ext_getElem? fun i => ?_
    rw [List.getElem?_take, List.getElem?_take]
    split
    · next hi => exact hSame i (Or.inl hi)
    · rfl
  have hAfter : (x.drop start).drop 4 = (y.drop start).drop 4 := by
    refine ext_getElem? fun i => ?_
    simp only [drop_drop, List.getElem?_drop]
    exact hSame _ (Or.inr (by omega))
  have hSplit : ∀ z : List UInt8,
      z.take start ++ ((z.drop start).take 4 ++ (z.drop start).drop 4) = z := fun z => by
    rw [take_append_drop, take_append_drop]
  rw [← hSplit x, ← hSplit y, hBefore, hAfter]
  refine crc32c_ne_of_burst (by simp [hLength]) (length_take_le _ _) (fun hEq => hNe ?_) _ _ _
  rw [← hSplit x, hBefore, hEq, hAfter, hSplit]

/-- The checksum bit by bit: a byte is taken into the low end and divided away. -/
def crc32cBitwise (data : List UInt8) (seed : BitVec 32) : BitVec 32 :=
  ~~~(data.foldl (fun crc byte =>
    (bitStep kReflectedPolynomial)^[8] (crc ^^^ byte.toBitVec.setWidth 32)) (~~~seed))

/-- Inputs of one length whose differences lie within four bytes have different checksums;
the table computes what the bits do; and a checksum can be continued. -/
theorem crc32c_exact :
    (∀ x y : List UInt8, x.length = y.length → x ≠ y →
        (∃ start, ∀ i, x[i]? ≠ y[i]? → start ≤ i ∧ i < start + 4) →
        ∀ seed, crc32c x seed ≠ crc32c y seed) ∧
      (∀ data seed, crc32c data seed = crc32cBitwise data seed) ∧
      ∀ a b seed, crc32c (a ++ b) seed = crc32c b (crc32c a seed) := by
  refine ⟨fun x y hLength hNe ⟨start, hNear⟩ => crc32c_ne_of_near hLength hNe hNear,
    fun data seed => ?_, fun a b seed => ?_⟩
  · unfold crc32c crc32cBitwise
    rw [← funext₂ Crc32c.step_eq]
  · unfold crc32c
    rw [List.foldl_append, BitVec.not_not]

-- The check value of the Castagnoli polynomial, over the digits one to nine.
example : crc32c [49, 50, 51, 52, 53, 54, 55, 56, 57] 0#32 = 0xE3069283#32 := by decide +kernel

end ExchangeCore
