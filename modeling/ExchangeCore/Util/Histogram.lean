import Mathlib.Data.List.Basic
import ExchangeCore.Lib.LogLinear
import ExchangeCore.Lib.Word64

/-!
# The latency histogram

The log-linear histogram of `src/util/histogram.cpp`: samples are counted per bucket, with
the smallest and the largest, a total that wraps, and a count of samples beyond the range.
The numbers of samples are not taken to wrap.

The buckets cut the range without a gap, each as wide as its values allow (`buckets_partition`).
Merging is a homomorphism: a sample recorded on either side of a merge might as well be
recorded after it (`merge_record`, `record_merge`), so that histograms filled apart and merged
are the one histogram of all samples (`merge_eq_recordAll`).
-/

namespace ExchangeCore

open LogLinear

structure Histogram where
  significantBits : Nat
  maxValue : Nat
  counts : List Nat := []
  count : Nat := 0
  total : Nat := 0
  min : Nat := 0
  max : Nat := 0
  overflow : Nat := 0
  deriving DecidableEq

namespace Histogram

variable (h : Histogram)

def subBucketCount : Nat := 2 ^ h.significantBits

def subBucketHalfCount : Nat := h.subBucketCount / 2

def subBucketMask : Nat := h.subBucketCount - 1

/-- The exponent of a value's bucket; `63 - countl_zero` is the binary logarithm. -/
def bucketFor (value : Nat) : Nat :=
  let masked := value ||| h.subBucketMask
  let magnitude := Nat.log2 masked
  if magnitude ≥ h.significantBits - 1 then magnitude - (h.significantBits - 1) else 0

def indexFor (value : Nat) : Nat :=
  let bucket := h.bucketFor value
  let sub := value >>> bucket
  if bucket = 0 then sub
  else (bucket + 1) * h.subBucketHalfCount + (sub - h.subBucketHalfCount)

/-- The exponent of a bucket above the linear part. -/
def bucketAt (index : Nat) : Nat :=
  let aboveLinear := index - 2 * h.subBucketHalfCount
  aboveLinear / h.subBucketHalfCount + 1

def lowestValueAt (index : Nat) : Nat :=
  if index < 2 * h.subBucketHalfCount then index
  else
    let sub := index % h.subBucketHalfCount + h.subBucketHalfCount
    if h.bucketAt index ≥ 64 then h.maxValue else Word64.wrap (sub <<< h.bucketAt index)

def highestValueAt (index : Nat) : Nat :=
  if index < 2 * h.subBucketHalfCount then index
  else if h.bucketAt index ≥ 64 then h.maxValue
  else Word64.sub (Word64.add (h.lowestValueAt index) (1 <<< h.bucketAt index)) 1

/-- An empty histogram: the precision is clamped, and the range holds the linear part. -/
def create (maxValue : UInt64) (significantBits : UInt32) : Histogram :=
  let bits :=
    if significantBits.toNat < 2 then 2
    else if significantBits.toNat > 20 then 20 else significantBits.toNat
  let range := if maxValue.toNat < 2 ^ bits then 2 ^ bits else maxValue.toNat
  let shape : Histogram := { significantBits := bits, maxValue := range }
  { shape with counts := List.replicate (shape.indexFor range + 1) 0 }

def record (value : Nat) : Histogram :=
  if value > h.maxValue then
    { h with overflow := h.overflow + 1, max := if value > h.max then value else h.max }
  else
    { h with
      counts := h.counts.modify (h.indexFor value) (· + 1)
      count := h.count + 1
      total := Word64.add h.total value
      max := if value > h.max then value else h.max
      min := if h.count + 1 = 1 ∨ value < h.min then value else h.min }

def recordAll (samples : List Nat) : Histogram := samples.foldl record h

def merge (other : Histogram) : Histogram :=
  { h with
    counts := List.zipWith (· + ·) h.counts other.counts
    count := h.count + other.count
    total := Word64.add h.total other.total
    overflow := h.overflow + other.overflow
    max := if other.max > h.max then other.max else h.max
    min :=
      if h.count + other.count = other.count ∨ (other.count > 0 ∧ other.min < h.min) then
        other.min
      else h.min }

/-! ## The buckets of the range -/

/-- The bits within half a bucket's places, as `bucketFor` counts them. -/
def halfBits : Nat := h.significantBits - 1

/-- The precision and the range of a histogram the constructor makes. -/
structure Shaped : Prop where
  bits : 2 ≤ h.significantBits ∧ h.significantBits ≤ 20
  range : h.maxValue < 2 ^ 64
  half : h.subBucketHalfCount = 2 ^ h.halfBits
  size : h.counts.length = h.indexFor h.maxValue + 1

theorem shaped_create (maxValue : UInt64) (significantBits : UInt32) :
    (create maxValue significantBits).Shaped := by
  have hBits : 2 ≤ (create maxValue significantBits).significantBits ∧
      (create maxValue significantBits).significantBits ≤ 20 := by
    dsimp only [create]
    split
    · decide
    · split <;> omega
  constructor
  · exact hBits
  · have hSmall := Nat.pow_le_pow_right Nat.two_pos hBits.2
    have hWord := maxValue.toNat_lt
    revert hSmall
    dsimp only [create]
    generalize (if significantBits.toNat < 2 then 2 else _) = bits
    split <;> omega
  · obtain ⟨bits, hEq⟩ := Nat.exists_eq_add_of_le' (Nat.one_le_of_lt hBits.1)
    rw [halfBits, subBucketHalfCount, subBucketCount, hEq, pow_succ,
      Nat.mul_div_cancel _ Nat.two_pos]
    rfl
  · exact List.length_replicate

section Shape

variable {h} {octave place : Nat} (hShaped : h.Shaped)
include hShaped

theorem Shaped.bucketFor_eq (value : Nat) :
    h.bucketFor value = octaveOf h.halfBits value := by
  rw [octaveOf, halfBits, Nat.sub_add_cancel (Nat.one_le_of_lt hShaped.bits.1)]
  unfold bucketFor subBucketMask subBucketCount
  dsimp only
  split <;> omega

theorem Shaped.indexFor_eq (value : Nat) :
    h.indexFor value =
      h.bucketFor value * 2 ^ h.halfBits + value / 2 ^ h.bucketFor value := by
  have hAbove := (@bucket_octaveOf h.halfBits value).above
  rw [← hShaped.bucketFor_eq] at hAbove
  simp only [indexFor, hShaped.half, Nat.shiftRight_eq_div_pow]
  split
  · next hLinear => rw [hLinear, Nat.zero_mul, Nat.zero_add]
  next hOctave =>
  have := hAbove (Nat.pos_of_ne_zero hOctave)
  rw [Nat.succ_mul]
  omega

theorem Shaped.bucket_for (value : Nat) :
    Bucket h.halfBits (h.bucketFor value) (value / 2 ^ h.bucketFor value) := by
  rw [hShaped.bucketFor_eq]
  exact bucket_octaveOf value

theorem Shaped.indexFor_mono : Monotone h.indexFor := by
  intro value value' hLe
  rw [hShaped.indexFor_eq, hShaped.indexFor_eq]
  by_contra hLess
  -- The higher value would lie in a bucket that ends before the lower value's begins.
  have hEnds := (hShaped.bucket_for value').le_of_number (hShaped.bucket_for value)
    (Nat.not_le.mp hLess)
  have hWithin := lt_end value' (h.bucketFor value')
  exact absurd (hEnds.trans (Nat.div_mul_le_self _ _)) (Nat.not_le.mpr (hLe.trans_lt hWithin))

variable (hBucket : Bucket h.halfBits octave place)
include hBucket

theorem Shaped.bucketAt_eq
    (hAbove : 2 * h.subBucketHalfCount ≤ octave * 2 ^ h.halfBits + place) :
    h.bucketAt (octave * 2 ^ h.halfBits + place) = octave := by
  have hNumber := hBucket.octave_eq
  unfold bucketAt
  dsimp only
  rw [hShaped.half] at *
  have hTwo := (Nat.le_div_iff_mul_le (Nat.two_pow_pos h.halfBits)).mpr hAbove
  rw [Nat.mul_comm 2, Nat.sub_mul_div]
  omega

variable (hIndex : octave * 2 ^ h.halfBits + place < h.counts.length)
include hIndex

/-- No bucket of the range ends beyond the values of a word. -/
theorem Shaped.end_le : (place + 1) * 2 ^ octave ≤ 2 ^ 64 := by
  have hLast := hShaped.bucket_for h.maxValue
  have hLe := Nat.div_mul_le_self h.maxValue (2 ^ h.bucketFor h.maxValue)
  rw [hShaped.size, hShaped.indexFor_eq] at hIndex
  rcases Nat.lt_or_eq_of_le (Nat.le_of_lt_succ hIndex) with hLess | hSame
  · exact (hBucket.le_of_number hLast hLess).trans (hLe.trans hShaped.range.le)
  · obtain rfl : octave = h.bucketFor h.maxValue := by
      rw [hBucket.octave_eq, hSame, ← hLast.octave_eq]
    rw [Nat.add_left_cancel hSame] at hBucket ⊢
    exact hBucket.end_le (hLe.trans_lt hShaped.range)

theorem Shaped.octave_lt : octave < 64 := by
  rcases Nat.eq_zero_or_pos octave with rfl | hPos
  · decide
  have hPlace := (Nat.two_pow_pos _).trans_le (hBucket.above hPos)
  have hDouble := Nat.mul_le_mul_right (2 ^ octave) (Nat.succ_le_succ hPlace)
  have hPow : 2 ^ (octave + 1) ≤ 2 ^ 64 := by
    rw [pow_succ, Nat.mul_comm]
    exact hDouble.trans (hShaped.end_le hBucket hIndex)
  exact (Nat.pow_le_pow_iff_right Nat.one_lt_two).mp hPow

/-- What the two bounds of a bucket compute, whatever wraps on the way. -/
theorem Shaped.bounds :
    h.lowestValueAt (octave * 2 ^ h.halfBits + place) = place * 2 ^ octave ∧
      h.highestValueAt (octave * 2 ^ h.halfBits + place) + 1 =
        (place + 1) * 2 ^ octave := by
  have hFits := hShaped.end_le hBucket hIndex
  have hWidth := Nat.not_le.mpr (hShaped.octave_lt hBucket hIndex)
  have hAt := hShaped.bucketAt_eq hBucket
  have hBelow := hBucket.below
  generalize hEq : octave * 2 ^ h.halfBits + place = index at *
  unfold highestValueAt lowestValueAt
  rw [hShaped.half] at *
  rcases Nat.eq_zero_or_pos octave with rfl | hPos
  · rw [if_pos (by omega), if_pos (by omega)]
    omega
  have hAbove := hBucket.above hPos
  have hLow := Nat.mul_le_mul_right (2 ^ h.halfBits) hPos
  have hBeyond : ¬ index < 2 * 2 ^ h.halfBits := by
    omega
  have hSub : index % 2 ^ h.halfBits + 2 ^ h.halfBits = place := by
    rw [← hEq, Nat.mul_add_mod', Nat.mod_eq_sub_mod hAbove, Nat.mod_eq_of_lt (by omega)]
    omega
  have hEnd : (place + 1) * 2 ^ octave = place * 2 ^ octave + 2 ^ octave := Nat.succ_mul _ _
  have hWord := Nat.two_pow_pos octave
  simp only [if_neg hBeyond, hAt (Nat.not_lt.mp hBeyond), hSub, if_neg hWidth, hEnd,
    Nat.shiftLeft_eq, Nat.one_mul, Word64.wrap, Word64.add, Word64.sub, Word64.modulus] at *
  omega

end Shape

/-- Every value of the range has a bucket, which holds it; the buckets follow one another
without a gap, in the order of their values, each no wider than its least value warrants.
No exponent reaches the width of what is shifted by it. -/
structure Partitioned (h : Histogram) : Prop where
  holds : ∀ value ≤ h.maxValue, h.indexFor value < h.counts.length ∧
    h.lowestValueAt (h.indexFor value) ≤ value ∧ value ≤ h.highestValueAt (h.indexFor value)
  adjoining : ∀ index, index + 1 < h.counts.length →
    h.highestValueAt index + 1 = h.lowestValueAt (index + 1)
  monotone : Monotone h.indexFor
  narrow : ∀ index < h.counts.length, h.lowestValueAt index < h.highestValueAt index →
    h.highestValueAt index - h.lowestValueAt index <
      h.lowestValueAt index / 2 ^ (h.significantBits - 1)
  bits : h.significantBits < 64
  exponents : ∀ value ≤ h.maxValue, h.bucketFor value < 64
  shifts : ∀ index < h.counts.length, 2 * h.subBucketHalfCount ≤ index → h.bucketAt index < 64

theorem buckets_partition (maxValue : UInt64) (significantBits : UInt32) :
    (create maxValue significantBits).Partitioned := by
  have hShaped := shaped_create maxValue significantBits
  generalize create maxValue significantBits = h at hShaped ⊢
  have hMono := hShaped.indexFor_mono
  have hInside : ∀ value ≤ h.maxValue, h.indexFor value < h.counts.length := by
    intro value hValue
    rw [hShaped.size]
    exact Nat.lt_succ_of_le (hMono hValue)
  refine ⟨fun value hValue => ⟨hInside value hValue, ?_⟩, fun index hNext => ?_, hMono,
    fun index hIndex hWide => ?_, ?_, fun value hValue => ?_, fun index hIndex hAbove => ?_⟩
  · have hIndex := hInside value hValue
    have hDiv := Nat.div_mul_le_self value (2 ^ h.bucketFor value)
    rw [hShaped.indexFor_eq] at hIndex ⊢
    obtain ⟨hLowest, hHighest⟩ := hShaped.bounds (hShaped.bucket_for value) hIndex
    have hWithin := lt_end value (h.bucketFor value)
    omega
  · obtain ⟨octave, place, hBucket, rfl⟩ := exists_bucket h.halfBits index
    obtain ⟨octave', place', hBucket', hEq, hSame⟩ := hBucket.next
    rw [(hShaped.bounds hBucket (Nat.lt_of_succ_lt hNext)).2, hSame]
    rw [hEq] at hNext ⊢
    exact (hShaped.bounds hBucket' hNext).1.symm
  · obtain ⟨octave, place, hBucket, rfl⟩ := exists_bucket h.halfBits index
    obtain ⟨hLowest, hHighest⟩ := hShaped.bounds hBucket hIndex
    rw [Nat.succ_mul] at hHighest
    have hPos : 0 < octave := by
      rw [Nat.pos_iff_ne_zero]
      rintro rfl
      omega
    have hLow : 2 ^ octave ≤ place * 2 ^ octave / 2 ^ (h.significantBits - 1) := by
      rw [Nat.le_div_iff_mul_le (Nat.two_pow_pos _), Nat.mul_comm]
      exact Nat.mul_le_mul_right _ (hBucket.above hPos)
    rw [hLowest]
    omega
  · exact hShaped.bits.2.trans_lt (by decide)
  · have hIndex := hInside value hValue
    rw [hShaped.indexFor_eq] at hIndex
    exact hShaped.octave_lt (hShaped.bucket_for value) hIndex
  · obtain ⟨octave, place, hBucket, rfl⟩ := exists_bucket h.halfBits index
    rw [hShaped.bucketAt_eq hBucket hAbove]
    exact hShaped.octave_lt hBucket hIndex

/-! ## Merging -/

/-- Histograms with the same buckets, which alone may be merged. -/
structure SameShape (other : Histogram) : Prop where
  bits : other.significantBits = h.significantBits
  range : other.maxValue = h.maxValue

variable {h} {other : Histogram} {value : Nat}

theorem SameShape.indexFor (hSame : h.SameShape other) : other.indexFor = h.indexFor := by
  unfold Histogram.indexFor bucketFor subBucketHalfCount subBucketMask subBucketCount
  rw [hSame.bits]

theorem SameShape.symm (hSame : h.SameShape other) : other.SameShape h :=
  ⟨hSame.bits.symm, hSame.range.symm⟩

theorem SameShape.record (hSame : h.SameShape other) (value : Nat) :
    h.SameShape (other.record value) := by
  unfold Histogram.record
  split <;> exact ⟨hSame.bits, hSame.range⟩

theorem SameShape.recordAll (hSame : h.SameShape other) (samples : List Nat) :
    h.SameShape (other.recordAll samples) :=
  List.foldlRecOn samples _ hSame fun _ hSame value _ => hSame.record value

theorem zipWith_modify (xs ys : List Nat) (i : Nat) :
    List.zipWith (· + ·) xs (ys.modify i (· + 1)) =
        (List.zipWith (· + ·) xs ys).modify i (· + 1) ∧
      List.zipWith (· + ·) (xs.modify i (· + 1)) ys =
        (List.zipWith (· + ·) xs ys).modify i (· + 1) := by
  constructor <;>
    refine List.ext_getElem (by simp) fun index _ _ => ?_ <;>
    simp only [List.getElem_modify, List.getElem_zipWith] <;>
    split <;> omega

/-- A sample of the merged histogram counts as one recorded after merging: whichever of the
two is empty, and whether or not the sample is in range. -/
theorem merge_record (hSame : h.SameShape other) :
    h.merge (other.record value) = (h.merge other).record value := by
  have hRange : (h.merge other).maxValue = other.maxValue := hSame.range.symm
  have hIndex : (h.merge other).indexFor value = other.indexFor value := by
    rw [hSame.indexFor]
    rfl
  unfold record
  rw [hRange, hIndex]
  split
  · dsimp only [merge]
    congr 1
    split_ifs <;> omega
  · dsimp only [merge]
    congr 1
    · exact (zipWith_modify _ _ _).1
    · unfold Word64.add Word64.modulus
      omega
    · split_ifs <;> omega
    · split_ifs <;> omega

theorem record_merge : (h.record value).merge other = (h.merge other).record value := by
  have hRange : (h.merge other).maxValue = h.maxValue := rfl
  have hIndex : (h.merge other).indexFor value = h.indexFor value := rfl
  unfold record
  rw [hRange, hIndex]
  split
  · dsimp only [merge]
    congr 1
    · split_ifs <;> omega
    · omega
  · dsimp only [merge]
    congr 1
    · exact (zipWith_modify _ _ _).2
    · omega
    · unfold Word64.add Word64.modulus
      omega
    · split_ifs <;> omega
    · split_ifs <;> omega

/-- Samples may be recorded before merging or after, on either side. -/
theorem merge_recordAll (hSame : h.SameShape other) (samples : List Nat) :
    h.merge (other.recordAll samples) = (h.merge other).recordAll samples ∧
      (h.recordAll samples).merge other = (h.merge other).recordAll samples := by
  unfold recordAll
  induction samples generalizing h other with
  | nil => exact ⟨rfl, rfl⟩
  | cons value samples ih =>
    simp only [List.foldl_cons]
    rw [(ih (hSame.record value)).1, (ih (hSame.symm.record value).symm).2,
      merge_record hSame, record_merge]
    exact ⟨rfl, rfl⟩

theorem merge_create (maxValue : UInt64) (significantBits : UInt32) :
    (create maxValue significantBits).merge (create maxValue significantBits) =
      create maxValue significantBits := by
  simp [merge, create, Word64.add]

/-- Recording two sequences of samples apart and merging gives the histogram of both, on
whichever side. -/
theorem merge_eq_recordAll (maxValue : UInt64) (significantBits : UInt32) (xs ys : List Nat) :
    ((create maxValue significantBits).recordAll xs).merge
        ((create maxValue significantBits).recordAll ys) =
      (create maxValue significantBits).recordAll (xs ++ ys) ∧
    ((create maxValue significantBits).recordAll ys).merge
        ((create maxValue significantBits).recordAll xs) =
      (create maxValue significantBits).recordAll (xs ++ ys) := by
  have hEmpty := merge_create maxValue significantBits
  generalize create maxValue significantBits = h at hEmpty ⊢
  have hSame : h.SameShape h := ⟨rfl, rfl⟩
  have hAll : (h.recordAll xs).recordAll ys = h.recordAll (xs ++ ys) := List.foldl_append.symm
  constructor
  · rw [(merge_recordAll (hSame.recordAll xs).symm ys).1, (merge_recordAll hSame xs).2,
      hEmpty, hAll]
  · rw [(merge_recordAll (hSame.recordAll xs) ys).2, (merge_recordAll hSame xs).1, hEmpty, hAll]

end Histogram
end ExchangeCore
