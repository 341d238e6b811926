import Mathlib.Data.Nat.Log
import Mathlib.Tactic.Ring

/-!
# Log-linear buckets

Natural numbers in buckets of equal relative width: below `2 ^ (bits + 1)` every value has
its own bucket, and each further octave is cut into `2 ^ bits` of them.  The bucket of an
octave and a place has the number `octave * 2 ^ bits + place` and the values from
`place * 2 ^ octave` to the next place's; numbers and values come in the same order
(`Bucket.lt_of_number`).
-/

namespace ExchangeCore.LogLinear

/-- The linear part has all places, an octave above it the upper half of them. -/
structure Bucket (bits octave place : Nat) : Prop where
  below : place < 2 * 2 ^ bits
  above : 0 < octave → 2 ^ bits ≤ place

/-- How often a value is halved before it is below `2 ^ (bits + 1)`. -/
def octaveOf (bits value : Nat) : Nat := Nat.log2 (value ||| (2 ^ (bits + 1) - 1)) - bits

variable {bits octave place octave' place' : Nat}

theorem bucket_octaveOf (value : Nat) :
    Bucket bits (octaveOf bits value) (value / 2 ^ octaveOf bits value) := by
  have hLog : Nat.log2 (value ||| (2 ^ (bits + 1) - 1)) ≤ bits + octaveOf bits value := by
    unfold octaveOf
    omega
  constructor
  · rw [Nat.div_lt_iff_lt_mul (Nat.two_pow_pos _)]
    calc
      value ≤ value ||| (2 ^ (bits + 1) - 1) := Nat.left_le_or
      _ < 2 ^ (Nat.log2 (value ||| (2 ^ (bits + 1) - 1)) + 1) := Nat.lt_log2_self
      _ ≤ 2 ^ (bits + octaveOf bits value + 1) := Nat.pow_le_pow_right Nat.two_pos (by omega)
      _ = 2 * 2 ^ bits * 2 ^ octaveOf bits value := by ring
  · intro hPos
    have hEq : bits + octaveOf bits value = Nat.log2 (value ||| (2 ^ (bits + 1) - 1)) := by
      unfold octaveOf at *
      omega
    rw [Nat.le_div_iff_mul_le (Nat.two_pow_pos _), ← pow_add, hEq]
    by_contra hLt
    -- The leading bit is above the bits filled in, so it is the value's own.
    have hMask : 2 ^ (bits + 1) - 1 < 2 ^ Nat.log2 (value ||| (2 ^ (bits + 1) - 1)) :=
      (Nat.sub_lt (Nat.two_pow_pos _) Nat.one_pos).trans_le
        (Nat.pow_le_pow_right Nat.two_pos (by omega))
    have hLess := Nat.or_lt_two_pow (Nat.not_le.mp hLt) hMask
    rw [← Nat.log2_lt (by rintro h; simp [octaveOf, h] at hPos)] at hLess
    exact lt_irrefl _ hLess

theorem lt_end (value octave : Nat) : value < (value / 2 ^ octave + 1) * 2 ^ octave := by
  rw [Nat.succ_mul]
  exact Nat.lt_div_mul_add (Nat.two_pow_pos _)

/-- Every number is some bucket's. -/
theorem exists_bucket (bits index : Nat) :
    ∃ octave place, Bucket bits octave place ∧ index = octave * 2 ^ bits + place := by
  have hMod := Nat.mod_lt index (Nat.two_pow_pos bits)
  have hDiv := Nat.div_add_mod' index (2 ^ bits)
  rcases hQuotient : index / 2 ^ bits with _ | octave
  · rw [hQuotient] at hDiv
    exact ⟨0, index, ⟨by omega, fun h => absurd h (Nat.lt_irrefl 0)⟩, by omega⟩
  · rw [hQuotient, Nat.succ_mul] at hDiv
    exact ⟨octave, index % 2 ^ bits + 2 ^ bits, ⟨by omega, fun _ => by omega⟩, by omega⟩

variable (hBucket : Bucket bits octave place)
include hBucket

theorem Bucket.octave_eq : octave = (octave * 2 ^ bits + place) / 2 ^ bits - 1 := by
  rw [Nat.mul_comm, Nat.mul_add_div (Nat.two_pow_pos _)]
  have hBelow := (Nat.div_lt_iff_lt_mul (Nat.two_pow_pos bits)).mpr hBucket.below
  have hAbove := fun hPos => (Nat.one_le_div_iff (Nat.two_pow_pos bits)).mpr (hBucket.above hPos)
  omega

/-- The bucket after one: the next place, or the first place of the next octave. -/
theorem Bucket.next : ∃ octave' place', Bucket bits octave' place' ∧
    octave * 2 ^ bits + place + 1 = octave' * 2 ^ bits + place' ∧
      (place + 1) * 2 ^ octave = place' * 2 ^ octave' := by
  by_cases hLast : place + 1 = 2 * 2 ^ bits
  · refine ⟨octave + 1, 2 ^ bits, ⟨by omega, fun _ => le_rfl⟩, by rw [Nat.succ_mul]; omega, ?_⟩
    rw [hLast]
    ring
  · have hBelow := hBucket.below
    exact ⟨octave, place + 1, ⟨by omega, fun hPos => (hBucket.above hPos).trans (by omega)⟩,
      rfl, rfl⟩

/-- A bucket of a lower number ends before one of a higher number begins. -/
theorem Bucket.le_of_number (hBucket' : Bucket bits octave' place')
    (hLt : octave * 2 ^ bits + place < octave' * 2 ^ bits + place') :
    (place + 1) * 2 ^ octave ≤ place' * 2 ^ octave' := by
  have hBelow := hBucket.below
  have hBelow' := hBucket'.below
  rcases Nat.lt_trichotomy octave octave' with hLess | rfl | hMore
  · calc
      (place + 1) * 2 ^ octave ≤ 2 * 2 ^ bits * 2 ^ octave := Nat.mul_le_mul_right _ hBelow
      _ = 2 ^ bits * 2 ^ (octave + 1) := by ring
      _ ≤ place' * 2 ^ octave' := Nat.mul_le_mul (hBucket'.above (by omega))
          (Nat.pow_le_pow_right Nat.two_pos hLess)
  · exact Nat.mul_le_mul_right _ (by omega)
  · have hAbove := hBucket.above (by omega)
    have := Nat.mul_le_mul_right (2 ^ bits) hMore
    rw [Nat.succ_mul] at this
    omega

/-- A bucket that begins within so many bits ends within them. -/
theorem Bucket.end_le {width : Nat} (hFits : place * 2 ^ octave < 2 ^ width) :
    (place + 1) * 2 ^ octave ≤ 2 ^ width := by
  have hOctave : octave ≤ width := by
    rcases Nat.eq_zero_or_pos octave with rfl | hPos
    · exact Nat.zero_le _
    have hPlace := (Nat.two_pow_pos bits).trans_le (hBucket.above hPos)
    have hPow := (Nat.le_mul_of_pos_left _ hPlace).trans_lt hFits
    exact ((Nat.pow_lt_pow_iff_right Nat.one_lt_two).mp hPow).le
  rw [← Nat.sub_add_cancel hOctave, pow_add] at hFits ⊢
  exact Nat.mul_le_mul_right _ (Nat.lt_of_mul_lt_mul_right hFits)

end ExchangeCore.LogLinear
