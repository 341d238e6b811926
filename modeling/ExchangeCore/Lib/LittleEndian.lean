import Mathlib.Data.Nat.Bitwise
import Mathlib.Tactic.Ring

/-!
# Little-endian numbers

A number as a fixed count of bytes, the least significant one first.  `toBytes`
and `ofBytes` are inverse on numbers that fit and on lists of that length; the
shift-and-mask forms that implementations write are the same functions.
-/

namespace ExchangeCore
namespace LittleEndian

/-- The lowest `width` bytes of a number. -/
def toBytes : Nat → Nat → List UInt8
  | 0, _ => []
  | width + 1, value => UInt8.ofNat (value % 256) :: toBytes width (value / 256)

def ofBytes : List UInt8 → Nat
  | [] => 0
  | byte :: bytes => byte.toNat + 256 * ofBytes bytes

@[simp] theorem length_toBytes (width value : Nat) : (toBytes width value).length = width := by
  induction width generalizing value with
  | zero => rfl
  | succ width ih => rw [toBytes, List.length_cons, ih]

theorem ofBytes_lt (bytes : List UInt8) : ofBytes bytes < 256 ^ bytes.length := by
  induction bytes with
  | nil => exact Nat.one_pos
  | cons byte bytes ih =>
    rw [ofBytes, List.length_cons, Nat.pow_succ]
    have hByte := byte.toNat_lt
    omega

theorem ofBytes_toBytes {width value : Nat} (hLt : value < 256 ^ width) :
    ofBytes (toBytes width value) = value := by
  induction width generalizing value with
  | zero =>
    rw [Nat.pow_zero] at hLt
    simp only [toBytes, ofBytes]
    omega
  | succ width ih =>
    rw [toBytes, ofBytes, ih (Nat.div_lt_of_lt_mul (by rw [Nat.pow_succ] at hLt; omega)),
      UInt8.toNat_ofNat', Nat.mod_eq_of_lt (Nat.mod_lt value (by decide))]
    omega

theorem toBytes_ofBytes (bytes : List UInt8) : toBytes bytes.length (ofBytes bytes) = bytes := by
  induction bytes with
  | nil => rfl
  | cons byte bytes ih =>
    have hByte := byte.toNat_lt
    rw [List.length_cons, toBytes, ofBytes,
      show (byte.toNat + 256 * ofBytes bytes) % 256 = byte.toNat by omega,
      show (byte.toNat + 256 * ofBytes bytes) / 256 = ofBytes bytes by omega, ih, UInt8.ofNat_toNat]

theorem toBytes_injective {width x y : Nat} (hx : x < 256 ^ width) (hy : y < 256 ^ width)
    (hEq : toBytes width x = toBytes width y) : x = y := by
  have hValues := congrArg ofBytes hEq
  rw [ofBytes_toBytes hx, ofBytes_toBytes hy] at hValues
  exact hValues

/-! ## The forms with shifts -/

/-- Byte by byte, each shifted down and masked. -/
theorem map_shiftRight_eq_toBytes (width value : Nat) :
    ((List.range width).map fun i => UInt8.ofNat ((value >>> (8 * i)) &&& 0xFF)) =
      toBytes width value := by
  have hByte : ∀ n : Nat, n &&& 0xFF = n % 256 := fun n => Nat.and_two_pow_sub_one_eq_mod n 8
  induction width generalizing value with
  | zero => rfl
  | succ width ih =>
    rw [List.range_succ_eq_map, List.map_cons, toBytes, List.map_map, ← ih]
    congr 1
    · rw [hByte]
      rfl
    · refine List.map_congr_left fun i _ => ?_
      have hShift : value >>> (8 * (i + 1)) = (value / 256) >>> (8 * i) := by
        rw [show 8 * (i + 1) = 8 + 8 * i by ring, Nat.shiftRight_add,
          Nat.shiftRight_eq_div_pow value 8]
      show UInt8.ofNat ((value >>> (8 * (i + 1))) &&& 0xFF) = _
      rw [hShift]

/-- Byte by byte, each shifted up into a clear place. -/
theorem foldl_shiftLeft_eq_ofBytes (bytes : List UInt8) :
    (bytes.zipIdx.foldl (fun value entry => value ||| entry.1.toNat <<< (8 * entry.2)) 0) =
      ofBytes bytes := by
  have hFrom : ∀ (bytes : List UInt8) (i value : Nat), value < 256 ^ i →
      ((bytes.zipIdx i).foldl (fun value entry => value ||| entry.1.toNat <<< (8 * entry.2))
        value) = value + 256 ^ i * ofBytes bytes := by
    intro bytes
    induction bytes with
    | nil => exact fun i value _ => by simp [ofBytes]
    | cons byte bytes ih =>
      intro i value hLt
      have hPow : (256 : Nat) ^ i = 2 ^ (8 * i) := by rw [Nat.pow_mul]
      have hPlace : value ||| byte.toNat <<< (8 * i) = value + 256 ^ i * byte.toNat := by
        rw [hPow] at hLt
        rw [Nat.shiftLeft_eq, Nat.mul_comm, Nat.or_comm, ← Nat.two_pow_add_eq_or_of_lt hLt,
          hPow, Nat.add_comm]
      have hNext : value + 256 ^ i * byte.toNat < 256 ^ (i + 1) := by
        have hByte : byte.toNat + 1 ≤ 256 := byte.toNat_lt
        have hBound := Nat.mul_le_mul_left (256 ^ i) hByte
        rw [Nat.pow_succ]
        rw [Nat.mul_add, Nat.mul_one] at hBound
        omega
      rw [List.zipIdx_cons, List.foldl_cons]
      show List.foldl _ (value ||| byte.toNat <<< (8 * i)) _ = _
      rw [hPlace, ih (i + 1) _ hNext, ofBytes, Nat.pow_succ]
      ring
  rw [hFrom bytes 0 0 (by decide)]
  simp

end LittleEndian
end ExchangeCore
