import Mathlib.Tactic.NormNum

/-!
# Sixty-four-bit words as residues

Unsigned 64-bit arithmetic wraps modulo `2 ^ 64`.  A counter that is only ever
added to and subtracted from stays congruent to the unbounded total it stands
for, whatever wrapped on the way; it equals that total exactly when the total
fits the word.  The lemmas below are stated in that form: every operation on
the word of a total is the word of the operation on the total.
-/

namespace ExchangeCore

/-- The range of a signed 64-bit number. -/
def SignedWord (x : Int) : Prop := -(2 ^ 63) ≤ x ∧ x < 2 ^ 63

instance (x : Int) : Decidable (SignedWord x) := inferInstanceAs (Decidable (_ ∧ _))

variable (x y : Int)

namespace Word64

/-- Number of values of a 64-bit word. -/
def modulus : Nat := 2 ^ 64

/-- The word holding an unbounded total. -/
def wrap (n : Nat) : Nat := n % modulus

/-- Wrapping addition. -/
def add (a b : Nat) : Nat := (a + b) % modulus

/-- Wrapping subtraction. -/
def sub (a b : Nat) : Nat := (a + (modulus - b % modulus)) % modulus

/-- The signed value a 64-bit word stands for in two's complement. -/
def toSigned (x : Int) : Int := Int.bmod x modulus

/-- The unsigned word a signed number is cast to. -/
def ofSigned (x : Int) : Nat := (x % modulus).toNat

/-- A signed result, unless it overflows. -/
def fits (x : Int) : Option Int := if SignedWord x then some x else none

/-- The divisions of signed words that are not defined. -/
def Undivided (x y : Int) : Prop := y = 0 ∨ x = -(2 ^ 63) ∧ y = -1

instance : Decidable (Undivided x y) := inferInstanceAs (Decidable (_ ∨ _))

def quot (x y : Int) : Option Int := if Undivided x y then none else some (x.tdiv y)

def rem (x y : Int) : Option Int := if Undivided x y then none else some (x.tmod y)

variable {x} {a b : Nat}

theorem not_undivided {y : Int} (hPos : 0 < y) : ¬ Undivided x y := by
  unfold Undivided
  omega

theorem fits_of (hLow : 0 ≤ x) (hHigh : x < 2 ^ 63) : fits x = some x :=
  if_pos ⟨by omega, hHigh⟩

theorem ofSigned_of (hLow : 0 ≤ x) (hHigh : x < 2 ^ 63) : ofSigned x = x.toNat := by
  unfold ofSigned modulus
  omega

theorem modulus_pos : 0 < modulus := by decide

theorem add_lt (a b : Nat) : add a b < modulus := Nat.mod_lt _ modulus_pos

theorem wrap_of_lt {n : Nat} (h : n < modulus) : wrap n = n := Nat.mod_eq_of_lt h

theorem wrap_le (n : Nat) : wrap n ≤ n := Nat.mod_le _ _

@[simp] theorem wrap_zero : wrap 0 = 0 := rfl

theorem add_le (a b : Nat) : add a b ≤ a + b := Nat.mod_le _ _

theorem sub_of_le (hLe : b ≤ a) (hLt : a < modulus) : sub a b = a - b := by
  have hWord : b % modulus = b := Nat.mod_eq_of_lt (hLe.trans_lt hLt)
  rw [sub, hWord, show a + (modulus - b) = a - b + modulus by omega, Nat.add_mod_right]
  exact Nat.mod_eq_of_lt ((Nat.sub_le a b).trans_lt hLt)

theorem add_of_lt (h : a + b < modulus) : add a b = a + b := Nat.mod_eq_of_lt h

/-- Adding to the word of a total gives the word of the larger total. -/
theorem add_wrap (n a : Nat) : add (wrap n) a = wrap (n + a) := by
  simp [add, wrap, Nat.mod_add_mod]

/-- Subtracting from the word of a total gives the word of the smaller total,
even when the larger total did not fit. -/
theorem sub_wrap_add (n a : Nat) : sub (wrap (n + a)) a = wrap n := by
  have hle : a % modulus ≤ modulus := (Nat.mod_lt _ modulus_pos).le
  have hsplit : n + a + (modulus - a % modulus) = n + modulus * (a / modulus + 1) := by
    have hdiv := Nat.div_add_mod a modulus
    rw [Nat.mul_add]
    omega
  unfold sub wrap
  rw [Nat.mod_add_mod, hsplit, Nat.add_mul_mod_self_left]

/-! ## Signed readings -/

/-- A word in the signed range reads as itself. -/
theorem toSigned_of_range (hLow : -(2 ^ 63) ≤ x) (hHigh : x < 2 ^ 63) : toSigned x = x := by
  apply Int.bmod_eq_of_le
  · simp only [modulus]
    omega
  · simp only [modulus]
    omega

/-- A word and the signed number it stands for determine each other. -/
theorem toSigned_eq_iff {word : Nat} (hWord : word < modulus) :
    toSigned word = x ↔ SignedWord x ∧ word = (x % modulus).toNat := by
  have hModulus : ((modulus : Nat) : Int) = 18446744073709551616 := rfl
  have hNatModulus : modulus = 18446744073709551616 := rfl
  have hMod : (word : Int) % (modulus : Nat) = word := by
    rw [hModulus]
    omega
  unfold toSigned SignedWord
  rw [Int.bmod_def, hMod, hModulus]
  by_cases hHalf : (word : Int) < (18446744073709551616 + 1) / 2
  · rw [if_pos hHalf]
    omega
  · rw [if_neg hHalf]
    omega

theorem toSigned_add_toSigned : toSigned (x + toSigned y) = toSigned (x + y) :=
  Int.add_bmod_bmod

theorem toSigned_sub_toSigned : toSigned (x - toSigned y) = toSigned (x - y) :=
  Int.sub_bmod_bmod

theorem toSigned_toSigned_add : toSigned (toSigned x + y) = toSigned (x + y) :=
  Int.bmod_add_bmod

theorem toSigned_toSigned_sub : toSigned (toSigned x - y) = toSigned (x - y) :=
  Int.bmod_sub_bmod

/-- Wrapping first makes no difference to the signed reading. -/
theorem toSigned_add_word (a b : Nat) : toSigned (add a b : Nat) = toSigned (a + b : Int) := by
  unfold toSigned add
  rw [Int.natCast_emod, Int.natCast_add]
  exact Int.emod_bmod _ _

/-- How many turns of a word a number is away from the signed words. -/
def turns (x : Int) : Int := (x + 2 ^ 63) / 2 ^ 64

end Word64
end ExchangeCore
