import Mathlib.Tactic.Ring
import ExchangeCore.Lib.LinkedList

/-!
# Bitmaps with summary words

A set of indices is kept as a list of 64-bit words.  A summary bitmap has one
bit per word of the bitmap below it, set exactly when that word is not zero.
Searching for the first member in either direction then looks at one word per
layer: the first bit of a summary word names a word below, whose first bit
names the member.

`Finds d P r` says that `r` is the first index satisfying `P` in direction `d`,
or nothing.  The search rules are `isFirst_pick`, for one word, `Finds.descend`,
which carries a first word to the first member inside it, and `finds_after`
with `finds_after_word`, for the next member after a given one.
-/

namespace ExchangeCore

open List

namespace SummaryBitmap

/-- Index `i` comes before index `j`: upwards when `descending` is false,
downwards when it is true. -/
def Before (descending : Bool) (i j : Nat) : Prop :=
  if descending then j < i else i < j

instance (descending : Bool) (i j : Nat) : Decidable (Before descending i j) := by
  unfold Before
  infer_instance

@[simp] theorem before_true (i j : Nat) : Before true i j ↔ j < i := by simp [Before]

@[simp] theorem before_false (i j : Nat) : Before false i j ↔ i < j := by simp [Before]

variable {d : Bool} {i j k b w size : Nat} {P Q : Nat → Prop} {r : Option Nat}
  {words upper lower : List Word} {members : List Nat}

theorem Before.irrefl : ¬ Before d i i := by
  cases d <;> simp

theorem Before.trans (hij : Before d i j) (hjk : Before d j k) : Before d i k := by
  cases d <;> simp at * <;> omega

/-- Indices compare by their word first and by their bit inside it second. -/
theorem before_iff_word (d : Bool) (i j : Nat) :
    Before d i j ↔ Before d (i / 64) (j / 64) ∨
      (i / 64 = j / 64 ∧ Before d (i % 64) (j % 64)) := by
  cases d <;> simp <;> omega

/-- `j` is the first index with property `P`. -/
def IsFirst (d : Bool) (P : Nat → Prop) (j : Nat) : Prop :=
  P j ∧ ∀ k, P k → k = j ∨ Before d j k

theorem IsFirst.congr (hFirst : IsFirst d P j) (hIff : ∀ k, P k ↔ Q k) : IsFirst d Q j :=
  ⟨(hIff j).mp hFirst.1, fun k hk => hFirst.2 k ((hIff k).mpr hk)⟩

theorem IsFirst.unique (hi : IsFirst d P i) (hj : IsFirst d P j) : i = j := by
  rcases hi.2 j hj.1 with h | h
  · exact h.symm
  rcases hj.2 i hi.1 with h' | h'
  · exact h'
  · exact absurd (h.trans h') Before.irrefl

/-- What a search returns: the first index with property `P`, or nothing when no
index has it. -/
def Finds (d : Bool) (P : Nat → Prop) : Option Nat → Prop
  | none => ∀ k, ¬ P k
  | some j => IsFirst d P j

theorem Finds.congr (hFinds : Finds d P r) (hIff : ∀ k, P k ↔ Q k) : Finds d Q r := by
  cases r with
  | none => exact fun k hk => hFinds k ((hIff k).mpr hk)
  | some j => exact IsFirst.congr hFinds hIff

/-! ## One word -/

abbrev Word := BitVec 64

/-- Index of the least significant set bit. -/
def lowest (word : Word) : Nat := word.ctz.toNat

/-- Index of the most significant set bit. -/
def highest (word : Word) : Nat := 63 - word.clz.toNat

/-- Bits strictly above a position. -/
def above (bit : Nat) : Word := if 63 ≤ bit then 0 else BitVec.allOnes 64 <<< (bit + 1)

/-- Bits strictly below a position. -/
def below (bit : Nat) : Word := if bit = 0 then 0 else BitVec.twoPow 64 bit - 1

/-- First bit of a word in traversal order. -/
def pick (descending : Bool) (word : Word) : Nat :=
  if descending then highest word else lowest word

/-- Bits after a position in traversal order. -/
def after (descending : Bool) (bit : Nat) : Word :=
  if descending then below bit else above bit

theorem getLsbD_above (hk : k < 64) : (above b).getLsbD k = decide (b < k) := by
  unfold above
  split
  · next h => simp; omega
  next h =>
  rw [BitVec.getLsbD_shiftLeft, BitVec.getLsbD_allOnes]
  by_cases hbk : b < k
  · have h1 : ¬ k < b + 1 := by omega
    have h2 : k - (b + 1) < 64 := by omega
    simp [hk, h1, h2, hbk]
  · have h1 : k < b + 1 := by omega
    simp [h1, hbk]

theorem getLsbD_below (hb : b < 64) : (below b).getLsbD k = decide (k < b) := by
  unfold below
  split
  · next h => simp [h]
  have hPow : BitVec.twoPow 64 b - 1 = BitVec.ofNat 64 (2 ^ b - 1) := by
    have hOne : (1 : Nat) ≤ 2 ^ b := Nat.one_le_two_pow
    have hTwoPow : BitVec.twoPow 64 b = BitVec.ofNat 64 (2 ^ b) := by
      apply BitVec.eq_of_toNat_eq
      simp [BitVec.toNat_twoPow]
    rw [hTwoPow, ← BitVec.ofNat_sub_ofNat_of_le _ _ (by norm_num) hOne]
    rfl
  rw [hPow, BitVec.getLsbD_ofNat, Nat.testBit_two_pow_sub_one]
  by_cases hkb : k < b
  · have : k < 64 := by omega
    simp [hkb, this]
  · simp [hkb]

theorem getLsbD_after (hb : b < 64) (hk : k < 64) :
    (after d b).getLsbD k = decide (Before d b k) := by
  cases d
  · simp [after, getLsbD_above hk]
  · simp [after, getLsbD_below hb]

/-- The masked word holds the members after a position. -/
theorem getLsbD_and_after (hb : b < 64) (word : Word) :
    (word &&& after d b).getLsbD k = true ↔
      word.getLsbD k = true ∧ Before d b k := by
  rw [BitVec.getLsbD_and, Bool.and_eq_true]
  constructor
  · rintro ⟨hWord, hAfter⟩
    have hk : k < 64 := BitVec.lt_of_getLsbD hWord
    rw [getLsbD_after hb hk] at hAfter
    exact ⟨hWord, of_decide_eq_true hAfter⟩
  · rintro ⟨hWord, hBefore⟩
    have hk : k < 64 := BitVec.lt_of_getLsbD hWord
    rw [getLsbD_after hb hk]
    exact ⟨hWord, decide_eq_true hBefore⟩

theorem pick_lt {word : Word} (hWord : word ≠ 0) : pick d word < 64 := by
  cases d
  · exact BitVec.lt_of_getLsbD (BitVec.getLsbD_true_ctz_of_ne_zero hWord)
  · simp [pick, highest]
    omega

/-- The picked bit of a nonzero word is its first member. -/
theorem isFirst_pick {word : Word} (hWord : word ≠ 0) :
    IsFirst d (fun k => word.getLsbD k = true) (pick d word) := by
  cases d with
  | false =>
    refine ⟨BitVec.getLsbD_true_ctz_of_ne_zero hWord, fun k hk => ?_⟩
    by_contra hNot
    simp only [pick, lowest, before_false, not_or, Bool.false_eq_true, if_false] at hNot
    have hLt : k < word.ctz.toNat := by omega
    have hClear := BitVec.getLsbD_false_of_lt_ctz hLt
    exact absurd hk (by simp [hClear])
  | true =>
    refine ⟨BitVec.getLsbD_true_clz_of_ne_zero (by decide) hWord, fun k hk => ?_⟩
    by_contra hNot
    simp only [pick, highest, before_true, not_or, if_true] at hNot
    have hk64 : k < 64 := BitVec.lt_of_getLsbD hk
    have hBound : word.toNat < 2 ^ (64 - word.clz.toNat) := BitVec.toNat_lt_two_pow_sub_clz
    have hGe : 2 ^ k ≤ word.toNat := Nat.ge_two_pow_of_testBit hk
    have hPow : 2 ^ (64 - word.clz.toNat) ≤ 2 ^ k :=
      Nat.pow_le_pow_right (by decide) (by omega)
    omega

theorem exists_bit_of_ne_zero {word : Word} (hWord : word ≠ 0) :
    ∃ k, k < 64 ∧ word.getLsbD k = true :=
  ⟨pick false word, pick_lt hWord, (isFirst_pick hWord).1⟩

theorem ne_zero_of_bit {word : Word} (hk : word.getLsbD k = true) : word ≠ 0 := by
  rintro rfl
  simp at hk

/-! ## A list of words -/

/-- The word at a position; words past the end are empty. -/
def word (words : List Word) (w : Nat) : Word := words[w]?.getD 0

section

variable (words) (i : Nat)

/-- Membership of an index. -/
def bit : Bool := (word words (i / 64)).getLsbD (i % 64)

/-- Insert an index. -/
def setBit : List Word :=
  words.modify (i / 64) fun word => word ||| BitVec.twoPow 64 (i % 64)

/-- Remove an index. -/
def clearBit : List Word :=
  words.modify (i / 64) fun word => word &&& ~~~ BitVec.twoPow 64 (i % 64)

@[simp] theorem length_setBit : (setBit words i).length = words.length := by simp [setBit]

@[simp] theorem length_clearBit : (clearBit words i).length = words.length := by simp [clearBit]

end

theorem word_modify (hw : w < words.length) (f : Word → Word) (v : Nat) :
    word (words.modify w f) v = if v = w then f (word words w) else word words v := by
  unfold word
  rw [List.getElem?_modify]
  by_cases hv : v = w
  · subst hv
    simp [List.getElem?_eq_getElem hw]
  · simp [hv, Ne.symm hv]

theorem eq_iff_word (i j : Nat) : j = i ↔ j / 64 = i / 64 ∧ j % 64 = i % 64 := by omega

theorem bit_setBit (hi : i / 64 < words.length) (j : Nat) :
    bit (setBit words i) j = (decide (j = i) || bit words j) := by
  have hMod : j % 64 < 64 := Nat.mod_lt _ (by decide)
  unfold bit setBit
  simp only [word_modify hi, eq_iff_word i j]
  by_cases hw : j / 64 = i / 64
  · simp [hw, hMod, Bool.or_comm]
  · simp [hw]

theorem bit_clearBit (hi : i / 64 < words.length) (j : Nat) :
    bit (clearBit words i) j = (decide (j ≠ i) && bit words j) := by
  have hMod : j % 64 < 64 := Nat.mod_lt _ (by decide)
  unfold bit clearBit
  simp only [word_modify hi, ne_eq, eq_iff_word i j]
  by_cases hw : j / 64 = i / 64
  · simp [hw, hMod, Bool.and_comm]
  · simp [hw]

theorem word_ne_zero_iff (words : List Word) (w : Nat) :
    word words w ≠ 0 ↔ ∃ i, i / 64 = w ∧ bit words i = true := by
  constructor
  · intro hWord
    obtain ⟨k, hk, hBit⟩ := exists_bit_of_ne_zero hWord
    refine ⟨w * 64 + k, by omega, ?_⟩
    have h1 : (w * 64 + k) / 64 = w := by omega
    have h2 : (w * 64 + k) % 64 = k := by omega
    rw [bit, h1, h2]
    exact hBit
  · rintro ⟨i, rfl, hBit⟩
    exact ne_zero_of_bit hBit

/-- `upper` has one bit per word of `lower`, set when the word is not empty. -/
def Summarises (upper lower : List Word) : Prop :=
  ∀ w, bit upper w = true ↔ word lower w ≠ 0

section

variable (hSum : Summarises upper lower) (hLower : i / 64 < lower.length)
include hSum hLower

/-- Setting a member and its summary bit keeps the summary. -/
theorem Summarises.setBit (hUpper : i / 64 / 64 < upper.length) :
    Summarises (setBit upper (i / 64)) (setBit lower i) := by
  intro w
  rw [bit_setBit hUpper, word_ne_zero_iff, Bool.or_eq_true, decide_eq_true_eq, hSum w,
    word_ne_zero_iff]
  constructor
  · rintro (rfl | ⟨k, rfl, hk⟩)
    · exact ⟨i, rfl, by simp [bit_setBit hLower]⟩
    · exact ⟨k, rfl, by simp [bit_setBit hLower, hk]⟩
  · rintro ⟨k, rfl, hk⟩
    rw [bit_setBit hLower, Bool.or_eq_true, decide_eq_true_eq] at hk
    rcases hk with rfl | hk
    · exact Or.inl rfl
    · exact Or.inr ⟨k, rfl, hk⟩

/-- While the word a member leaves still has members, its summary bit stays. -/
theorem Summarises.keep (hLeft : word (clearBit lower i) (i / 64) ≠ 0) :
    Summarises upper (clearBit lower i) := by
  intro w
  rw [hSum w]
  by_cases hw : w = i / 64
  · subst hw
    refine ⟨fun _ => hLeft, fun _ => ?_⟩
    obtain ⟨k, hkWord, hk⟩ := (word_ne_zero_iff _ _).mp hLeft
    rw [bit_clearBit hLower, Bool.and_eq_true] at hk
    exact (word_ne_zero_iff _ _).mpr ⟨k, hkWord, hk.2⟩
  · rw [clearBit, word_modify hLower, if_neg hw]

/-- When the word empties, its summary bit is cleared with it. -/
theorem Summarises.clearBit
    (hUpper : i / 64 / 64 < upper.length) (hLeft : word (clearBit lower i) (i / 64) = 0) :
    Summarises (clearBit upper (i / 64)) (clearBit lower i) := by
  intro w
  rw [bit_clearBit hUpper, Bool.and_eq_true, decide_eq_true_eq, hSum w]
  by_cases hw : w = i / 64
  · subst hw
    simp [hLeft]
  have hWord : word (SummaryBitmap.clearBit lower i) w = word lower w := by
    rw [SummaryBitmap.clearBit, word_modify hLower, if_neg hw]
  simp [hw, hWord]

end

/-- From the first nonempty word to the first member: the members considered
are those whose word satisfies `Q`. -/
theorem IsFirst.descend (hFirst : IsFirst d (fun v => word words v ≠ 0 ∧ Q v) w) :
    IsFirst d (fun i => bit words i = true ∧ Q (i / 64)) (w * 64 + pick d (word words w)) := by
  obtain ⟨⟨hWord, hQ⟩, hLeast⟩ := hFirst
  have hPick := isFirst_pick (d := d) hWord
  have hLt : pick d (word words w) < 64 := pick_lt hWord
  have hDiv : (w * 64 + pick d (word words w)) / 64 = w := by omega
  have hMod : (w * 64 + pick d (word words w)) % 64 = pick d (word words w) := by omega
  refine ⟨⟨by rw [bit, hDiv, hMod]; exact hPick.1, by rw [hDiv]; exact hQ⟩, ?_⟩
  rintro i ⟨hBit, hQi⟩
  rw [before_iff_word, hDiv, hMod]
  rcases hLeast (i / 64) ⟨ne_zero_of_bit hBit, hQi⟩ with hEq | hBefore
  · rcases hPick.2 (i % 64) (by rw [← hEq]; exact hBit) with hSame | hLater
    · left
      omega
    · exact Or.inr (Or.inr ⟨hEq.symm, hLater⟩)
  · exact Or.inr (Or.inl hBefore)

/-- Carry a search over words to a search over members. -/
theorem Finds.descend (hFinds : Finds d (fun v => word words v ≠ 0 ∧ Q v) r) :
    Finds d (fun i => bit words i = true ∧ Q (i / 64))
      (r.map fun w => w * 64 + pick d (word words w)) := by
  cases r with
  | none => exact fun i hi => hFinds (i / 64) ⟨ne_zero_of_bit hi.1, hi.2⟩
  | some w => exact IsFirst.descend hFinds

/-- A later member stands in a later word or among the rest of the current one. -/
theorem before_iff_rest (hk : bit words k = true) :
    Before d i k ↔ Before d (i / 64) (k / 64) ∨ i / 64 = k / 64 ∧
      (word words (i / 64) &&& after d (i % 64)).getLsbD (k % 64) = true := by
  rw [before_iff_word, getLsbD_and_after (Nat.mod_lt _ (by decide))]
  refine or_congr_right (and_congr_right fun hSame => ?_)
  rw [hSame]
  exact (and_iff_right hk).symm

/-- The rest of the current word has a member: its first bit is the next
one. -/
theorem finds_after (hRest : word words (i / 64) &&& after d (i % 64) ≠ 0) :
    Finds d (fun k => bit words k = true ∧ Before d i k)
      (some (i / 64 * 64 + pick d (word words (i / 64) &&& after d (i % 64)))) := by
  have hPick := isFirst_pick (d := d) hRest
  have hLt := pick_lt (d := d) hRest
  set p := pick d (word words (i / 64) &&& after d (i % 64)) with hp
  obtain ⟨hBit, -⟩ := (getLsbD_and_after (Nat.mod_lt _ (by decide)) _).mp hPick.1
  have hDiv : (i / 64 * 64 + p) / 64 = i / 64 := by omega
  have hModP : (i / 64 * 64 + p) % 64 = p := by omega
  have hMember : bit words (i / 64 * 64 + p) = true := by rw [bit, hDiv, hModP]; exact hBit
  refine ⟨⟨hMember, ?_⟩, fun k ⟨hk, hkBefore⟩ => ?_⟩
  · rw [before_iff_rest hMember, hDiv, hModP]
    exact Or.inr ⟨rfl, hPick.1⟩
  · rw [before_iff_word d (i / 64 * 64 + p) k, hDiv, hModP]
    rcases (before_iff_rest hk).mp hkBefore with hLater | ⟨hSame, hkAfter⟩
    · exact Or.inr (Or.inl hLater)
    rcases hPick.2 (k % 64) hkAfter with h | h
    · left
      omega
    · exact Or.inr (Or.inr ⟨hSame, h⟩)

/-- The rest of the current word is empty: the next member is the first one of
the next word in use. -/
theorem finds_after_word (hRest : word words (i / 64) &&& after d (i % 64) = 0)
    (hFinds : Finds d (fun v => word words v ≠ 0 ∧ Before d (i / 64) v) r) :
    Finds d (fun k => bit words k = true ∧ Before d i k)
      (r.map fun w => w * 64 + pick d (word words w)) := by
  refine hFinds.descend.congr fun k => and_congr_right fun hk => ?_
  rw [before_iff_rest hk, hRest]
  simp

/-! ## Scanning a run of words -/

/-- The candidate positions a scan visits, in traversal order. -/
def scanAll (descending : Bool) (size : Nat) : List Nat :=
  if descending then (List.range size).reverse else List.range size

/-- The candidate positions after `w`, in traversal order. -/
def scanAfter (descending : Bool) (size w : Nat) : List Nat :=
  if descending then (List.range w).reverse else List.range' (w + 1) (size - (w + 1))

theorem pairwise_scanAll (d : Bool) (size : Nat) : (scanAll d size).Pairwise (Before d) := by
  cases d with
  | false => exact pairwise_lt_range.imp fun h => (before_false _ _).mpr h
  | true =>
    refine pairwise_reverse.mpr (pairwise_lt_range.imp fun h => ?_)
    exact (before_true _ _).mpr h

theorem pairwise_scanAfter (d : Bool) (size w : Nat) :
    (scanAfter d size w).Pairwise (Before d) := by
  cases d with
  | false => exact (pairwise_lt_range' 1).imp fun h => (before_false _ _).mpr h
  | true =>
    refine pairwise_reverse.mpr (pairwise_lt_range.imp fun h => ?_)
    exact (before_true _ _).mpr h

theorem mem_scanAll : w ∈ scanAll d size ↔ w < size := by
  cases d <;> simp [scanAll]

theorem mem_scanAfter {v : Nat} (hw : w < size) :
    v ∈ scanAfter d size w ↔ v < size ∧ Before d w v := by
  cases d
  · simp [scanAfter]
    omega
  · simp [scanAfter]
    omega

/-- A candidate splits the scan into those before it and those after it. -/
theorem scanAll_split (d : Bool) (hi : i < size) :
    ∃ before later, scanAll d size = before ++ i :: later ∧
      (∀ j ∈ before, Before d j i) ∧ ∀ j ∈ later, Before d i j := by
  obtain ⟨before, later, hSplit⟩ := append_of_mem (mem_scanAll (d := d).mpr hi)
  have hSorted := pairwise_scanAll d size
  rw [hSplit, pairwise_append, pairwise_cons] at hSorted
  exact ⟨before, later, hSplit, fun j hj => hSorted.2.2 j hj i (by simp), hSorted.2.1.1⟩

/-- A scan in traversal order finds the first candidate that qualifies. -/
theorem finds_find? {candidates : List Nat} (p : Nat → Bool)
    (hSorted : candidates.Pairwise (Before d)) :
    Finds d (fun v => p v = true ∧ v ∈ candidates) (candidates.find? p) := by
  induction candidates with
  | nil => simp [Finds]
  | cons c rest ih =>
    rw [pairwise_cons] at hSorted
    rw [List.find?_cons]
    cases hc : p c with
    | true =>
      refine ⟨⟨hc, by simp⟩, ?_⟩
      rintro v ⟨-, hMem⟩
      rcases mem_cons.mp hMem with rfl | hMem
      · exact Or.inl rfl
      · exact Or.inr (hSorted.1 v hMem)
    | false =>
      refine (ih hSorted.2).congr fun v => ?_
      rw [mem_cons]
      refine and_congr_right fun hv => ⟨Or.inr, fun hMem => hMem.resolve_left ?_⟩
      rintro rfl
      rw [hc] at hv
      contradiction

/-- Only words inside the list are in use. -/
theorem lt_of_word_ne_zero (hWord : word words w ≠ 0) : w < words.length := by
  by_contra hGe
  exact hWord (by simp [word, List.getElem?_eq_none (not_lt.mp hGe)])

theorem finds_scanAll (d : Bool) (words : List Word) :
    Finds d (fun v => word words v ≠ 0 ∧ True)
      ((scanAll d words.length).find? fun w => decide (word words w ≠ 0)) := by
  refine (finds_find? _ (pairwise_scanAll d words.length)).congr fun v => ?_
  rw [decide_eq_true_eq, mem_scanAll]
  exact and_congr_right fun hWord => iff_true_intro (lt_of_word_ne_zero hWord)

theorem finds_scanAfter (hw : w < words.length) :
    Finds d (fun v => word words v ≠ 0 ∧ Before d w v)
      ((scanAfter d words.length w).find? fun v => decide (word words v ≠ 0)) := by
  refine (finds_find? _ (pairwise_scanAfter d words.length w)).congr fun v => ?_
  rw [decide_eq_true_eq, mem_scanAfter hw]
  exact and_congr_right fun hWord => and_iff_right (lt_of_word_ne_zero hWord)

/-- Stepping to the next member in traversal order threads the ordered list of
members. -/
theorem forward_of_finds {next : Nat → Option Nat} (hSorted : members.Pairwise (Before d))
    (hNext : ∀ i ∈ members, Finds d (fun k => k ∈ members ∧ Before d i k) (next i)) :
    LinkedList.Forward next members := by
  intro l i r hSplit
  have hFinds := hNext i (by simp [hSplit])
  rw [hSplit, pairwise_append, pairwise_cons] at hSorted
  obtain ⟨-, ⟨hAfter, hRight⟩, hLeft⟩ := hSorted
  -- Nothing at or before `i` is after it.
  have hOnly : ∀ k, k ∈ members ∧ Before d i k → k ∈ r := by
    intro k ⟨hk, hBefore⟩
    rw [hSplit] at hk
    rcases mem_append.mp hk with hk | hk
    · exact absurd ((hLeft k hk i (by simp)).trans hBefore) Before.irrefl
    rcases mem_cons.mp hk with rfl | hk
    · exact absurd hBefore Before.irrefl
    · exact hk
  cases hCase : next i with
  | none =>
    rw [hCase] at hFinds
    cases r with
    | nil => rfl
    | cons c r => exact absurd ⟨by simp [hSplit], hAfter c (by simp)⟩ (hFinds c)
  | some j =>
    rw [hCase] at hFinds
    cases r with
    | nil => exact absurd (hOnly j hFinds.1) (by simp)
    | cons c r =>
      rw [pairwise_cons] at hRight
      have hFirst : IsFirst d (fun k => k ∈ members ∧ Before d i k) c := by
        refine ⟨⟨by simp [hSplit], hAfter c (by simp)⟩, fun k hk => ?_⟩
        rcases mem_cons.mp (hOnly k hk) with rfl | hMem
        · exact Or.inl rfl
        · exact Or.inr (hRight.1 k hMem)
      rw [hFirst.unique hFinds, List.head?_cons]

/-- The first member in traversal order heads the ordered list of members. -/
theorem head?_of_finds
    (hSorted : members.Pairwise (Before d)) (hFinds : Finds d (fun k => k ∈ members) r) :
    members.head? = r := by
  cases members with
  | nil =>
    cases r with
    | none => rfl
    | some j => exact absurd hFinds.1 (by simp)
  | cons c rest =>
    rw [pairwise_cons] at hSorted
    have hFirst : IsFirst d (fun k => k ∈ c :: rest) c := by
      refine ⟨by simp, fun k hk => ?_⟩
      rcases mem_cons.mp hk with rfl | hk
      · exact Or.inl rfl
      · exact Or.inr (hSorted.1 k hk)
    cases r with
    | none => exact absurd hFirst.1 (hFinds c)
    | some j => rw [hFirst.unique hFinds, List.head?_cons]

/-! ## Words that are all empty -/

@[simp] theorem word_replicate_zero (size w : Nat) : word (List.replicate size 0#64) w = 0 := by
  simp only [word, List.getElem?_replicate]
  split <;> rfl

@[simp] theorem bit_replicate_zero (size i : Nat) : bit (List.replicate size 0#64) i = false := by
  simp [bit]

theorem summarises_replicate_zero (size size' : Nat) :
    Summarises (List.replicate size 0#64) (List.replicate size' 0#64) := by
  intro w
  simp

/-- Counting members below a bound after one of them joins. -/
theorem countP_range_insert {n a : Nat} {p q : Nat → Bool} (ha : a < n)
    (hOther : ∀ i, i ≠ a → q i = p i) (hp : p a = false) (hq : q a = true) :
    (List.range n).countP q = (List.range n).countP p + 1 := by
  induction n with
  | zero => omega
  | succ n ih =>
    simp only [range_succ, countP_append, countP_singleton]
    by_cases han : a = n
    · subst han
      have hSame : (List.range a).countP q = (List.range a).countP p := by
        refine countP_congr fun i hi => ?_
        rw [hOther i (by have := mem_range.mp hi; omega)]
      simp [hSame, hp, hq]
    · rw [ih (by omega), hOther n (Ne.symm han)]
      omega

end SummaryBitmap
end ExchangeCore
