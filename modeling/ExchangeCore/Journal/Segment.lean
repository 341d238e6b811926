import Mathlib.Data.List.Sort
import Mathlib.Data.Nat.Digits.Defs

/-!
# Segment files

A journal is a directory of numbered segment files.  The names are those of
`JournalWriter::segment_name` and `parse_segment_name`: eight decimal digits
between a fixed beginning and a fixed end, and nothing else counts as a segment.
-/

namespace ExchangeCore

open List

def kSegmentPrefix : List Char := "segment-".toList

def kSegmentSuffix : List Char := ".xcj".toList

def kSegmentDigits : Nat := 8

def kSegmentNameLength : Nat := kSegmentPrefix.length + kSegmentDigits + kSegmentSuffix.length

/-- Largest index the name format can represent. -/
def kMaxSegmentIndex : Nat := 99999999

/-- A number in decimal, padded with zeros to eight digits. -/
def padded (index : Nat) : List Char := (Nat.toDigits 10 index).leftpad kSegmentDigits '0'

/-- The file name for an index, or nothing if it does not fit the format. -/
def segmentName (index : Nat) : List Char :=
  let name := kSegmentPrefix ++ padded index ++ kSegmentSuffix
  if name.length ≠ kSegmentNameLength then [] else name

/-- The number that decimal digits stand for, if they all are digits. -/
def fromChars (digits : List Char) : Option Nat :=
  if digits.all Char.isDigit then
    some (digits.foldl (fun value digit => 10 * value + (digit.toNat - '0'.toNat)) 0)
  else none

def parseSegmentName (name : List Char) : Option Nat :=
  if name.length ≠ kSegmentNameLength then none
  else if !kSegmentPrefix.isPrefixOf name || !kSegmentSuffix.isSuffixOf name then none
  else fromChars ((name.drop kSegmentPrefix.length).take kSegmentDigits)

/-- A file of the journal directory.  It may fail to open. -/
structure File where
  name : List Char
  contents : List UInt8
  readable : Bool := true
  deriving DecidableEq

/-- What a path may lead to: nothing, or a directory of files in no particular
order. -/
structure JournalDirectory where
  path : List Char
  isDirectory : Bool := true
  files : List File := []
  deriving DecidableEq

namespace JournalDirectory

variable (directory : JournalDirectory)

/-- The path of one of the directory's files. -/
def pathOf (name : List Char) : List Char :=
  directory.path ++ '/' :: name

/-- The segment files, each with its index, by index. -/
def found : List (Nat × File) :=
  (directory.files.filterMap fun file =>
    (parseSegmentName file.name).map fun index => (index, file)).insertionSort fun a b => a.1 ≤ b.1

/-- `JournalReader::segments`: the segment files in write order. -/
def segments : List File := directory.found.map Prod.snd

end JournalDirectory

/-! ## Names parse back -/

section Names

variable {index : Nat}

theorem length_padded (hIndex : index ≤ kMaxSegmentIndex) :
    (padded index).length = kSegmentDigits := by
  have hDigits : (Nat.toDigits 10 index).length ≤ kSegmentDigits :=
    (Nat.length_toDigits_le_iff (by decide) (by decide)).mpr (Nat.lt_of_le_of_lt hIndex (by decide))
  rw [padded, length_leftpad, Nat.max_eq_left hDigits]

theorem segmentName_eq (hIndex : index ≤ kMaxSegmentIndex) :
    segmentName index = kSegmentPrefix ++ padded index ++ kSegmentSuffix := by
  unfold segmentName
  dsimp only
  rw [if_neg]
  rw [length_append, length_append, length_padded hIndex]
  exact not_not.mpr rfl

/-- Leading zeros do not count. -/
theorem fromChars_padded (index : Nat) : fromChars (padded index) = some index := by
  have hZeros : ∀ (count : Nat) (digits : List Char),
      Nat.ofDigitChars 10 (List.replicate count '0' ++ digits) 0 =
        Nat.ofDigitChars 10 digits 0 := by
    intro count digits
    induction count with
    | zero => rfl
    | succ count ih => exact ih
  have hAll : (padded index).all Char.isDigit = true := by
    rw [all_eq_true]
    intro digit hDigit
    rcases mem_append.mp hDigit with hZero | hDigit
    · rw [eq_of_mem_replicate hZero]
      decide
    · exact Nat.isDigit_of_mem_toDigits (by decide) (by decide) hDigit
  rw [fromChars, if_pos hAll]
  exact congrArg some ((hZeros _ _).trans (Nat.ofDigitChars_toDigits (by decide) (by decide)))

theorem parseSegmentName_segmentName (hIndex : index ≤ kMaxSegmentIndex) :
    parseSegmentName (segmentName index) = some index := by
  have hLength := length_padded hIndex
  have hPrefix : kSegmentPrefix.isPrefixOf (segmentName index) = true := by
    rw [segmentName_eq hIndex, isPrefixOf_iff_prefix, append_assoc]
    exact prefix_append _ _
  have hSuffix : kSegmentSuffix.isSuffixOf (segmentName index) = true := by
    rw [segmentName_eq hIndex, isSuffixOf_iff_suffix]
    exact suffix_append _ _
  have hDigits : ((segmentName index).drop kSegmentPrefix.length).take kSegmentDigits =
      padded index := by
    rw [segmentName_eq hIndex, append_assoc, drop_left, ← hLength, take_left]
  unfold parseSegmentName
  rw [if_neg, hPrefix, hSuffix, if_neg (by decide), hDigits, fromChars_padded]
  rw [segmentName_eq hIndex, length_append, length_append, hLength]
  exact not_not.mpr rfl

theorem segmentName_injective {index' : Nat} (hIndex : index ≤ kMaxSegmentIndex)
    (hIndex' : index' ≤ kMaxSegmentIndex) (hName : segmentName index = segmentName index') :
    index = index' := by
  have hParsed := congrArg parseSegmentName hName
  rw [parseSegmentName_segmentName hIndex, parseSegmentName_segmentName hIndex'] at hParsed
  exact Option.some.inj hParsed

end Names

/-! ## Names are exact -/

section Exact

/-- What `fromChars` makes of digits that follow others. -/
abbrev digitsValue (value : Nat) (digits : List Char) : Nat :=
  digits.foldl (fun value digit => 10 * value + (digit.toNat - '0'.toNat)) value

variable {a b : List Char} (hLength : a.length = b.length)
include hLength

/-- What comes first decides. -/
theorem digitsValue_lt (ha : a.all Char.isDigit = true) {m n : Nat} (hLess : m < n) :
    digitsValue m a < digitsValue n b := by
  induction a generalizing b m n with
  | nil =>
    rw [length_eq_zero_iff.mp hLength.symm]
    exact hLess
  | cons x a ih =>
    obtain ⟨y, b, rfl⟩ := exists_cons_of_length_eq_add_one hLength.symm
    rw [all_cons, Bool.and_eq_true] at ha
    have hDigit : 48 ≤ x.toNat ∧ x.toNat ≤ 57 := Char.isDigit_iff_toNat.mp ha.1
    refine ih (Nat.succ.inj hLength) ha.2 ?_
    show 10 * m + (x.toNat - 48) < 10 * n + (y.toNat - 48)
    omega

theorem digitsValue_lt_of_lt (ha : a.all Char.isDigit = true) (hLess : a < b) (n : Nat) :
    digitsValue n a < digitsValue n b := by
  induction a generalizing b n with
  | nil =>
    rw [length_eq_zero_iff.mp hLength.symm] at hLess
    cases hLess
  | cons x a ih =>
    obtain ⟨y, b, rfl⟩ := exists_cons_of_length_eq_add_one hLength.symm
    rw [all_cons, Bool.and_eq_true] at ha
    have hDigit : 48 ≤ x.toNat ∧ x.toNat ≤ 57 := Char.isDigit_iff_toNat.mp ha.1
    rcases cons_lt_cons_iff.mp hLess with hFirst | ⟨rfl, hRest⟩
    · have hNat : x.toNat < y.toNat := hFirst
      refine digitsValue_lt (Nat.succ.inj hLength) ha.2 ?_
      show 10 * n + (x.toNat - 48) < 10 * n + (y.toNat - 48)
      omega
    · exact ih (Nat.succ.inj hLength) ha.2 hRest _

theorem append_lt_append (hLess : a < b) (s t : List Char) : a ++ s < b ++ t := by
  induction a generalizing b with
  | nil =>
    rw [length_eq_zero_iff.mp hLength.symm] at hLess
    cases hLess
  | cons x a ih =>
    obtain ⟨y, b, rfl⟩ := exists_cons_of_length_eq_add_one hLength.symm
    rw [cons_append, cons_append, cons_lt_cons_iff]
    rcases cons_lt_cons_iff.mp hLess with hFirst | ⟨rfl, hRest⟩
    · exact Or.inl hFirst
    · exact Or.inr ⟨rfl, ih (Nat.succ.inj hLength) hRest⟩

omit hLength in
theorem fromChars_eq_some_iff {index : Nat} :
    fromChars a = some index ↔ a.all Char.isDigit = true ∧ digitsValue 0 a = index := by
  unfold fromChars
  split
  · next hDigits => exact Option.some_inj.trans (and_iff_right hDigits).symm
  · next hDigits => simp [hDigits]

/-- Digits are determined by their number and their value. -/
theorem eq_of_fromChars {index : Nat} (ha : fromChars a = some index)
    (hb : fromChars b = some index) : a = b := by
  obtain ⟨haDigits, haValue⟩ := fromChars_eq_some_iff.mp ha
  obtain ⟨hbDigits, hbValue⟩ := fromChars_eq_some_iff.mp hb
  have hSame := haValue.trans hbValue.symm
  have hNotLess : ¬ a < b := fun hLess =>
    (digitsValue_lt_of_lt hLength haDigits hLess 0).ne hSame
  have hNotMore : ¬ b < a := fun hLess =>
    (digitsValue_lt_of_lt hLength.symm hbDigits hLess 0).ne hSame.symm
  exact List.le_antisymm hNotMore hNotLess

end Exact

/-- Only the name of an index is parsed as that index. -/
theorem eq_of_parseSegmentName {name : List Char} {index : Nat}
    (hParsed : parseSegmentName name = some index) : name = segmentName index := by
  unfold parseSegmentName at hParsed
  split at hParsed
  · cases hParsed
  next hLength =>
  split at hParsed
  · cases hParsed
  next hEnds =>
  rw [not_not] at hLength
  simp only [Bool.or_eq_true, Bool.not_eq_true', not_or, Bool.not_eq_false] at hEnds
  obtain ⟨front, rfl⟩ := isSuffixOf_iff_suffix.mp hEnds.2
  rw [length_append] at hLength
  have hFront : front.length = kSegmentPrefix.length + kSegmentDigits :=
    Nat.add_right_cancel hLength
  obtain ⟨digits, rfl⟩ := prefix_of_prefix_length_le
    (List.isPrefixOf_iff_prefix.mp hEnds.1) (prefix_append front _) (by rw [hFront]; decide)
  rw [length_append] at hFront
  have hDigits : digits.length = kSegmentDigits := Nat.add_left_cancel hFront
  rw [append_assoc, drop_left, ← hDigits, take_left] at hParsed
  -- eight digits stay below the next power of ten
  obtain ⟨hAll, hValue⟩ := fromChars_eq_some_iff.mp hParsed
  have hBound : digitsValue 0 digits < digitsValue 1 (List.replicate kSegmentDigits '0') :=
    digitsValue_lt (hDigits.trans length_replicate.symm) hAll Nat.zero_lt_one
  rw [hValue] at hBound
  have hIndex : index ≤ kMaxSegmentIndex := Nat.le_of_lt_succ hBound
  rw [segmentName_eq hIndex, eq_of_fromChars (hDigits.trans (length_padded hIndex).symm) hParsed
    (fromChars_padded index)]

theorem segmentName_eq_nil {index : Nat} (hIndex : kMaxSegmentIndex < index) :
    segmentName index = [] := by
  have hDigits : ¬ (Nat.toDigits 10 index).length ≤ kSegmentDigits := by
    rw [Nat.length_toDigits_le_iff (by decide) (by decide)]
    exact Nat.not_lt.mpr hIndex
  unfold segmentName
  dsimp only
  rw [if_pos]
  intro hLength
  rw [length_append, length_append, padded, length_leftpad] at hLength
  have hPadded := Nat.add_left_cancel (Nat.add_right_cancel hLength)
  omega

theorem segmentName_lt {i j : Nat} (hj : j ≤ kMaxSegmentIndex) (hLess : i < j) :
    segmentName i < segmentName j := by
  have hi : i ≤ kMaxSegmentIndex := hLess.le.trans hj
  have hLength : (padded i).length = (padded j).length :=
    (length_padded hi).trans (length_padded hj).symm
  obtain ⟨hDigits, hValue⟩ := fromChars_eq_some_iff.mp (fromChars_padded i)
  obtain ⟨hDigits', hValue'⟩ := fromChars_eq_some_iff.mp (fromChars_padded j)
  have hPadded : padded i < padded j := by
    by_contra hNot
    by_cases hMore : padded j < padded i
    · have hBack := digitsValue_lt_of_lt hLength.symm hDigits' hMore 0
      omega
    · rw [List.le_antisymm hMore hNot] at hValue
      omega
  rw [segmentName_eq hi, segmentName_eq hj, List.append_assoc, List.append_assoc]
  exact List.append_left_lt (append_lt_append hLength hPadded _ _)

/-- Every index that fits is read back from its name; nothing but that name is read as the
index; a larger index has no name; and names are ordered as their indices are. -/
theorem segmentName_exact :
    (∀ index ≤ kMaxSegmentIndex, parseSegmentName (segmentName index) = some index) ∧
      (∀ name index, parseSegmentName name = some index → name = segmentName index) ∧
      (∀ index, kMaxSegmentIndex < index → index < 2 ^ 32 → segmentName index = []) ∧
      ∀ i ≤ kMaxSegmentIndex, ∀ j ≤ kMaxSegmentIndex, segmentName i < segmentName j ↔ i < j := by
  refine ⟨fun index hIndex => parseSegmentName_segmentName hIndex,
    fun name index hParsed => eq_of_parseSegmentName hParsed,
    fun index hIndex _ => segmentName_eq_nil hIndex, fun i hi j hj => ⟨fun hNames => ?_, ?_⟩⟩
  · by_contra hNot
    rcases Nat.lt_or_eq_of_le (Nat.le_of_not_lt hNot) with hLess | rfl
    · exact List.lt_asymm hNames (segmentName_lt hi hLess)
    · exact List.lt_irrefl _ hNames
  · exact segmentName_lt hj

example : parseSegmentName (segmentName 37) = some 37 ∧
    parseSegmentName "segment-00000003.xcj.bak".toList = none := by
  decide +kernel

end ExchangeCore
