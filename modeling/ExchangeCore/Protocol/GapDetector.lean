import Mathlib.Order.Interval.Finset.Nat
import ExchangeCore.Lib.Machine
import ExchangeCore.Lib.Word64

/-!
# The gap detector

The sequence tracking of `include/xc/protocol/gap_detector.hpp`: a subscriber's
expectation of the next number of a feed and four counters.  A number that is the
expected one or beyond it is accepted and moves the expectation behind it; one
below it has been passed already and is dropped.

Whatever the network does, the numbers accepted so far increase, and what the
expectation has moved is the accepted numbers and the missing ones together
(`Tracked`).
-/

namespace ExchangeCore

open List

namespace Protocol

/-- What a subscriber should do about the message it just received. -/
inductive SequenceCheck
  | inOrder
  | gap
  | duplicate
  deriving DecidableEq

structure GapDetector where
  expected : Nat := 1
  inOrder : Nat := 0
  gaps : Nat := 0
  missing : Nat := 0
  duplicates : Nat := 0
  deriving DecidableEq

namespace GapDetector

variable (detector : GapDetector)

def observe (sequence : Nat) : GapDetector × SequenceCheck :=
  if sequence = detector.expected then
    ({ detector with
        expected := Word64.add detector.expected 1
        inOrder := Word64.add detector.inOrder 1 }, .inOrder)
  else if sequence < detector.expected then
    ({ detector with duplicates := Word64.add detector.duplicates 1 }, .duplicate)
  else
    -- The expectation jumps past the gap rather than waiting for what will never arrive.
    ({ detector with
        missing := Word64.add detector.missing (Word64.sub sequence detector.expected)
        gaps := Word64.add detector.gaps 1
        expected := Word64.add sequence 1 }, .gap)

/-- Restart from a snapshot that reflects everything up to `sequence`. -/
def resynchronise (sequence : Nat) : GapDetector :=
  { detector with expected := Word64.add sequence 1 }

/-- A detector that has observed the numbers. -/
def observeAll (sequences : List Nat) : GapDetector :=
  Machine.run (fun detector sequence => (detector.observe sequence).1) detector sequences

/-- The numbers answered in order or as a gap, which the subscriber applies. -/
def accepted (detector : GapDetector) : List Nat → List Nat
  | [] => []
  | sequence :: sequences =>
    if (detector.observe sequence).2 = .duplicate then
      (detector.observe sequence).1.accepted sequences
    else sequence :: (detector.observe sequence).1.accepted sequences

@[simp] theorem observeAll_cons (sequence : Nat) (sequences : List Nat) :
    detector.observeAll (sequence :: sequences) =
      (detector.observe sequence).1.observeAll sequences := rfl

theorem observeAll_append (sequences later : List Nat) :
    detector.observeAll (sequences ++ later) =
      (detector.observeAll sequences).observeAll later :=
  foldl_append

/-- Where a detector that began at `first` and has accepted `applied` stands. -/
structure Tracked (first : Nat) (applied : List Nat) (detector : GapDetector) : Prop where
  bounded : detector.expected < Word64.modulus
  balance : first + detector.inOrder + detector.gaps + detector.missing = detector.expected
  increasing : applied.Pairwise (· < ·)
  range : ∀ sequence ∈ applied, first ≤ sequence ∧ sequence < detector.expected
  count : applied.length = detector.inOrder + detector.gaps

theorem tracked_start (first : Nat) (hFirst : first < Word64.modulus) :
    Tracked first [] { expected := first } where
  bounded := hFirst
  balance := rfl
  increasing := List.Pairwise.nil
  range := fun _ hMem => absurd hMem not_mem_nil
  count := rfl

section Step

variable {first : Nat} {applied : List Nat} {detector} {sequence : Nat}

/-- A number below the expectation is dropped. -/
theorem observe_of_lt (hLt : sequence < detector.expected) :
    detector.observe sequence =
      ({ detector with duplicates := Word64.add detector.duplicates 1 }, .duplicate) := by
  rw [observe, if_neg hLt.ne, if_pos hLt]

/-- Any other is accepted, and the expectation follows it. -/
theorem observe_of_le (hLe : detector.expected ≤ sequence)
    (hBound : sequence < Word64.modulus - 1) :
    (detector.observe sequence).2 ≠ .duplicate ∧
      (detector.observe sequence).1.expected = sequence + 1 := by
  have hNext : Word64.add sequence 1 = sequence + 1 := Word64.add_of_lt (by omega)
  unfold observe
  split
  · next hEq =>
      rw [← hEq]
      exact ⟨nofun, hNext⟩
  · rw [if_neg (by omega)]
    exact ⟨nofun, hNext⟩

/-- An accepted number leaves the account in balance. -/
theorem Tracked.accept (hTracked : Tracked first applied detector)
    (hLe : detector.expected ≤ sequence) (hBound : sequence < Word64.modulus - 1) :
    Tracked first (applied ++ [sequence]) (detector.observe sequence).1 := by
  obtain ⟨hBounded, hBalance, hIncreasing, hRange, hCount⟩ := hTracked
  have hExpected := (observe_of_le hLe hBound).2
  have hModulus := Word64.modulus_pos
  -- No counter wraps: together with `first` they add up to less than a word.
  have hCounters : (detector.observe sequence).1.inOrder + (detector.observe sequence).1.gaps =
        detector.inOrder + detector.gaps + 1 ∧
      (detector.observe sequence).1.missing =
        detector.missing + (sequence - detector.expected) := by
    unfold observe
    split
    · have hInOrder : Word64.add detector.inOrder 1 = detector.inOrder + 1 :=
        Word64.add_of_lt (by omega)
      dsimp only
      omega
    have hGaps : Word64.add detector.gaps 1 = detector.gaps + 1 := Word64.add_of_lt (by omega)
    have hJump : Word64.sub sequence detector.expected = sequence - detector.expected :=
      Word64.sub_of_le hLe (by omega)
    have hMissing : Word64.add detector.missing (sequence - detector.expected) =
        detector.missing + (sequence - detector.expected) := Word64.add_of_lt (by omega)
    rw [if_neg (by omega)]
    dsimp only
    rw [hJump, hMissing]
    omega
  refine ⟨by omega, by omega, ?_, ?_, ?_⟩
  · rw [pairwise_append]
    refine ⟨hIncreasing, pairwise_singleton _ _, fun earlier hEarlier later hLater => ?_⟩
    rw [mem_singleton.mp hLater]
    exact (hRange earlier hEarlier).2.trans_le hLe
  · intro number hNumber
    rcases mem_append.mp hNumber with hOld | hNew
    · have hOldRange := hRange number hOld
      omega
    · rw [mem_singleton.mp hNew]
      omega
  · rw [length_append, length_singleton]
    omega

theorem Tracked.drop (hTracked : Tracked first applied detector)
    (hLt : sequence < detector.expected) :
    Tracked first applied (detector.observe sequence).1 := by
  rw [observe_of_lt hLt]
  exact ⟨hTracked.bounded, hTracked.balance, hTracked.increasing, hTracked.range, hTracked.count⟩

end Step

section Run

variable {first : Nat} {applied sequences : List Nat} {detector}

/-- Loss, duplication and reordering leave the account in balance. -/
theorem Tracked.run (hTracked : Tracked first applied detector)
    (hBound : ∀ sequence ∈ sequences, sequence < Word64.modulus - 1) :
    Tracked first (applied ++ detector.accepted sequences) (detector.observeAll sequences) := by
  induction sequences generalizing applied detector with
  | nil =>
    rw [accepted, append_nil]
    exact hTracked
  | cons sequence sequences ih =>
    have hRest : ∀ number ∈ sequences, number < Word64.modulus - 1 :=
      fun number hNumber => hBound number (mem_cons_of_mem _ hNumber)
    rw [observeAll_cons, accepted]
    rcases Nat.lt_or_ge sequence detector.expected with hLt | hLe
    · rw [if_pos (by rw [observe_of_lt hLt])]
      exact ih (hTracked.drop hLt) hRest
    have hFirst := hBound sequence mem_cons_self
    rw [if_neg (observe_of_le hLe hFirst).1, append_cons]
    exact ih (hTracked.accept hLe hFirst) hRest

/-- What is missing is exactly what the expectation has passed and was never
accepted. -/
theorem Tracked.missing_eq (hTracked : Tracked first applied detector) :
    detector.missing =
      ((Finset.Ico first detector.expected).filter (· ∉ applied)).card := by
  obtain ⟨-, hBalance, hIncreasing, hRange, hCount⟩ := hTracked
  have hNodup : applied.Nodup := hIncreasing.imp fun hLt => hLt.ne
  have hSubset : applied.toFinset ⊆ Finset.Ico first detector.expected := by
    intro number hNumber
    exact Finset.mem_Ico.mpr (hRange number (mem_toFinset.mp hNumber))
  have hSplit : (Finset.Ico first detector.expected).filter (· ∉ applied) =
      Finset.Ico first detector.expected \ applied.toFinset := by
    ext number
    rw [Finset.mem_filter, Finset.mem_sdiff, mem_toFinset]
  rw [hSplit, Finset.card_sdiff_of_subset hSubset, Nat.card_Ico, toFinset_card_of_nodup hNodup]
  omega

/-- A feed that arrives in order is accepted whole, and the expectation does not pass
what is still to come. -/
theorem accepted_of_increasing (detector : GapDetector) (hIncreasing : sequences.Pairwise (· < ·))
    (hLe : ∀ sequence ∈ sequences, detector.expected ≤ sequence)
    (hBound : ∀ sequence ∈ sequences, sequence < Word64.modulus - 1) :
    detector.accepted sequences = sequences ∧
      ∀ limit, detector.expected ≤ limit → (∀ sequence ∈ sequences, sequence < limit) →
        (detector.observeAll sequences).expected ≤ limit := by
  induction sequences generalizing detector with
  | nil => exact ⟨rfl, fun limit hLimit _ => hLimit⟩
  | cons sequence sequences ih =>
    obtain ⟨hAhead, hRest⟩ := pairwise_cons.mp hIncreasing
    obtain ⟨hAccepted, hExpected⟩ := observe_of_le (hLe sequence mem_cons_self)
      (hBound sequence mem_cons_self)
    obtain ⟨hWhole, hReached⟩ := ih (detector.observe sequence).1 hRest (fun number hNumber => by
        rw [hExpected]
        exact hAhead number hNumber)
      (fun number hNumber => hBound number (mem_cons_of_mem _ hNumber))
    refine ⟨?_, fun limit _ hBelow => ?_⟩
    · rw [accepted, if_neg hAccepted, hWhole]
    · rw [observeAll_cons]
      refine hReached limit ?_ fun number hNumber => hBelow number (mem_cons_of_mem _ hNumber)
      rw [hExpected]
      exact hBelow sequence mem_cons_self

/-- After an increasing stretch that ends in `last`, the numbers missing are those
before `last` that did not come. -/
theorem missing_of_increasing (first : Nat) {last : Nat} {kept : List Nat}
    (hIncreasing : (kept ++ [last]).Pairwise (· < ·))
    (hFirst : ∀ number ∈ kept ++ [last], first ≤ number) (hLast : last < Word64.modulus - 1) :
    (({ expected := first } : GapDetector).observeAll (kept ++ [last])).missing =
      last - first - kept.length := by
  obtain ⟨hKept, -, hBelow⟩ := pairwise_append.mp hIncreasing
  have hLess : ∀ number ∈ kept, number < last :=
    fun number hNumber => hBelow number hNumber last (mem_singleton.mpr rfl)
  have hBound : ∀ number ∈ kept ++ [last], number < Word64.modulus - 1 := by
    intro number hNumber
    rcases mem_append.mp hNumber with hOld | hNew
    · exact (hLess number hOld).trans hLast
    · rw [mem_singleton.mp hNew]
      exact hLast
  have hStart := hFirst last (mem_append_right _ (mem_singleton.mpr rfl))
  obtain ⟨-, hReached⟩ := accepted_of_increasing { expected := first } hKept
    (fun number hNumber => hFirst number (mem_append_left _ hNumber))
    (fun number hNumber => hBound number (mem_append_left _ hNumber))
  have hExpected : (({ expected := first } : GapDetector).observeAll (kept ++ [last])).expected =
      last + 1 := by
    rw [observeAll_append]
    exact (observe_of_le (hReached last hStart hLess) hLast).2
  have hTracked := (tracked_start first (by omega)).run hBound
  have hWhole := (accepted_of_increasing { expected := first } hIncreasing hFirst hBound).1
  rw [hWhole, nil_append] at hTracked
  have hBalance := hTracked.balance
  have hCount := hTracked.count
  rw [length_append, length_singleton] at hCount
  omega

end Run

end GapDetector
end Protocol
end ExchangeCore
