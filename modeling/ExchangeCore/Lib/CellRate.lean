import Mathlib.Tactic.Linarith

/-!
# The generic cell rate algorithm

A limiter that keeps one number: the time at which the next message would arrive if
messages came exactly one `interval` apart.  A message is admitted unless it comes
more than `tolerance` before that time, and pushes it on by one interval.

Whatever the pattern of arrivals, `n` messages admitted within a window of length `w`
satisfy `(n - 1) * interval ≤ w + tolerance` (`window_bound`), and a burst that the
tolerance allows is admitted whole (`admitted_burst`).  The one number stands for the
whole history: it is the latest of the times at which the messages from some admitted one
on would be over, one interval each (`Encodes`).
-/

namespace ExchangeCore

open List

namespace CellRate

variable (interval tolerance : Int)

/-- The arrival time after a message at `now`, if it is admitted. -/
def next (arrival now : Int) : Option Int :=
  if now < arrival - tolerance then none else some (max now arrival + interval)

/-- The times of the messages that are admitted. -/
def admitted (arrival : Int) : List Int → List Int
  | [] => []
  | now :: times =>
    match next interval tolerance arrival now with
    | none => admitted arrival times
    | some arrival' => now :: admitted arrival' times

variable {interval tolerance} {arrival now : Int}

theorem next_eq_some_iff {arrival' : Int} :
    next interval tolerance arrival now = some arrival' ↔
      arrival - tolerance ≤ now ∧ arrival' = max now arrival + interval := by
  unfold next
  split
  · next hEarly => exact iff_of_false nofun fun hBoth => absurd hBoth.1 (not_le.mpr hEarly)
  · next hLate => rw [Option.some.injEq, eq_comm, and_iff_right (not_lt.mp hLate)]

theorem admitted_of_none (hNext : next interval tolerance arrival now = none) (times : List Int) :
    admitted interval tolerance arrival (now :: times) =
      admitted interval tolerance arrival times := by
  rw [admitted, hNext]

theorem admitted_of_some {arrival' : Int}
    (hNext : next interval tolerance arrival now = some arrival') (times : List Int) :
    admitted interval tolerance arrival (now :: times) =
      now :: admitted interval tolerance arrival' times := by
  rw [admitted, hNext]

variable {count : Nat}

/-- Each message admitted by `limit` has pushed the arrival time one interval on, and
the last of them came at most `tolerance` before it. -/
theorem count_bound (hInterval : 0 ≤ interval) (limit : Int) {since : Int}
    (hSince : since ≤ arrival) (times : List Int)
    (hCount : (admitted interval tolerance arrival times).countP
      (fun time => decide (time ≤ limit)) = count) :
    count = 0 ∨ since + (count - 1 : Int) * interval - tolerance ≤ limit := by
  induction times generalizing arrival since count with
  | nil => exact Or.inl hCount.symm
  | cons now times ih =>
    cases hNext : next interval tolerance arrival now with
    | none =>
      rw [admitted_of_none hNext] at hCount
      exact ih hSince hCount
    | some arrival' =>
      obtain ⟨hOnTime, hArrival⟩ := next_eq_some_iff.mp hNext
      have hPushed : since + interval ≤ arrival' := by
        have hMax := le_max_right now arrival
        omega
      rw [admitted_of_some hNext, countP_cons] at hCount
      have hRest := ih hPushed rfl
      split at hCount
      · next hCounted =>
          have hLimit : now ≤ limit := of_decide_eq_true hCounted
          refine Or.inr ?_
          rw [← hCount]
          push_cast
          rcases hRest with hNone | hBound
          · -- It is the last one, and it was on time.
            rw [hNone]
            push_cast
            linarith
          · linarith
      · rw [Nat.add_zero] at hCount
        rw [hCount] at hRest
        rcases hRest with hNone | hBound
        · exact Or.inl hNone
        · exact Or.inr (by linarith)

/-- Messages admitted within a window, whatever came before and between. -/
theorem window_bound (hInterval : 0 ≤ interval) (hTolerance : 0 ≤ tolerance) (start : Int)
    {length : Int} (hLength : 0 ≤ length) (times : List Int)
    (hCount : (admitted interval tolerance arrival times).countP
      (fun time => decide (start ≤ time ∧ time ≤ start + length)) = count) :
    (count - 1 : Int) * interval ≤ length + tolerance := by
  induction times generalizing arrival count with
  | nil =>
    rw [← hCount, admitted, countP_nil]
    push_cast
    linarith
  | cons now times ih =>
    cases hNext : next interval tolerance arrival now with
    | none =>
      rw [admitted_of_none hNext] at hCount
      exact ih hCount
    | some arrival' =>
      rw [admitted_of_some hNext, countP_cons] at hCount
      split at hCount
      · next hInside =>
          -- The first one inside: all others are admitted from one interval after it.
          obtain ⟨hStart, hEnd⟩ := of_decide_eq_true hInside
          have hSince : now + interval ≤ arrival' := by
            have hMax := le_max_left now arrival
            have hArrival := (next_eq_some_iff.mp hNext).2
            omega
          have hFewer : (admitted interval tolerance arrival' times).countP
                (fun time => decide (start ≤ time ∧ time ≤ start + length)) ≤
              (admitted interval tolerance arrival' times).countP
                (fun time => decide (time ≤ start + length)) :=
            countP_mono_left fun time _ hTime =>
              decide_eq_true (of_decide_eq_true hTime).2
          generalize hLater : (admitted interval tolerance arrival' times).countP (fun time =>
            decide (time ≤ start + length)) = later
          have hBound := count_bound hInterval (start + length) hSince times hLater
          have hLe : (count - 1 : Int) * interval ≤ later * interval :=
            mul_le_mul_of_nonneg_right (by omega) hInterval
          rcases hBound with hNone | hBound
          · rw [hNone] at hLe
            push_cast at hLe
            linarith
          · linarith
      · exact ih hCount

/-- A burst within the tolerance is admitted whole, and so is a message one interval
later. -/
theorem admitted_burst (hInterval : 0 ≤ interval)
    (hTolerance : arrival + (count - 1 : Int) * interval ≤ now + tolerance) (hNow : now ≤ arrival) :
    admitted interval tolerance arrival (List.replicate count now ++ [now + interval]) =
      List.replicate count now ++ [now + interval] := by
  induction count generalizing arrival with
  | zero =>
    have hNext : next interval tolerance arrival (now + interval) =
        some (max (now + interval) arrival + interval) := by
      refine next_eq_some_iff.mpr ⟨?_, rfl⟩
      push_cast at hTolerance
      linarith
    rw [replicate_zero, nil_append, admitted_of_some hNext, admitted]
  | succ count ih =>
    have hScaled : 0 ≤ (count : Int) * interval :=
      mul_nonneg (Int.natCast_nonneg count) hInterval
    push_cast at hTolerance
    have hNext : next interval tolerance arrival now = some (arrival + interval) := by
      refine next_eq_some_iff.mpr ⟨by linarith, ?_⟩
      rw [max_eq_right hNow]
    rw [replicate_succ, cons_append, admitted_of_some hNext,
      ih (by linarith) (by linarith)]

/-- The arrival time is by `bound` exactly if, from every admitted message on, one interval
for each message admitted since is over by then. -/
def Encodes (interval arrival : Int) (sent : List Int) : Prop :=
  ∀ bound, 0 ≤ bound → (arrival ≤ bound ↔
    ∀ time later, time :: later <:+ sent → time + (time :: later).length * interval ≤ bound)

theorem encodes_nil : Encodes interval 0 [] := by
  intro bound hBound
  exact iff_of_true hBound fun time later hSuffix => absurd (suffix_nil.mp hSuffix) nofun

/-- One more message delays what all messages before it ask for. -/
theorem Encodes.push {sent : List Int} (hEncodes : Encodes interval arrival sent) (hNow : 0 ≤ now) :
    Encodes interval (max now arrival + interval) (sent ++ [now]) := by
  intro bound _
  rw [← le_sub_iff_add_le, max_le_iff]
  constructor
  · rintro ⟨hLast, hArrival⟩ time later hSuffix
    have hAll := (hEncodes (bound - interval) (hNow.trans hLast)).mp hArrival
    obtain hNone | ⟨front, hFront, hBefore⟩ := suffix_concat_iff.mp hSuffix
    · cases hNone
    rw [hFront]
    cases front with
    | nil =>
      obtain ⟨rfl, rfl⟩ := List.cons.inj hFront
      simp only [nil_append, length_singleton, Nat.cast_one, one_mul]
      exact le_sub_iff_add_le.mp hLast
    | cons first rest =>
      obtain ⟨rfl, rfl⟩ := List.cons.inj hFront
      have hEarlier := hAll _ _ hBefore
      rw [length_append, length_singleton]
      push_cast at hEarlier ⊢
      linarith
  · intro hAll
    have hLast : now ≤ bound - interval := by
      have hOwn := hAll now [] (suffix_append _ _)
      simp only [length_singleton, Nat.cast_one, one_mul] at hOwn
      exact le_sub_iff_add_le.mpr hOwn
    refine ⟨hLast, (hEncodes _ (hNow.trans hLast)).mpr fun time later hSuffix => ?_⟩
    obtain ⟨front, rfl⟩ := hSuffix
    have hEarlier := hAll time (later ++ [now]) ⟨front, by simp⟩
    rw [length_cons, length_append, length_singleton] at hEarlier
    rw [length_cons]
    push_cast at hEarlier ⊢
    linarith

end CellRate
end ExchangeCore
