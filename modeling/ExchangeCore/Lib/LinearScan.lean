import Mathlib.Data.List.Basic

/-!
# Selecting the best element by one pass

A loop over a list that keeps an incumbent and replaces it whenever a candidate
is eligible and preferred.  Nothing is assumed of the preference: if one
eligible element beats all others, the loop ends with it.
-/

namespace ExchangeCore
namespace LinearScan

variable {α : Type*} (eligible : α → Bool) (preferred : α → α → Bool)

/-- One pass of the loop. -/
def consider (best : Option α) (candidate : α) : Option α :=
  if !eligible candidate then
    best
  else
    match best with
    | none => some candidate
    | some incumbent => if preferred candidate incumbent then some candidate else best

def select (candidates : List α) : Option α :=
  candidates.foldl (consider eligible preferred) none

variable {eligible preferred}

variable {candidates : List α}

/-- Nothing takes over from a winner. -/
theorem foldl_consider_of_winner {winner : α}
    (hWins : ∀ y ∈ candidates, eligible y = true → preferred y winner = false) :
    candidates.foldl (consider eligible preferred) (some winner) = some winner := by
  induction candidates with
  | nil => rfl
  | cons y rest ih =>
    have hRest := ih fun z hz => hWins z (by simp [hz])
    rw [List.foldl_cons]
    cases hy : eligible y with
    | false => simpa [consider, hy] using hRest
    | true => simpa [consider, hy, hWins y (by simp) hy] using hRest

/-- The element that beats every other eligible one is selected. -/
theorem select_eq_some {winner : α} (hMem : winner ∈ candidates)
    (hEligible : eligible winner = true) (hSelf : preferred winner winner = false)
    (hBest : ∀ y ∈ candidates, eligible y = true → y ≠ winner →
      preferred winner y = true ∧ preferred y winner = false) :
    select eligible preferred candidates = some winner := by
  -- Until the winner is met, the incumbent is someone the winner beats.
  have hLoop : ∀ best : Option α, (∀ b ∈ best, preferred winner b = true) →
      candidates.foldl (consider eligible preferred) best = some winner := by
    induction candidates with
    | nil => simp at hMem
    | cons y rest ih =>
      intro best hBeaten
      rw [List.foldl_cons]
      by_cases hy : y = winner
      · subst hy
        have hTaken : consider eligible preferred best y = some y := by
          cases best with
          | none => simp [consider, hEligible]
          | some b => simp [consider, hEligible, hBeaten b rfl]
        rw [hTaken]
        apply foldl_consider_of_winner
        intro z hz hzEligible
        by_cases hzy : z = y
        · rw [hzy]
          exact hSelf
        · exact (hBest z (by simp [hz]) hzEligible hzy).2
      · have hIn : winner ∈ rest := by
          rcases List.mem_cons.mp hMem with h | h
          · exact absurd h.symm hy
          · exact h
        apply ih hIn fun z hz => hBest z (by simp [hz])
        intro b hb
        cases hyEligible : eligible y with
        | false =>
          have hSkipped : consider eligible preferred best y = best := by
            simp [consider, hyEligible]
          rw [hSkipped] at hb
          exact hBeaten b hb
        | true =>
          have hBeatsY := (hBest y (by simp) hyEligible hy).1
          cases best with
          | none =>
            have hEq : y = b := by simpa [consider, hyEligible] using hb
            rw [← hEq]
            exact hBeatsY
          | some a =>
            simp only [consider, hyEligible, Bool.not_true, Bool.false_eq_true, if_false] at hb
            split at hb
            · rw [← Option.some.inj hb]
              exact hBeatsY
            · exact hBeaten b hb
  exact hLoop none (by simp)

/-- Nothing eligible, nothing selected. -/
theorem select_eq_none (hNone : ∀ y ∈ candidates, eligible y = false) :
    select eligible preferred candidates = none := by
  unfold select
  induction candidates with
  | nil => rfl
  | cons y rest ih =>
    rw [List.foldl_cons, show consider eligible preferred none y = none by
      simp [consider, hNone y (by simp)]]
    exact ih fun z hz => hNone z (by simp [hz])

end LinearScan
end ExchangeCore
