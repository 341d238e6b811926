import Mathlib.Data.List.Nodup

/-!
# Intrusive linked lists

A list threaded through a store is described by two link maps, `prev` and
`next`, from handles to optional handles.  `Linked prev next hs` says that the
maps thread exactly the handles `hs`, in that order, with nothing before the
first and nothing after the last.  It is stated by splitting `hs` at every
position, so the rules for appending and for unlinking in the middle are case
analyses on where the split falls.

`Forward` is the same notion for one link map only, as a free list uses it, and
`walk` is the traversal loop that follows `next` from a given handle.
-/

namespace ExchangeCore
namespace LinkedList

variable {α : Type*} {prev next prev' next' : α → Option α}

/-- `next` leads through `hs` and stops after its last element. -/
def Forward (next : α → Option α) (hs : List α) : Prop :=
  ∀ l h r, hs = l ++ h :: r → next h = r.head?

/-- `prev` and `next` thread `hs` in both directions. -/
def Linked (prev next : α → Option α) (hs : List α) : Prop :=
  ∀ l h r, hs = l ++ h :: r → prev h = l.getLast? ∧ next h = r.head?

/-- Follow `next` from a handle, for at most `fuel` nodes. -/
def walk (next : α → Option α) : Nat → Option α → List α
  | 0, _ => []
  | _ + 1, none => []
  | fuel + 1, some h => h :: walk next fuel (next h)

variable {hs l r : List α}

theorem Linked.forward (hLinked : Linked prev next hs) : Forward next hs :=
  fun l h r hSplit => (hLinked l h r hSplit).2

theorem forward_nil : Forward next ([] : List α) := by
  intro l h r hSplit
  simp at hSplit

theorem linked_nil : Linked prev next ([] : List α) := by
  intro l h r hSplit
  simp at hSplit

theorem Forward.congr (hForward : Forward next hs)
    (hNext : ∀ h ∈ hs, next' h = next h) : Forward next' hs := by
  intro l h r hSplit
  rw [hNext h (by simp [hSplit])]
  exact hForward l h r hSplit

theorem Linked.congr (hLinked : Linked prev next hs)
    (hPrev : ∀ h ∈ hs, prev' h = prev h) (hNext : ∀ h ∈ hs, next' h = next h) :
    Linked prev' next' hs := by
  intro l h r hSplit
  have hMem : h ∈ hs := by simp [hSplit]
  rw [hPrev h hMem, hNext h hMem]
  exact hLinked l h r hSplit

/-- Pushing a handle in front of a forward chain. -/
theorem Forward.cons {h : α} (hForward : Forward next hs)
    (hHead : next h = hs.head?) : Forward next (h :: hs) := by
  intro l x r hSplit
  cases l with
  | nil =>
    obtain ⟨rfl, rfl⟩ := List.cons.inj hSplit
    exact hHead
  | cons y l =>
    obtain ⟨-, hTail⟩ := List.cons.inj hSplit
    exact hForward l x r hTail

/-- Popping the first handle of a forward chain. -/
theorem Forward.of_cons {h : α} (hForward : Forward next (h :: hs)) :
    next h = hs.head? ∧ Forward next hs := by
  refine ⟨hForward [] h hs rfl, ?_⟩
  intro l x r hSplit
  exact hForward (h :: l) x r (by rw [hSplit]; rfl)

/-- The traversal loop visits the threaded handles from any suffix on. -/
theorem Forward.walk_suffix (hForward : Forward next (l ++ r))
    {fuel : Nat} (hFuel : r.length ≤ fuel) : walk next fuel r.head? = r := by
  induction r generalizing l fuel with
  | nil => cases fuel <;> rfl
  | cons h r ih =>
    cases fuel with
    | zero => simp at hFuel
    | succ fuel =>
      have hNext : next h = r.head? := hForward l h r rfl
      have hTail : Forward next ((l ++ [h]) ++ r) := by simpa using hForward
      simp only [List.head?_cons, walk, hNext]
      rw [ih hTail (by simpa using hFuel)]

theorem Forward.walk_eq (hForward : Forward next hs)
    {fuel : Nat} (hFuel : hs.length ≤ fuel) : walk next fuel hs.head? = hs :=
  Forward.walk_suffix (l := []) hForward hFuel

/-- Following `next` from a handle visits these handles and then ends. -/
def Traverses (next : α → Option α) : Option α → List α → Prop
  | start, [] => start = none
  | start, h :: hs => start = some h ∧ Traverses next (next h) hs

theorem Forward.traverses (hForward : Forward next hs) : Traverses next hs.head? hs := by
  induction hs with
  | nil => rfl
  | cons h hs ih =>
    obtain ⟨hNext, hRest⟩ := hForward.of_cons
    refine ⟨rfl, ?_⟩
    rw [hNext]
    exact ih hRest

/-- Without repetitions, a handle with others behind it is not the last one. -/
theorem getLast?_ne_of_nodup {h x : α} (hNodup : (l ++ h :: x :: r).Nodup) :
    (l ++ h :: x :: r).getLast? ≠ some h := by
  intro hLast
  have hMem : h ∈ x :: r :=
    List.mem_of_getLast? (by simpa [List.getLast?_append, List.getLast?_cons] using hLast)
  exact (List.nodup_cons.mp (List.nodup_append.mp hNodup).2.1).1 hMem

variable [DecidableEq α]

/-- Appending a fresh handle: its predecessor is the old last handle, whose
successor becomes the new one; every other link stays. -/
theorem Linked.pushBack {n : α} (hLinked : Linked prev next hs)
    (hNodup : (hs ++ [n]).Nodup) (hPrev : ∀ h, prev' h = if h = n then hs.getLast? else prev h)
    (hNext : ∀ h, next' h =
      if hs.getLast? = some h then some n else if h = n then none else next h) :
    Linked prev' next' (hs ++ [n]) := by
  intro l h r hSplit
  obtain ⟨hNodup', -, hFresh⟩ := List.nodup_append.mp hNodup
  rw [hPrev, hNext]
  rcases List.eq_nil_or_concat r with rfl | ⟨r', last, rfl⟩
  · obtain ⟨rfl, hn⟩ := List.append_inj' hSplit rfl
    obtain rfl : n = h := by simpa using hn
    have hNot : hs.getLast? ≠ some n := fun hLast =>
      hFresh n (List.mem_of_getLast? hLast) n (by simp) rfl
    simp [hNot]
  have hSplit' : hs ++ [n] = (l ++ h :: r') ++ [last] := by simpa using hSplit
  obtain ⟨rfl, hLast⟩ := List.append_inj' hSplit' rfl
  obtain rfl : n = last := by simpa using hLast
  obtain ⟨hOldPrev, hOldNext⟩ := hLinked l h r' rfl
  have hNe : h ≠ n := hFresh h (by simp) n (by simp)
  refine ⟨by rw [if_neg hNe, hOldPrev], ?_⟩
  cases r' with
  | nil => simp
  | cons x r' =>
    rw [if_neg (getLast?_ne_of_nodup hNodup'), if_neg hNe, hOldNext]
    simp

/-- Unlinking a handle anywhere: its neighbours are joined and every other
link stays. -/
theorem Linked.unlink {h : α} (hLinked : Linked prev next (l ++ h :: r)) (hNodup : (l ++ r).Nodup)
    (hPrev : ∀ x ∈ l ++ r, prev' x = if r.head? = some x then l.getLast? else prev x)
    (hNext : ∀ x ∈ l ++ r, next' x = if l.getLast? = some x then r.head? else next x) :
    Linked prev' next' (l ++ r) := by
  intro a x b hSplit
  have hMem : x ∈ l ++ r := by simp [hSplit]
  obtain ⟨hLeft, hRight, hDisjoint⟩ := List.nodup_append.mp hNodup
  rw [hPrev x hMem, hNext x hMem]
  have hHalf : (∃ c, a = l ++ c ∧ r = c ++ x :: b) ∨ ∃ c, l = a ++ x :: c ∧ b = c ++ r := by
    rcases List.append_eq_append_iff.mp hSplit with hInside | ⟨c, rfl, hb⟩
    · exact Or.inl hInside
    cases c with
    | nil => exact Or.inl ⟨[], by simpa using hb.symm⟩
    | cons y c =>
      obtain ⟨rfl, rfl⟩ : x = y ∧ b = c ++ r := by simpa using hb
      exact Or.inr ⟨c, rfl, rfl⟩
  rcases hHalf with ⟨c, rfl, rfl⟩ | ⟨c, rfl, rfl⟩
  · obtain ⟨hOldPrev, hOldNext⟩ := hLinked (l ++ h :: c) x b (by simp)
    have hNotLast : l.getLast? ≠ some x := fun hEq =>
      hDisjoint x (List.mem_of_getLast? hEq) x (by simp) rfl
    refine ⟨?_, by rw [if_neg hNotLast, hOldNext]⟩
    cases c with
    | nil => simp
    | cons y c =>
      have hNe : y ≠ x := by
        rintro rfl
        exact (List.nodup_cons.mp hRight).1 (by simp)
      simp [hNe, hOldPrev, List.getLast?_append, List.getLast?_cons]
  · obtain ⟨hOldPrev, hOldNext⟩ := hLinked a x (c ++ h :: r) (by simp)
    have hNotFirst : r.head? ≠ some x := fun hEq =>
      hDisjoint x (by simp) x (List.mem_of_head? hEq) rfl
    refine ⟨by rw [if_neg hNotFirst, hOldPrev], ?_⟩
    cases c with
    | nil => simp
    | cons z c =>
      rw [if_neg (getLast?_ne_of_nodup hLeft), hOldNext]
      simp

end LinkedList
end ExchangeCore
