import Mathlib.Data.List.AList
import Mathlib.Algebra.BigOperators.Group.List.Basic
import Mathlib.Algebra.Order.Ring.Nat

/-!
# Totals over an association list

The sum of a weight over the values of a map.  Writing a value under a key trades
the weight of what was there for the weight of the new value, and two maps that
answer every lookup alike have the same total, whatever the order of their
entries.
-/

namespace ExchangeCore
namespace Keyed

variable {K V : Type} (f : V → Nat)

def total (m : AList fun _ : K => V) : Nat :=
  (m.entries.map fun entry => f entry.2).sum

variable [DecidableEq K]

/-- Erasing a key takes away the weight found under it. -/
theorem sum_kerase (k : K) (l : List (Sigma fun _ : K => V)) :
    ((l.kerase k).map fun entry => f entry.2).sum + ((l.dlookup k).map f).getD 0 =
      (l.map fun entry => f entry.2).sum := by
  induction l with
  | nil => rfl
  | cons entry l ih =>
    obtain ⟨k', v⟩ := entry
    by_cases hKey : k = k'
    · subst hKey
      have hHead : List.kerase k (⟨k, v⟩ :: l) = l :=
        List.kerase_cons_eq (s := (⟨k, v⟩ : Sigma fun _ : K => V)) rfl
      rw [hHead, List.dlookup_cons_eq]
      simp only [Option.map_some, Option.getD_some, List.map_cons, List.sum_cons]
      omega
    · rw [List.kerase_cons_ne hKey, List.dlookup_cons_ne _ _ hKey]
      simp only [List.map_cons, List.sum_cons]
      omega

theorem total_insert (m : AList fun _ : K => V) (k : K) (v : V) :
    total f (m.insert k v) + ((m.lookup k).map f).getD 0 = total f m + f v := by
  have hErased := sum_kerase f k m.entries
  have hEntries : (m.insert k v).entries = ⟨k, v⟩ :: m.entries.kerase k := AList.entries_insert
  unfold total AList.lookup
  rw [hEntries]
  simp only [List.map_cons, List.sum_cons]
  omega

theorem total_congr {m m' : AList fun _ : K => V} (hSame : ∀ k, m'.lookup k = m.lookup k) :
    total f m' = total f m := by
  have hPerm : m'.entries.Perm m.entries := by
    refine List.lookup_ext m'.nodupKeys m.nodupKeys fun k v => ?_
    have hKey : m'.entries.dlookup k = m.entries.dlookup k := hSame k
    rw [hKey]
  exact (hPerm.map _).sum_eq

/-- One value weighs no more than the whole. -/
theorem le_total {m : AList fun _ : K => V} {k : K} {v : V} (hLookup : m.lookup k = some v) :
    f v ≤ total f m := by
  have hErased := sum_kerase f k m.entries
  have hFound : m.entries.dlookup k = some v := hLookup
  rw [hFound, Option.map_some, Option.getD_some] at hErased
  unfold total
  omega

end Keyed
end ExchangeCore
