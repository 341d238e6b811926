import Mathlib.Data.Nat.Find

/-!
# Linear probing with tombstones

A table of `n` cells, each empty, buried (a tombstone) or occupied.  A key is
looked for from its home slot onwards, wrapping around, until an empty cell or
the key itself is met.  `Table` is the invariant that makes this exact: no
empty cell stands between a key's home and the slot that holds it, and no key
is held twice.  Burying a key keeps the invariant where emptying its cell would
not; placing a key on its own probe path keeps it as well.
-/

namespace ExchangeCore
namespace LinearProbing

inductive Cell (K V : Type)
  | empty
  | tombstone
  | occupied (key : K) (value : V)

/-- The `d`-th slot of the probe sequence that starts at `home`. -/
def pos (n home d : Nat) : Nat := (home + d) % n

theorem pos_lt {n : Nat} (hn : 0 < n) (home d : Nat) : pos n home d < n := Nat.mod_lt _ hn

theorem pos_zero {n home : Nat} (hHome : home < n) : pos n home 0 = home :=
  Nat.mod_eq_of_lt hHome

theorem pos_succ (n home d : Nat) : (pos n home d + 1) % n = pos n home (d + 1) := by
  simp [pos, Nat.add_assoc]

/-- Every slot is on every probe sequence. -/
theorem exists_pos {n s : Nat} (hs : s < n) (home : Nat) : ∃ d < n, pos n home d = s := by
  refine ⟨(s + (n - home % n)) % n, Nat.mod_lt _ (by omega), ?_⟩
  have hHome : home % n < n := Nat.mod_lt _ (by omega)
  have hSplit := Nat.div_add_mod home n
  unfold pos
  rw [Nat.add_mod_mod]
  have hSum : home + (s + (n - home % n)) = s + n * (home / n + 1) := by
    rw [Nat.mul_add]
    omega
  rw [hSum, Nat.add_mul_mod_self_left, Nat.mod_eq_of_lt hs]

/-! ## Scanning -/

/-- Walk from a slot until `stop`, for at most `fuel` steps, remembering the
first slot with `mark` that was passed. -/
def scan (next : Nat → Nat) (stop mark : Nat → Bool) :
    Nat → Nat → Option Nat → Nat × Option Nat
  | 0, slot, marked => (slot, marked)
  | fuel + 1, slot, marked =>
    if stop slot then
      (slot, marked)
    else
      scan next stop mark fuel (next slot)
        (if mark slot && marked.isNone then some slot else marked)

/-- Where the scan ends: at the first stopping slot, with the first marked slot
before it. -/
theorem scan_eq (n home : Nat) (next : Nat → Nat) (stop mark : Nat → Bool)
    (hNext : ∀ s, next s = (s + 1) % n) {d : Nat} (hStop : stop (pos n home d) = true)
    (fuel start : Nat) (marked : Option Nat) (hStart : start ≤ d) (hFuel : d < start + fuel)
    (hFirst : ∀ e, start ≤ e → e < d → stop (pos n home e) = false) :
    scan next stop mark fuel (pos n home start) marked =
      (pos n home d,
        marked.or (((List.range' start (d - start)).map (pos n home)).find? mark)) := by
  -- The induction is on the fuel; `start` is how far the walk has come.
  induction fuel generalizing start marked with
  | zero => omega
  | succ fuel ih =>
    by_cases hEnd : start = d
    · subst hEnd
      simp [scan, hStop]
    have hGo := hFirst start (le_refl _) (by omega)
    have hCount : d - start = (d - (start + 1)) + 1 := by omega
    rw [scan, hGo, hNext, pos_succ]
    rw [if_neg (by simp), ih (start + 1) _ (by omega) (by omega)
      fun e he hlt => hFirst e (by omega) hlt]
    rw [hCount, List.range'_succ, List.map_cons, List.find?_cons]
    cases hMark : mark (pos n home start) <;> cases marked <;> simp

/-! ## Tables -/

section Table

variable {K V : Type}

structure Table (n : Nat) (home : K → Nat) (cell : Nat → Cell K V) : Prop where
  reachable : ∀ s < n, ∀ k v, cell s = .occupied k v →
    ∃ d < n, pos n (home k) d = s ∧ ∀ e < d, cell (pos n (home k) e) ≠ .empty
  unique : ∀ s < n, ∀ t < n, ∀ k v w, cell s = .occupied k v → cell t = .occupied k w → s = t

/-- The key is nowhere in the table. -/
def Absent (n : Nat) (cell : Nat → Cell K V) (key : K) : Prop :=
  ∀ s < n, ∀ v, cell s ≠ .occupied key v

theorem table_of_all_empty {n : Nat} (home : K → Nat) {cell : Nat → Cell K V}
    (hCell : ∀ s, cell s = .empty) : Table n home cell := by
  constructor
  · intro s _ k v hHeld
    rw [hCell] at hHeld
    contradiction
  · intro s _ t _ k v w hHeld
    rw [hCell] at hHeld
    contradiction

section Probe

variable [DecidableEq K]

/-- A probe for `key` ends at an empty cell or at the key. -/
def stops (cell : Nat → Cell K V) (key : K) (s : Nat) : Bool :=
  match cell s with
  | .empty => true
  | .tombstone => false
  | .occupied k _ => decide (k = key)

/-- A table with an empty cell stops every probe. -/
theorem exists_first_stop {n : Nat} {cell : Nat → Cell K V}
    (hEmpty : ∃ s < n, cell s = .empty) (home : Nat) (key : K) :
    ∃ d < n, stops cell key (pos n home d) = true ∧
      ∀ e < d, stops cell key (pos n home e) = false := by
  obtain ⟨s, hs, hCell⟩ := hEmpty
  obtain ⟨d, hd, hPos⟩ := exists_pos hs home
  have hExists : ∃ d, stops cell key (pos n home d) = true := ⟨d, by simp [stops, hPos, hCell]⟩
  refine ⟨Nat.find hExists, ?_, Nat.find_spec hExists, fun e he => ?_⟩
  · exact lt_of_le_of_lt (Nat.find_min' hExists (by simp [stops, hPos, hCell])) hd
  · simpa using Nat.find_min hExists he

theorem ne_empty_of_not_stops {cell : Nat → Cell K V} {key : K} {s : Nat}
    (hGo : stops cell key s = false) : cell s ≠ .empty := by
  intro hCell
  simp [stops, hCell] at hGo

/-- The probe's answer is exact: it ends at the key, or the key is absent. -/
theorem Table.probe {n : Nat} {home : K → Nat} {cell : Nat → Cell K V} {key : K} {d : Nat}
    (hTable : Table n home cell) (hStop : stops cell key (pos n (home key) d) = true)
    (hFirst : ∀ e < d, stops cell key (pos n (home key) e) = false) :
    (∃ v, cell (pos n (home key) d) = .occupied key v) ∨
      (cell (pos n (home key) d) = .empty ∧ Absent n cell key) := by
  cases hCell : cell (pos n (home key) d) with
  | empty =>
    refine Or.inr ⟨rfl, fun s hs v hHeld => ?_⟩
    obtain ⟨c, -, hPos, hPath⟩ := hTable.reachable s hs key v hHeld
    -- The key would have to be met before the empty cell, or lie behind it.
    rcases Nat.lt_trichotomy c d with hLt | rfl | hGt
    · have hGo := hFirst c hLt
      rw [hPos] at hGo
      simp [stops, hHeld] at hGo
    · rw [hPos, hHeld] at hCell
      contradiction
    · exact hPath d hGt hCell
  | tombstone => simp [stops, hCell] at hStop
  | occupied k v =>
    simp only [stops, hCell, decide_eq_true_eq] at hStop
    subst hStop
    exact Or.inl ⟨v, rfl⟩

end Probe

variable {n : Nat} {home : K → Nat} {cell cell' : Nat → Cell K V}

/-- Placing an absent key on its probe path, before any empty cell of the
path. -/
theorem Table.place {key : K} {value : V} {d : Nat} (hTable : Table n home cell)
    (hd : d < n) (hAbsent : Absent n cell key) (hPath : ∀ e < d, cell (pos n (home key) e) ≠ .empty)
    (hCell : ∀ s < n, cell' s = if s = pos n (home key) d then .occupied key value else cell s) :
    Table n home cell' := by
  have hn : 0 < n := by omega
  -- No cell becomes empty.
  have hKept : ∀ s < n, cell s ≠ .empty → cell' s ≠ .empty := by
    intro s hs hNe
    rw [hCell s hs]
    split
    · simp
    · exact hNe
  constructor
  · intro s hs k v hHeld
    rw [hCell s hs] at hHeld
    split at hHeld
    · next hTarget =>
        obtain ⟨rfl, rfl⟩ := Cell.occupied.inj hHeld
        exact ⟨d, hd, hTarget.symm, fun e he => hKept _ (pos_lt hn _ _) (hPath e he)⟩
    · obtain ⟨c, hc, hPos, hOld⟩ := hTable.reachable s hs k v hHeld
      exact ⟨c, hc, hPos, fun e he => hKept _ (pos_lt hn _ _) (hOld e he)⟩
  · intro s hs t ht k v w hs' ht'
    rw [hCell s hs] at hs'
    rw [hCell t ht] at ht'
    split at hs' <;> split at ht'
    · next hsT htT => rw [hsT, htT]
    · obtain ⟨rfl, rfl⟩ := Cell.occupied.inj hs'
      exact absurd ht' (hAbsent t ht w)
    · obtain ⟨rfl, rfl⟩ := Cell.occupied.inj ht'
      exact absurd hs' (hAbsent s hs v)
    · exact hTable.unique s hs t ht k v w hs' ht'

/-- Burying a cell leaves every other key's path unbroken. -/
theorem Table.bury {slot : Nat} (hTable : Table n home cell)
    (hCell : ∀ s < n, cell' s = if s = slot then .tombstone else cell s) :
    Table n home cell' := by
  have hHeld : ∀ s < n, ∀ k v, cell' s = .occupied k v → cell s = .occupied k v := by
    intro s hs k v hs'
    rw [hCell s hs] at hs'
    split at hs'
    · contradiction
    · exact hs'
  constructor
  · intro s hs k v hs'
    obtain ⟨c, hc, hPos, hPath⟩ := hTable.reachable s hs k v (hHeld s hs k v hs')
    refine ⟨c, hc, hPos, fun e he => ?_⟩
    rw [hCell _ (pos_lt (by omega) _ _)]
    split
    · simp
    · exact hPath e he
  · intro s hs t ht k v w hs' ht'
    exact hTable.unique s hs t ht k v w (hHeld s hs k v hs') (hHeld t ht k w ht')

end Table

end LinearProbing
end ExchangeCore
