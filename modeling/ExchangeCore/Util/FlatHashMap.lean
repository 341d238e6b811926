import ExchangeCore.Lib.LinearProbing
import ExchangeCore.Core.Types

/-!
# The open-addressed hash map

Keys, values and slot states in three flat arrays with linear probing and
tombstones.  The capacity is a power of two, so the mask wraps a slot around.
The `while (true)` loops of the source run on fuel equal to the capacity;
`Valid` keeps an empty slot in the table, which ends them earlier.

The specification is that of a finite map: `find_create`, `find_insert`,
`find_erase` say how `find` sees each operation, growth included.
-/

namespace ExchangeCore

open LinearProbing List

/-- The hash the standard library gives a key. -/
class KeyHash (K : Type) where
  hash : K → UInt64

inductive SlotState
  | empty
  | occupied
  | tombstone
  deriving DecidableEq, Inhabited

structure FlatHashMap (K V : Type) where
  keys : List K
  values : List V
  state : List SlotState
  capacity : Nat
  mask : Nat
  occupied : Nat := 0
  tombstones : Nat := 0
  rehashes : Nat := 0
  deriving DecidableEq

namespace FlatHashMap

variable {K V : Type} [Inhabited K] [Inhabited V]

/-- `result` is doubled until it reaches `value`. -/
def doubleUntil (enough : Nat → Bool) : Nat → Nat → Nat
  | 0, result => result
  | fuel + 1, result =>
    if enough result then result else doubleUntil enough fuel (result * 2)

def roundUpPowerOfTwo (value : Nat) : Nat :=
  doubleUntil (fun result => decide (value ≤ result)) value 8

def resize (map : FlatHashMap K V) (capacity : Nat) : FlatHashMap K V :=
  { map with
    capacity := capacity
    mask := capacity - 1
    keys := List.replicate capacity default
    values := List.replicate capacity default
    state := List.replicate capacity .empty
    occupied := 0
    tombstones := 0 }

def create (minimumCapacity : Nat) : FlatHashMap K V :=
  resize { keys := [], values := [], state := [], capacity := 0, mask := 0 }
    (roundUpPowerOfTwo (if minimumCapacity < 8 then 8 else minimumCapacity))

def keyAt (map : FlatHashMap K V) (slot : Nat) : K := map.keys[slot]?.getD default

def valueAt (map : FlatHashMap K V) (slot : Nat) : V := map.values[slot]?.getD default

def stateAt (map : FlatHashMap K V) (slot : Nat) : SlotState := map.state[slot]?.getD .empty

def size (map : FlatHashMap K V) : Nat := map.occupied

section Hashed

variable [DecidableEq K] [KeyHash K] (map : FlatHashMap K V)

/-- The home slot: the key's hash through a 64-bit mixer, masked. -/
def indexFor (key : K) : Nat :=
  let hash := KeyHash.hash key
  let hash := hash ^^^ (hash >>> 30)
  let hash := 0xBF58476D1CE4E5B9 * hash
  let hash := hash ^^^ (hash >>> 27)
  let hash := 0x94D049BB133111EB * hash
  let hash := hash ^^^ (hash >>> 31)
  hash.toNat &&& map.mask

def nextSlot (slot : Nat) : Nat := (slot + 1) &&& map.mask

/-- The two ways out of a probe loop: an empty slot, or the key. -/
def probeStops (key : K) (slot : Nat) : Bool :=
  map.stateAt slot == .empty || (map.stateAt slot == .occupied && decide (map.keyAt slot = key))

/-- The probe loop shared by `locate` and `insert`, with the first tombstone it
passes. -/
def probe (key : K) : Nat × Option Nat :=
  scan map.nextSlot (map.probeStops key) (fun slot => map.stateAt slot == .tombstone)
    map.capacity (map.indexFor key) none

def locate (key : K) : Nat := (map.probe key).1

def find (key : K) : Option V :=
  let slot := map.locate key
  if map.stateAt slot = .occupied then some (map.valueAt slot) else none

def contains (key : K) : Bool := (map.find key).isSome

/-- Write an absent key at the earliest tombstone passed, or else at the empty
slot that ended the probe. -/
def place (slot : Nat) (firstTombstone : Option Nat) (key : K) (value : V) : FlatHashMap K V :=
  let target := firstTombstone.getD slot
  { map with
    keys := map.keys.set target key
    values := map.values.set target value
    state := map.state.set target .occupied
    tombstones := if firstTombstone.isSome then map.tombstones - 1 else map.tombstones
    occupied := map.occupied + 1 }

def needsGrowth : Bool :=
  decide (map.occupied + map.tombstones + 1 > map.capacity * 7 / 10)

/-- `insert`, given how the table grows. -/
def insertWith (grow : FlatHashMap K V → FlatHashMap K V) (map : FlatHashMap K V) (key : K)
    (value : V) : FlatHashMap K V × Bool :=
  let map := if map.needsGrowth then grow map else map
  let (slot, firstTombstone) := map.probe key
  if map.stateAt slot = .empty then
    (map.place slot firstTombstone key value, true)
  else
    (map, false)

/-- The capacity a rebuild chooses: doubled only when the live entries and the
one being inserted warrant it. -/
def growCapacity : Nat :=
  let live := map.occupied + 1
  doubleUntil (fun capacity => decide (live ≤ capacity * 7 / 10)) live map.capacity

/-- Fresh arrays with the entries of the first `n` old slots.  The re-insertions are calls of
`insert` as well; the fresh table always has room for them (`rebuild_spec`), so their own
growth check never fires and is not nested further. -/
def rebuilt (n : Nat) : FlatHashMap K V :=
  let fresh := { map.resize map.growCapacity with rehashes := map.rehashes + 1 }
  (List.range n).foldl (fun fresh i =>
      if map.stateAt i = .occupied then
        (fresh.insertWith id (map.keyAt i) (map.valueAt i)).1
      else
        fresh)
    fresh

def grow : FlatHashMap K V := map.rebuilt map.state.length

/-- Insert, or report false when the key is already present. -/
def insert (key : K) (value : V) : FlatHashMap K V × Bool :=
  map.insertWith grow key value

/-- Mark the slot rather than empty it: emptying would cut the probe sequence of
keys that collided past it. -/
def erase (key : K) : FlatHashMap K V × Bool :=
  let slot := map.locate key
  if map.stateAt slot ≠ .occupied then
    (map, false)
  else
    ({ map with
       state := map.state.set slot .tombstone
       occupied := map.occupied - 1
       tombstones := map.tombstones + 1 }, true)

/-- Forget every key.  The keys and values stay where they are, in slots marked empty. -/
def clear : FlatHashMap K V :=
  { map with
    state := List.replicate map.capacity .empty
    occupied := 0
    tombstones := 0 }

end Hashed

/-! ## The table's invariant -/

/-- The arrays as one table of cells. -/
def cell (map : FlatHashMap K V) (slot : Nat) : Cell K V :=
  match map.stateAt slot with
  | .empty => .empty
  | .tombstone => .tombstone
  | .occupied => .occupied (map.keyAt slot) (map.valueAt slot)

section Spec

variable [DecidableEq K] [KeyHash K]

structure Valid (map : FlatHashMap K V) : Prop where
  keys_length : map.keys.length = map.capacity
  values_length : map.values.length = map.capacity
  state_length : map.state.length = map.capacity
  power : ∃ k, map.capacity = 2 ^ (k + 3)
  mask_eq : map.mask = map.capacity - 1
  occupied_eq : map.occupied = map.state.count .occupied
  tombstones_eq : map.tombstones = map.state.count .tombstone
  /-- Some slot is always empty. -/
  load : map.occupied + map.tombstones ≤ map.capacity * 7 / 10
  table : Table map.capacity map.indexFor map.cell

variable {map : FlatHashMap K V}

omit [DecidableEq K] [KeyHash K] in
theorem cell_eq_empty_iff (slot : Nat) : map.cell slot = .empty ↔ map.stateAt slot = .empty := by
  unfold cell
  cases map.stateAt slot <;> simp

omit [DecidableEq K] [KeyHash K] in
theorem cell_eq_occupied_iff (slot : Nat) (key : K) (value : V) :
    map.cell slot = .occupied key value ↔
      map.stateAt slot = .occupied ∧ map.keyAt slot = key ∧ map.valueAt slot = value := by
  unfold cell
  cases map.stateAt slot <;> simp

omit [KeyHash K] in
theorem probeStops_eq (key : K) (slot : Nat) :
    map.probeStops key slot = stops map.cell key slot := by
  unfold probeStops stops cell
  cases map.stateAt slot <;> simp

namespace Valid

section Capacity

omit [DecidableEq K]

theorem capacity_ge (hValid : map.Valid) : 8 ≤ map.capacity := by
  obtain ⟨k, hk⟩ := hValid.power
  rw [hk, Nat.pow_add]
  have := Nat.one_le_two_pow (n := k)
  omega

theorem and_mask (hValid : map.Valid) (x : Nat) : x &&& map.mask = x % map.capacity := by
  obtain ⟨k, hk⟩ := hValid.power
  rw [hValid.mask_eq, hk, Nat.and_two_pow_sub_one_eq_mod]

theorem indexFor_lt (hValid : map.Valid) (key : K) : map.indexFor key < map.capacity := by
  have hCapacity := hValid.capacity_ge
  unfold indexFor
  rw [hValid.and_mask]
  exact Nat.mod_lt _ (by omega)

/-- The load bound leaves a slot empty. -/
theorem exists_empty (hValid : map.Valid) : ∃ s < map.capacity, map.cell s = .empty := by
  by_contra hNone
  have hCapacity := hValid.capacity_ge
  have hAll : ∀ x ∈ map.state, x ≠ .empty := by
    intro x hx hEmpty
    obtain ⟨s, hs, hGet⟩ := mem_iff_getElem.mp hx
    refine hNone ⟨s, hValid.state_length ▸ hs, (cell_eq_empty_iff s).mpr ?_⟩
    simp [stateAt, List.getElem?_eq_getElem hs, hGet, hEmpty]
  have hCount : map.state.length = map.state.count .occupied + map.state.count .tombstone := by
    generalize map.state = states at hAll
    induction states with
    | nil => rfl
    | cons x states ih =>
      have hTail := ih fun y hy => hAll y (by simp [hy])
      have hHead := hAll x (by simp)
      cases x with
      | empty => exact absurd rfl hHead
      | occupied => simp [hTail]; omega
      | tombstone => simp [hTail]; omega
  rw [hValid.state_length, ← hValid.occupied_eq, ← hValid.tombstones_eq] at hCount
  have hLoad := hValid.load
  omega

end Capacity

/-- What the probe loop returns: the first stopping slot of the key's probe
sequence, and the first tombstone before it. -/
theorem probe_spec (hValid : map.Valid) (key : K) :
    ∃ d < map.capacity,
      stops map.cell key (pos map.capacity (map.indexFor key) d) = true ∧
      (∀ e < d, stops map.cell key (pos map.capacity (map.indexFor key) e) = false) ∧
      map.probe key = (pos map.capacity (map.indexFor key) d,
        ((List.range d).map (pos map.capacity (map.indexFor key))).find?
          fun slot => map.stateAt slot == .tombstone) := by
  obtain ⟨d, hd, hStop, hFirst⟩ :=
    exists_first_stop hValid.exists_empty (map.indexFor key) key
  refine ⟨d, hd, hStop, hFirst, ?_⟩
  have hStart := pos_zero (hValid.indexFor_lt key)
  have hScan := scan_eq map.capacity (map.indexFor key) map.nextSlot (map.probeStops key)
    (fun slot => map.stateAt slot == .tombstone) (fun s => hValid.and_mask (s + 1))
    (by rw [probeStops_eq]; exact hStop)
    map.capacity 0 none (Nat.zero_le _) (by omega)
    (fun e _ he => by rw [probeStops_eq]; exact hFirst e he)
  rw [hStart] at hScan
  rw [probe, hScan, Nat.sub_zero, range_eq_range', Option.none_or]

/-- A lookup ends at the key's own slot, or at an empty one and then the key is
nowhere in the table. -/
theorem locate_cases (hValid : map.Valid) (key : K) :
    (∃ v, map.cell (map.locate key) = .occupied key v ∧ map.locate key < map.capacity) ∨
      (map.cell (map.locate key) = .empty ∧ Absent map.capacity map.cell key) := by
  have hCapacity := hValid.capacity_ge
  obtain ⟨d, -, hStop, hFirst, hProbe⟩ := hValid.probe_spec key
  have hLocate : map.locate key = pos map.capacity (map.indexFor key) d := by
    rw [locate, hProbe]
  rw [hLocate]
  rcases hValid.table.probe hStop hFirst with ⟨v, hHeld⟩ | hAbsent
  · exact Or.inl ⟨v, hHeld, pos_lt (by omega) _ _⟩
  · exact Or.inr hAbsent

/-- `find` reads exactly what the table holds. -/
theorem find_eq_some_iff (hValid : map.Valid) (key : K) (value : V) :
    map.find key = some value ↔ ∃ s < map.capacity, map.cell s = .occupied key value := by
  unfold find
  rcases hValid.locate_cases key with ⟨v, hHeld, hLt⟩ | ⟨hEmpty, hAbsent⟩
  · obtain ⟨hState, -, hValue⟩ := (cell_eq_occupied_iff _ _ _).mp hHeld
    simp only [hState, if_true, hValue, Option.some.injEq]
    constructor
    · intro hEq
      exact ⟨map.locate key, hLt, hEq ▸ hHeld⟩
    · intro ⟨s, hs, hOther⟩
      obtain rfl := hValid.table.unique _ hs _ hLt key _ _ hOther hHeld
      rw [hHeld] at hOther
      exact (Cell.occupied.inj hOther).2
  · rw [cell_eq_empty_iff] at hEmpty
    simp only [hEmpty]
    constructor
    · intro h
      simp at h
    · intro ⟨s, hs, hOther⟩
      exact absurd hOther (hAbsent s hs value)

theorem find_eq_none_iff (hValid : map.Valid) (key : K) :
    map.find key = none ↔ Absent map.capacity map.cell key := by
  rw [Option.eq_none_iff_forall_ne_some]
  constructor
  · intro hNone s hs v hHeld
    exact hNone v ((hValid.find_eq_some_iff key v).mpr ⟨s, hs, hHeld⟩)
  · intro hAbsent v hFind
    obtain ⟨s, hs, hHeld⟩ := (hValid.find_eq_some_iff key v).mp hFind
    exact hAbsent s hs v hHeld

end Valid

/-! ## Construction -/

theorem doubleUntil_power (enough : Nat → Bool) (fuel : Nat) {result : Nat}
    (hPower : ∃ k, result = 2 ^ (k + 3)) : ∃ k, doubleUntil enough fuel result = 2 ^ (k + 3) := by
  induction fuel generalizing result with
  | zero => exact hPower
  | succ fuel ih =>
    rw [doubleUntil]
    split
    · exact hPower
    · obtain ⟨k, hk⟩ := hPower
      exact ih ⟨k + 1, by rw [hk, ← pow_succ]⟩

theorem doubleUntil_enough (enough : Nat → Bool) (result : Nat) {fuel j : Nat} (hj : j ≤ fuel)
    (hEnough : enough (result * 2 ^ j) = true) :
    enough (doubleUntil enough fuel result) = true := by
  induction fuel generalizing j result with
  | zero =>
    obtain rfl : j = 0 := by omega
    simpa [doubleUntil] using hEnough
  | succ fuel ih =>
    rw [doubleUntil]
    split
    · next hDone => exact hDone
    next hMore =>
    cases j with
    | zero => exact absurd (by simpa using hEnough) hMore
    | succ j =>
      refine ih (result * 2) (j := j) (by omega) ?_
      rw [Nat.mul_assoc, ← Nat.pow_succ']
      exact hEnough

omit [DecidableEq K] [KeyHash K] in
theorem stateAt_resize (map : FlatHashMap K V) (capacity slot : Nat) :
    (map.resize capacity).stateAt slot = .empty := by
  simp only [stateAt, resize, List.getElem?_replicate]
  split <;> rfl

omit [DecidableEq K] [KeyHash K] in
theorem cell_resize (map : FlatHashMap K V) (capacity slot : Nat) :
    (map.resize capacity).cell slot = .empty :=
  (cell_eq_empty_iff slot).mpr (stateAt_resize map capacity slot)

variable {capacity slot : Nat} {key : K}

omit [DecidableEq K] in
theorem valid_resize (map : FlatHashMap K V)
    (hPower : ∃ k, capacity = 2 ^ (k + 3)) : (map.resize capacity).Valid where
  keys_length := by simp [resize]
  values_length := by simp [resize]
  state_length := by simp [resize]
  power := hPower
  mask_eq := rfl
  occupied_eq := by simp [resize, count_replicate]
  tombstones_eq := by simp [resize, count_replicate]
  load := Nat.zero_le _
  table := table_of_all_empty _ (cell_resize map capacity)

omit [DecidableEq K] in
theorem valid_create (minimumCapacity : Nat) : (create minimumCapacity : FlatHashMap K V).Valid :=
  valid_resize _ (doubleUntil_power _ _ ⟨0, rfl⟩)

theorem find_resize (map : FlatHashMap K V) (hPower : ∃ k, capacity = 2 ^ (k + 3)) (key : K) :
    (map.resize capacity).find key = none := by
  rw [(valid_resize map hPower).find_eq_none_iff]
  intro s _ v hHeld
  rw [cell_resize] at hHeld
  contradiction

theorem find_create (minimumCapacity : Nat) (key : K) :
    (create minimumCapacity : FlatHashMap K V).find key = none :=
  find_resize _ (doubleUntil_power _ _ ⟨0, rfl⟩) key

/-! ## Insertion -/

/-- `map'` is `map` with one absent key added. -/
structure Inserted (map : FlatHashMap K V) (key : K) (value : V) (map' : FlatHashMap K V) :
    Prop where
  valid : map'.Valid
  find_eq : ∀ k, map'.find k = if k = key then some value else map.find k
  size_eq : map'.occupied = map.occupied + 1

omit [DecidableEq K] [KeyHash K] [Inhabited K] [Inhabited V] in
theorem stateAt_eq_getElem (hLt : slot < map.state.length) :
    map.stateAt slot = map.state[slot] := by
  simp [stateAt, List.getElem?_eq_getElem hLt]

/-- The slot an absent key is written to lies on its probe path, with no empty
slot before it; it is a tombstone exactly when the probe passed one. -/
theorem Valid.target_spec (hValid : map.Valid) (hNone : map.find key = none) :
    map.stateAt (map.probe key).1 = .empty ∧
      ∃ d < map.capacity,
        (map.probe key).2.getD (map.probe key).1 =
          pos map.capacity (map.indexFor key) d ∧
        (∀ e < d, map.cell (pos map.capacity (map.indexFor key) e) ≠ .empty) ∧
        map.stateAt (pos map.capacity (map.indexFor key) d) =
          if (map.probe key).2.isSome then .tombstone else .empty := by
  have hAbsent := (hValid.find_eq_none_iff key).mp hNone
  obtain ⟨d, hd, hStop, hFirst, hProbe⟩ := hValid.probe_spec key
  have hCapacity := hValid.capacity_ge
  have hEmpty : map.stateAt (pos map.capacity (map.indexFor key) d) = .empty := by
    rcases hValid.table.probe hStop hFirst with ⟨v, hHeld⟩ | ⟨hCell, -⟩
    · exact absurd hHeld (hAbsent _ (pos_lt (by omega) _ _) v)
    · exact (cell_eq_empty_iff _).mp hCell
  rw [hProbe]
  refine ⟨hEmpty, ?_⟩
  cases hFind : ((List.range d).map (pos map.capacity (map.indexFor key))).find?
      fun slot => map.stateAt slot == .tombstone with
  | none => exact ⟨d, hd, Option.getD_none, fun e he => ne_empty_of_not_stops (hFirst e he), hEmpty⟩
  | some slot =>
    obtain ⟨e, he, rfl⟩ := mem_map.mp (mem_of_find?_eq_some hFind)
    have hTomb := List.find?_some hFind
    have heLt := mem_range.mp he
    refine ⟨e, heLt.trans hd, Option.getD_some, fun c hc => ?_, by simpa using hTomb⟩
    exact ne_empty_of_not_stops (hFirst c (hc.trans heLt))

omit [KeyHash K] [DecidableEq K] in
theorem cell_place (hKeys : map.keys.length = map.capacity)
    (hValues : map.values.length = map.capacity) (hState : map.state.length = map.capacity)
    {firstTombstone : Option Nat} (key : K) (value : V)
    (hTarget : firstTombstone.getD slot < map.capacity) (s : Nat) :
    (map.place slot firstTombstone key value).cell s =
      if s = firstTombstone.getD slot then .occupied key value else map.cell s := by
  unfold cell stateAt keyAt valueAt place
  by_cases hs : s = firstTombstone.getD slot
  · subst hs
    simp [hKeys, hValues, hState, hTarget]
  · simp [hs, List.getElem?_set_ne (Ne.symm hs)]

theorem Valid.place_spec (hValid : map.Valid) (value : V) (hNone : map.find key = none)
    (hRoom : map.occupied + map.tombstones + 1 ≤ map.capacity * 7 / 10) :
    Inserted map key value (map.place (map.probe key).1 (map.probe key).2 key value) := by
  have hCapacity := hValid.capacity_ge
  have hAbsent := (hValid.find_eq_none_iff key).mp hNone
  obtain ⟨-, d, hd, hTarget, hPath, hWas⟩ := hValid.target_spec hNone
  have hTargetLt : (map.probe key).2.getD (map.probe key).1 < map.capacity := by
    rw [hTarget]
    exact pos_lt (by omega) _ _
  have hCell := cell_place hValid.keys_length hValid.values_length hValid.state_length key value
    hTargetLt
  have hLtState : (map.probe key).2.getD (map.probe key).1 < map.state.length := by
    rw [hValid.state_length]
    exact hTargetLt
  -- The state overwritten decides which counters move.
  have hOld : map.state[(map.probe key).2.getD (map.probe key).1] =
      if (map.probe key).2.isSome then .tombstone else .empty := by
    rw [← stateAt_eq_getElem hLtState, hTarget]
    exact hWas
  have hOccupied : (map.state.set ((map.probe key).2.getD (map.probe key).1) .occupied).count
      .occupied = map.occupied + 1 := by
    rw [count_set hLtState, hOld, ← hValid.occupied_eq]
    cases (map.probe key).2.isSome <;> simp
  have hTombstones : (map.state.set ((map.probe key).2.getD (map.probe key).1) .occupied).count
      .tombstone = if (map.probe key).2.isSome then map.tombstones - 1 else map.tombstones := by
    rw [count_set hLtState, hOld, ← hValid.tombstones_eq]
    cases (map.probe key).2.isSome <;> simp
  have hValid' : (map.place (map.probe key).1 (map.probe key).2 key value).Valid :=
    { keys_length := by simp [place, hValid.keys_length]
      values_length := by simp [place, hValid.values_length]
      state_length := by simp [place, hValid.state_length]
      power := hValid.power
      mask_eq := hValid.mask_eq
      occupied_eq := hOccupied.symm
      tombstones_eq := hTombstones.symm
      load := by
        show map.occupied + 1 +
          (if (map.probe key).2.isSome then map.tombstones - 1 else map.tombstones) ≤ _
        split <;> exact le_trans (by omega) hRoom
      table := hValid.table.place hd hAbsent hPath fun s _ => by rw [← hTarget]; exact hCell s }
  refine ⟨hValid', fun k => ?_, rfl⟩
  apply Option.ext
  intro v
  rw [hValid'.find_eq_some_iff]
  show (∃ s < map.capacity, _) ↔ _
  simp only [hCell]
  by_cases hk : k = key
  · subst hk
    rw [if_pos rfl, Option.some.injEq]
    constructor
    · intro ⟨s, hs, hHeld⟩
      split at hHeld
      · exact (Cell.occupied.inj hHeld).2
      · exact absurd hHeld (hAbsent s hs v)
    · intro hEq
      exact ⟨_, hTargetLt, by rw [if_pos rfl, hEq]⟩
  · rw [if_neg hk, hValid.find_eq_some_iff]
    refine exists_congr fun s => and_congr_right fun _ => ?_
    split
    · next hs =>
        -- The target held no key before.
        have hFree : map.cell s ≠ .occupied k v := by
          intro hHeld
          obtain ⟨hOccupied, -, -⟩ := (cell_eq_occupied_iff _ _ _).mp hHeld
          rw [hs, hTarget, hWas] at hOccupied
          split at hOccupied <;> contradiction
        exact ⟨fun h => absurd (Cell.occupied.inj h).1.symm hk, fun h => absurd h hFree⟩
    · exact Iff.rfl

/-- Inserting an absent key into a table with room: no growth, one placement. -/
theorem Valid.insertWith_room (hValid : map.Valid) (grow : FlatHashMap K V → FlatHashMap K V)
    (value : V) (hNone : map.find key = none)
    (hRoom : map.occupied + map.tombstones + 1 ≤ map.capacity * 7 / 10) :
    map.insertWith grow key value =
      (map.place (map.probe key).1 (map.probe key).2 key value, true) := by
  have hNoGrowth : map.needsGrowth = false := by
    simp only [needsGrowth, decide_eq_false_iff_not]
    omega
  have hEmpty := (hValid.target_spec hNone).1
  simp [insertWith, hNoGrowth, hEmpty]

/-! ## Growth -/

omit [DecidableEq K] in
theorem Valid.growCapacity_spec (hValid : map.Valid) :
    (∃ k, map.growCapacity = 2 ^ (k + 3)) ∧
      map.occupied + 1 ≤ map.growCapacity * 7 / 10 := by
  refine ⟨doubleUntil_power _ _ hValid.power, ?_⟩
  have hEnough := doubleUntil_enough
    (fun capacity => decide (map.occupied + 1 ≤ capacity * 7 / 10)) map.capacity
    (le_refl (map.occupied + 1)) (by
      rw [decide_eq_true_eq]
      have hCapacity := hValid.capacity_ge
      have hPow : map.occupied + 1 < 2 ^ (map.occupied + 1) := Nat.lt_two_pow_self
      have hProduct := Nat.mul_le_mul hCapacity (le_refl (2 ^ (map.occupied + 1)))
      omega)
  exact of_decide_eq_true hEnough

omit [DecidableEq K] in
theorem Valid.count_take (hValid : map.Valid) {n : Nat} (hn : n < map.capacity) :
    (map.state.take (n + 1)).count .occupied =
      (map.state.take n).count .occupied + (if map.stateAt n = .occupied then 1 else 0) := by
  have hLt : n < map.state.length := by rwa [hValid.state_length]
  rw [take_add_one, count_append, stateAt_eq_getElem hLt, List.getElem?_eq_getElem hLt]
  cases map.state[n] <;> simp

omit [DecidableEq K] in
/-- Every entry fits behind those before it. -/
theorem Valid.room_for (hValid : map.Valid) {n : Nat} (hn : n < map.capacity)
    (hState : map.stateAt n = .occupied) :
    (map.state.take n).count .occupied + 0 + 1 ≤ map.growCapacity * 7 / 10 := by
  have hTake := hValid.count_take hn
  have hLe : (map.state.take (n + 1)).count .occupied ≤ map.occupied := by
    rw [hValid.occupied_eq]
    exact (take_sublist _ _).count_le _
  have hRoom := hValid.growCapacity_spec.2
  rw [if_pos hState] at hTake
  omega

/-- The rebuild loop after `n` old slots: it holds exactly their entries, has no
tombstones, and had room for each of them. -/
theorem rebuild_spec (hValid : map.Valid) (n : Nat) (hn : n ≤ map.capacity) :
    (map.rebuilt n).Valid ∧ (map.rebuilt n).capacity = map.growCapacity ∧
      (map.rebuilt n).tombstones = 0 ∧
      (map.rebuilt n).occupied = (map.state.take n).count .occupied ∧
      ∀ k v, (map.rebuilt n).find k = some v ↔ ∃ s < n, map.cell s = .occupied k v := by
  have hPower := hValid.growCapacity_spec.1
  induction n with
  | zero =>
    -- Counting rebuilds does not touch the arrays.
    have hFresh := valid_resize map hPower
    refine ⟨⟨hFresh.1, hFresh.2, hFresh.3, hFresh.4, hFresh.5, hFresh.6, hFresh.7, hFresh.8,
      hFresh.9⟩, rfl, rfl, rfl, fun k v => ?_⟩
    have hNone := find_resize map hPower k
    constructor
    · intro hFind
      exact absurd (hNone.symm.trans hFind) (by simp)
    · intro ⟨s, hs, _⟩
      omega
  | succ n ih =>
    obtain ⟨hFresh, hCap, hTomb, hOcc, hFind⟩ := ih (by omega)
    have hTake := hValid.count_take hn
    have hNext : map.rebuilt (n + 1) = if map.stateAt n = .occupied then
        ((map.rebuilt n).insertWith id (map.keyAt n) (map.valueAt n)).1 else map.rebuilt n := by
      unfold rebuilt
      rw [range_succ, foldl_append, foldl_cons, foldl_nil]
    rw [hNext]
    generalize map.rebuilt n = fresh at hFresh hCap hTomb hOcc hFind ⊢
    by_cases hState : map.stateAt n = .occupied
    · rw [if_pos hState] at hTake ⊢
      have hCell : map.cell n = .occupied (map.keyAt n) (map.valueAt n) :=
        (cell_eq_occupied_iff _ _ _).mpr ⟨hState, rfl, rfl⟩
      have hNone : fresh.find (map.keyAt n) = none := by
        rw [Option.eq_none_iff_forall_ne_some]
        intro v hv
        obtain ⟨s, hs, hOther⟩ := (hFind _ _).mp hv
        have := hValid.table.unique s (by omega) n (by omega) _ _ _ hOther hCell
        omega
      have hRoom' : fresh.occupied + fresh.tombstones + 1 ≤ fresh.capacity * 7 / 10 := by
        rw [hCap, hTomb, hOcc]
        exact hValid.room_for hn hState
      have hTomb' : (fresh.place (fresh.probe (map.keyAt n)).1
          (fresh.probe (map.keyAt n)).2 (map.keyAt n) (map.valueAt n)).tombstones = 0 := by
        simp [place, hTomb]
      rw [hFresh.insertWith_room id _ hNone hRoom']
      obtain ⟨hNew, hNewFind, hNewSize⟩ := hFresh.place_spec (map.valueAt n) hNone hRoom'
      refine ⟨hNew, hCap, hTomb', ?_, fun k v => ?_⟩
      · rw [hNewSize, hOcc, hTake]
      · rw [hNewFind]
        by_cases hk : k = map.keyAt n
        · rw [if_pos hk, Option.some.injEq]
          constructor
          · intro hv
            exact ⟨n, by omega, by rw [hCell, hk, hv]⟩
          · intro ⟨s, hs, hOther⟩
            rw [hk] at hOther
            obtain rfl := hValid.table.unique s (by omega) n (by omega) _ _ _ hOther hCell
            rw [hCell] at hOther
            exact (Cell.occupied.inj hOther).2
        · rw [if_neg hk, hFind]
          constructor
          · intro ⟨s, hs, hOther⟩
            exact ⟨s, by omega, hOther⟩
          · intro ⟨s, hs, hOther⟩
            refine ⟨s, ?_, hOther⟩
            by_contra hGe
            obtain rfl : s = n := by omega
            rw [hCell] at hOther
            exact hk (Cell.occupied.inj hOther).1.symm
    · rw [if_neg hState] at hTake ⊢
      refine ⟨hFresh, hCap, hTomb, by rw [hOcc, hTake, Nat.add_zero], fun k v => ?_⟩
      rw [hFind]
      constructor
      · intro ⟨s, hs, hOther⟩
        exact ⟨s, by omega, hOther⟩
      · intro ⟨s, hs, hOther⟩
        refine ⟨s, ?_, hOther⟩
        by_contra hGe
        obtain rfl : s = n := by omega
        exact hState ((cell_eq_occupied_iff _ _ _).mp hOther).1

/-- Growth keeps every entry and makes room for one more. -/
theorem Valid.grow_spec (hValid : map.Valid) :
    map.grow.Valid ∧ (∀ k, map.grow.find k = map.find k) ∧
      map.grow.occupied = map.occupied ∧
      map.grow.occupied + map.grow.tombstones + 1 ≤ map.grow.capacity * 7 / 10 := by
  obtain ⟨hGrown, hCap, hTomb, hOcc, hFind⟩ :=
    rebuild_spec hValid map.state.length hValid.state_length.le
  rw [← grow] at hGrown hCap hTomb hOcc
  rw [take_length, ← hValid.occupied_eq] at hOcc
  refine ⟨hGrown, fun k => ?_, hOcc, ?_⟩
  · apply Option.ext
    intro v
    rw [hValid.find_eq_some_iff, ← hValid.state_length]
    exact hFind k v
  · rw [hCap, hTomb, hOcc]
    exact hValid.growCapacity_spec.2

/-! ## The map's operations -/

/-- Inserting an absent key adds it and reports true. -/
theorem Valid.insert (hValid : map.Valid) (value : V) (hNone : map.find key = none) :
    (map.insert key value).2 = true ∧ Inserted map key value (map.insert key value).1 := by
  by_cases hGrow : map.needsGrowth = true
  · obtain ⟨hGrown, hFind, hSize, hRoom⟩ := hValid.grow_spec
    have hNone' : map.grow.find key = none := by rw [hFind, hNone]
    -- Growing first is inserting into the grown table, which has room.
    have hInsert : map.insert key value = map.grow.insertWith id key value := by
      have hNoGrowth : map.grow.needsGrowth = false := by
        simp only [needsGrowth, decide_eq_false_iff_not]
        omega
      simp [FlatHashMap.insert, insertWith, hGrow, hNoGrowth]
    rw [hInsert, hGrown.insertWith_room id value hNone' hRoom]
    obtain ⟨hNew, hNewFind, hNewSize⟩ := hGrown.place_spec value hNone' hRoom
    refine ⟨rfl, hNew, fun k => ?_, ?_⟩
    · rw [hNewFind, hFind]
    · rw [hNewSize, hSize]
  · have hRoom : map.occupied + map.tombstones + 1 ≤ map.capacity * 7 / 10 := by
      simpa [needsGrowth] using hGrow
    rw [FlatHashMap.insert, hValid.insertWith_room _ value hNone hRoom]
    exact ⟨rfl, hValid.place_spec value hNone hRoom⟩

omit [KeyHash K] [DecidableEq K] in
theorem cell_bury (hState : map.state.length = map.capacity)
    (hLt : slot < map.capacity) (occupied tombstones s : Nat) :
    cell { map with state := map.state.set slot .tombstone
                    occupied := occupied
                    tombstones := tombstones } s =
      if s = slot then .tombstone else map.cell s := by
  unfold cell stateAt keyAt valueAt
  by_cases hs : s = slot
  · subst hs
    simp [hState, hLt]
  · simp [hs, List.getElem?_set_ne (Ne.symm hs)]

/-- Erasing a key removes it and nothing else. -/
theorem Valid.erase (hValid : map.Valid) {value : V} (hSome : map.find key = some value) :
    (map.erase key).1.Valid ∧
      (∀ k, (map.erase key).1.find k = if k = key then none else map.find k) ∧
      (map.erase key).1.occupied + 1 = map.occupied := by
  rcases hValid.locate_cases key with ⟨v, hHeld, hLt⟩ | ⟨-, hAbsent⟩
  case inr => exact absurd ((hValid.find_eq_none_iff key).mpr hAbsent) (by simp [hSome])
  obtain ⟨hState, -, -⟩ := (cell_eq_occupied_iff _ _ _).mp hHeld
  have hErase : (map.erase key).1 =
      { map with state := map.state.set (map.locate key) .tombstone
                 occupied := map.occupied - 1
                 tombstones := map.tombstones + 1 } := by
    simp [FlatHashMap.erase, hState]
  have hLtState : map.locate key < map.state.length := by rwa [hValid.state_length]
  have hOld : map.state[map.locate key] = .occupied := by
    rw [← stateAt_eq_getElem hLtState, hState]
  have hPos : 0 < map.occupied := by
    rw [hValid.occupied_eq, count_pos_iff]
    exact mem_iff_getElem.mpr ⟨_, hLtState, hOld⟩
  have hCell := cell_bury hValid.state_length hLt (map.occupied - 1) (map.tombstones + 1)
  have hValid' : (map.erase key).1.Valid := by
    rw [hErase]
    exact
      { keys_length := hValid.keys_length
        values_length := hValid.values_length
        state_length := by simp [hValid.state_length]
        power := hValid.power
        mask_eq := hValid.mask_eq
        occupied_eq := by
          rw [count_set hLtState, hOld, ← hValid.occupied_eq]
          simp
        tombstones_eq := by
          rw [count_set hLtState, hOld, ← hValid.tombstones_eq]
          simp
        load := by
          have hLoad := hValid.load
          show map.occupied - 1 + (map.tombstones + 1) ≤ _
          exact le_trans (by omega) hLoad
        table := hValid.table.bury fun s _ => hCell s }
  refine ⟨hValid', fun k => ?_, ?_⟩
  · apply Option.ext
    intro v'
    rw [hValid'.find_eq_some_iff, hErase]
    show (∃ s < map.capacity, _) ↔ _
    simp only [hCell]
    by_cases hk : k = key
    · subst hk
      rw [if_pos rfl]
      refine ⟨fun ⟨s, hs, hOther⟩ => ?_, fun h => nomatch h⟩
      split at hOther
      · contradiction
      · next hNe => exact absurd (hValid.table.unique s hs _ hLt k _ _ hOther hHeld) hNe
    · rw [if_neg hk, hValid.find_eq_some_iff]
      refine exists_congr fun s => and_congr_right fun _ => ?_
      split
      · next hs =>
          refine ⟨fun h => (nomatch h), fun hOther => ?_⟩
          rw [hs, hHeld] at hOther
          exact absurd (Cell.occupied.inj hOther).1.symm hk
      · exact Iff.rfl
  · rw [hErase]
    show map.occupied - 1 + 1 = map.occupied
    omega

end Spec

/-- An identifier hashes to its own value. -/
instance {tag : IdTag} : KeyHash (Id tag) := ⟨fun id => UInt64.ofNat id.value⟩

end FlatHashMap
end ExchangeCore
