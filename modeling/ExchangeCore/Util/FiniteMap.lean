import Mathlib.Data.List.AList
import ExchangeCore.Lib.Machine
import ExchangeCore.Util.FlatHashMap

/-!
# The hash map as a finite map

Beside the table stands a finite map from keys to values, and the four operations act
on both.  Whatever the hash of the keys, the collisions, the tombstones and the number
of rebuilds, the two answer alike (`flatHashMap_is_finite_map`).

The sizes of the table are unbounded numbers here and 64-bit words in the source.  With
fewer than `2 ^ 59` keys at a time the capacity stays at most `2 ^ 60`, so nothing the
source computes from it leaves a word.
-/

namespace ExchangeCore

open LinearProbing

/-- An operation of a map. -/
inductive MapCommand (K V : Type)
  | insert (key : K) (value : V)
  | erase (key : K)
  | find (key : K)
  | clear
  deriving DecidableEq

/-- What it answers. -/
inductive MapReply (V : Type)
  | inserted (added : Bool)
  | erased (removed : Bool)
  | found (value : Option V)
  | cleared
  deriving DecidableEq

variable {K V : Type} [DecidableEq K]

/-- The operations on a finite map. -/
def finiteMapObey (bindings : AList fun _ : K => V) :
    MapCommand K V → (AList fun _ : K => V) × MapReply V
  | .insert key value =>
    if (bindings.lookup key).isSome then (bindings, .inserted false)
    else (bindings.insert key value, .inserted true)
  | .erase key => (bindings.erase key, .erased (bindings.lookup key).isSome)
  | .find key => (bindings, .found (bindings.lookup key))
  | .clear => (∅, .cleared)

namespace FlatHashMap

/-- The slots that a table may have. -/
def kCapacityBound : Nat := 2 ^ 60

section Obey

variable [Inhabited K] [Inhabited V] [KeyHash K]

def obey (map : FlatHashMap K V) : MapCommand K V → FlatHashMap K V × MapReply V
  | .insert key value => ((map.insert key value).1, .inserted (map.insert key value).2)
  | .erase key => ((map.erase key).1, .erased (map.erase key).2)
  | .find key => (map, .found (map.find key))
  | .clear => (map.clear, .cleared)

end Obey

/-! ## Capacities -/

/-- A power of two that is doubled only while its exponent is below sixty. -/
theorem doubleUntil_le {enough : Nat → Bool} (hEnough : ∀ k, enough (2 ^ k) = false → k < 60)
    (fuel : Nat) {k : Nat} (hk : k ≤ 60) : doubleUntil enough fuel (2 ^ k) ≤ kCapacityBound := by
  induction fuel generalizing k with
  | zero => exact Nat.pow_le_pow_right (by decide) hk
  | succ fuel ih =>
    rw [doubleUntil]
    split
    · exact Nat.pow_le_pow_right (by decide) hk
    next hMore =>
    rw [← Nat.pow_succ]
    exact ih (hEnough k (Bool.not_eq_true _ ▸ hMore))

section Capacity

variable [Inhabited K] [Inhabited V] [KeyHash K] {map : FlatHashMap K V}

omit [DecidableEq K] [KeyHash K] in
theorem capacity_create {minimumCapacity : Nat} (hMinimum : minimumCapacity ≤ 2 ^ 60) :
    (create minimumCapacity : FlatHashMap K V).capacity ≤ kCapacityBound := by
  show doubleUntil _ _ (2 ^ 3) ≤ _
  refine doubleUntil_le (fun k hShort => ?_) _ (by decide)
  have hLess : 2 ^ k < if minimumCapacity < 8 then 8 else minimumCapacity :=
    not_le.mp (of_decide_eq_false hShort)
  have hBelow : 2 ^ k < 2 ^ 60 := by
    split at hLess
    · exact hLess.trans (by decide)
    · exact hLess.trans_le hMinimum
  exact (Nat.pow_lt_pow_iff_right (by decide)).mp hBelow

omit [DecidableEq K] in
theorem Valid.growCapacity_le (hValid : map.Valid) (hCapacity : map.capacity ≤ kCapacityBound)
    (hLive : map.occupied + 1 ≤ 2 ^ 59) : map.growCapacity ≤ kCapacityBound := by
  obtain ⟨k, hk⟩ := hValid.power
  unfold growCapacity
  dsimp only
  rw [hk]
  refine doubleUntil_le (fun j hShort => ?_) _ ?_
  · have hFew : 2 ^ j * 7 / 10 < 2 ^ 59 :=
      (not_le.mp (of_decide_eq_false hShort)).trans_le hLive
    by_contra hLarge
    have hPow : 2 ^ 60 ≤ 2 ^ j := Nat.pow_le_pow_right (by decide) (not_lt.mp hLarge)
    omega
  · rw [hk, kCapacityBound] at hCapacity
    exact (Nat.pow_le_pow_iff_right (by decide)).mp hCapacity

theorem Valid.capacity_grow (hValid : map.Valid) : map.grow.capacity = map.growCapacity :=
  (rebuild_spec hValid map.state.length hValid.state_length.le).2.1

theorem capacity_insert (key : K) (value : V) :
    (map.insert key value).1.capacity =
      if map.needsGrowth then map.grow.capacity else map.capacity := by
  unfold FlatHashMap.insert insertWith
  dsimp only
  split <;> split <;> rfl

end Capacity

/-! ## Operations on present and absent keys -/

section Operations

variable [Inhabited K] [Inhabited V] [KeyHash K] {map : FlatHashMap K V} {key : K}

/-- A table that needs to grow does so even for a key it turns out to have. -/
theorem Valid.insert_of_some (hValid : map.Valid) {old : V}
    (hSome : map.find key = some old) (value : V) :
    (map.insert key value).2 = false ∧ (map.insert key value).1.Valid ∧
      (∀ k, (map.insert key value).1.find k = map.find k) ∧
      (map.insert key value).1.occupied = map.occupied := by
  have hPresent : ∀ other : FlatHashMap K V, other.Valid → other.find key = some old →
      other.stateAt (other.probe key).1 ≠ .empty := by
    intro other hOther hFind hEmpty
    rcases hOther.locate_cases key with ⟨v, hHeld, -⟩ | ⟨-, hAbsent⟩
    · have hState := ((cell_eq_occupied_iff _ _ _).mp hHeld).1
      rw [locate, hEmpty] at hState
      contradiction
    · rw [(hOther.find_eq_none_iff key).mpr hAbsent] at hFind
      contradiction
  obtain ⟨hGrown, hFindGrown, hSizeGrown, -⟩ := hValid.grow_spec
  unfold FlatHashMap.insert insertWith
  dsimp only
  cases map.needsGrowth with
  | true =>
    rw [if_pos rfl, if_neg (hPresent map.grow hGrown ((hFindGrown key).trans hSome))]
    exact ⟨rfl, hGrown, hFindGrown, hSizeGrown⟩
  | false =>
    rw [if_neg Bool.false_ne_true, if_neg (hPresent map hValid hSome)]
    exact ⟨rfl, hValid, fun _ => rfl, rfl⟩

theorem erase_of_none (hNone : map.find key = none) : map.erase key = (map, false) := by
  have hState : map.stateAt (map.locate key) ≠ .occupied := by
    intro hOccupied
    unfold find at hNone
    dsimp only at hNone
    rw [if_pos hOccupied] at hNone
    contradiction
  unfold FlatHashMap.erase
  dsimp only
  rw [if_pos hState]

theorem erase_of_some {value : V} (hSome : map.find key = some value) :
    (map.erase key).2 = true ∧ (map.erase key).1.capacity = map.capacity := by
  have hState : map.stateAt (map.locate key) = .occupied := by
    by_contra hOther
    unfold find at hSome
    dsimp only at hSome
    rw [if_neg hOther] at hSome
    contradiction
  unfold FlatHashMap.erase
  dsimp only
  rw [if_neg (not_not.mpr hState)]
  exact ⟨rfl, rfl⟩

omit [DecidableEq K] [KeyHash K] in
theorem cell_clear (slot : Nat) : map.clear.cell slot = .empty := by
  rw [cell_eq_empty_iff]
  simp only [stateAt, clear, List.getElem?_replicate]
  split <;> rfl

omit [DecidableEq K] in
theorem Valid.clear (hValid : map.Valid) : map.clear.Valid where
  keys_length := hValid.keys_length
  values_length := hValid.values_length
  state_length := List.length_replicate
  power := hValid.power
  mask_eq := hValid.mask_eq
  occupied_eq := by simp [FlatHashMap.clear, List.count_replicate]
  tombstones_eq := by simp [FlatHashMap.clear, List.count_replicate]
  load := Nat.zero_le _
  table := table_of_all_empty _ cell_clear

theorem Valid.find_clear (hValid : map.Valid) (key : K) : map.clear.find key = none := by
  rw [hValid.clear.find_eq_none_iff]
  intro s _ v hHeld
  rw [cell_clear] at hHeld
  contradiction

end Operations

/-! ## The table stands for a finite map -/

section Represents

variable [Inhabited K] [Inhabited V] [KeyHash K]

structure Represents (map : FlatHashMap K V) (bindings : AList fun _ : K => V) : Prop where
  valid : map.Valid
  find_eq : ∀ key, map.find key = bindings.lookup key
  size_eq : map.size = bindings.keys.length
  capacity_le : map.capacity ≤ kCapacityBound

theorem represents_create {minimumCapacity : Nat} (hMinimum : minimumCapacity ≤ 2 ^ 60) :
    (create minimumCapacity : FlatHashMap K V).Represents ∅ where
  valid := valid_create minimumCapacity
  find_eq := fun key => find_create minimumCapacity key
  size_eq := rfl
  capacity_le := capacity_create hMinimum

variable {map : FlatHashMap K V} {bindings : AList fun _ : K => V} (hRep : map.Represents bindings)
include hRep

theorem Represents.capacity_insert_le
    (hSmall : bindings.keys.length < 2 ^ 59) (key : K) (value : V) :
    (map.insert key value).1.capacity ≤ kCapacityBound := by
  have hLive : map.occupied + 1 ≤ 2 ^ 59 := by
    have hSize : map.occupied = bindings.keys.length := hRep.size_eq
    omega
  rw [capacity_insert, hRep.valid.capacity_grow]
  split
  · exact hRep.valid.growCapacity_le hRep.capacity_le hLive
  · exact hRep.capacity_le

theorem Represents.insert (hSmall : bindings.keys.length < 2 ^ 59) (key : K) (value : V) :
    (map.obey (.insert key value)).2 = (finiteMapObey bindings (.insert key value)).2 ∧
      (map.obey (.insert key value)).1.Represents
        (finiteMapObey bindings (.insert key value)).1 := by
  have hCapacity := hRep.capacity_insert_le hSmall key value
  have hSize : map.occupied = bindings.keys.length := hRep.size_eq
  dsimp only [obey, finiteMapObey]
  rw [← hRep.find_eq]
  cases hFind : map.find key with
  | some old =>
    obtain ⟨hReply, hValid, hSame, hOccupied⟩ := hRep.valid.insert_of_some hFind value
    rw [if_pos (Option.isSome_some), hReply]
    exact ⟨rfl, hValid, fun k => (hSame k).trans (hRep.find_eq k), hOccupied.trans hSize, hCapacity⟩
  | none =>
    obtain ⟨hReply, hValid, hFinds, hOccupied⟩ := hRep.valid.insert value hFind
    have hAbsent : key ∉ bindings.keys :=
      AList.lookup_eq_none.mp ((hRep.find_eq key).symm.trans hFind)
    rw [if_neg (by simp), hReply]
    refine ⟨rfl, hValid, fun k => ?_, ?_, hCapacity⟩
    · rw [hFinds]
      split
      · next hSame => rw [hSame, AList.lookup_insert]
      · next hOther => rw [AList.lookup_insert_ne hOther, hRep.find_eq]
    · rw [AList.keys_insert, List.erase_of_not_mem hAbsent, List.length_cons, ← hSize]
      exact hOccupied

theorem Represents.erase (key : K) :
    (map.obey (.erase key)).2 = (finiteMapObey bindings (.erase key)).2 ∧
      (map.obey (.erase key)).1.Represents (finiteMapObey bindings (.erase key)).1 := by
  have hSize : map.occupied = bindings.keys.length := hRep.size_eq
  dsimp only [obey, finiteMapObey]
  rw [← hRep.find_eq]
  cases hFind : map.find key with
  | none =>
    have hAbsent : key ∉ bindings.keys :=
      AList.lookup_eq_none.mp ((hRep.find_eq key).symm.trans hFind)
    rw [erase_of_none hFind]
    refine ⟨rfl, hRep.valid, fun k => ?_, ?_, hRep.capacity_le⟩
    · by_cases hSame : k = key
      · rw [hSame, AList.lookup_erase, hFind]
      · rw [AList.lookup_erase_ne hSame, hRep.find_eq]
    · rw [AList.keys_erase, List.erase_of_not_mem hAbsent]
      exact hSize
  | some value =>
    obtain ⟨hReply, hCapacity⟩ := erase_of_some hFind
    obtain ⟨hValid, hFinds, hOccupied⟩ := hRep.valid.erase hFind
    have hPresent : key ∈ bindings.keys := by
      refine AList.lookup_isSome.mp ?_
      rw [← hRep.find_eq, hFind]
      rfl
    rw [hReply]
    refine ⟨rfl, hValid, fun k => ?_, ?_, hCapacity ▸ hRep.capacity_le⟩
    · rw [hFinds]
      split
      · next hSame => rw [hSame, AList.lookup_erase]
      · next hOther => rw [AList.lookup_erase_ne hOther, hRep.find_eq]
    · have hLength := List.length_erase_of_mem hPresent
      have hSizeNow : (map.erase key).1.size = (map.erase key).1.occupied := rfl
      rw [AList.keys_erase]
      omega

theorem Represents.obey (hSmall : bindings.keys.length < 2 ^ 59) (command : MapCommand K V) :
    (map.obey command).2 = (finiteMapObey bindings command).2 ∧
      (map.obey command).1.Represents (finiteMapObey bindings command).1 := by
  cases command with
  | insert key value => exact hRep.insert hSmall key value
  | erase key => exact hRep.erase key
  | find key =>
    dsimp only [FlatHashMap.obey, finiteMapObey]
    rw [hRep.find_eq]
    exact ⟨rfl, hRep⟩
  | clear =>
    refine ⟨rfl, hRep.valid.clear, fun key => ?_, rfl, hRep.capacity_le⟩
    exact hRep.valid.find_clear key

end Represents

/-! ## Runs -/

section Runs

variable [Inhabited K] [Inhabited V] [KeyHash K]

/-- What a run of operations answers, with the size after each. -/
def transcript (map : FlatHashMap K V) : List (MapCommand K V) → List (MapReply V × Nat)
  | [] => []
  | command :: commands =>
    ((map.obey command).2, (map.obey command).1.size) :: (map.obey command).1.transcript commands

/-- The same of the finite map, its size being the number of its keys. -/
def finiteTranscript (bindings : AList fun _ : K => V) :
    List (MapCommand K V) → List (MapReply V × Nat)
  | [] => []
  | command :: commands =>
    ((finiteMapObey bindings command).2, (finiteMapObey bindings command).1.keys.length) ::
      finiteTranscript (finiteMapObey bindings command).1 commands

theorem Represents.run {map : FlatHashMap K V} {bindings : AList fun _ : K => V}
    (hRep : map.Represents bindings) {commands : List (MapCommand K V)}
    (hSmall : Machine.Always (fun bindings command => (finiteMapObey bindings command).1)
      (fun bindings : AList fun _ : K => V => bindings.keys.length < 2 ^ 59) bindings commands) :
    map.transcript commands = finiteTranscript bindings commands ∧
      Machine.Always (fun map command => (FlatHashMap.obey map command).1)
        (fun map : FlatHashMap K V => map.Valid ∧ map.capacity ≤ kCapacityBound) map commands := by
  induction commands generalizing map bindings with
  | nil => exact ⟨rfl, hRep.valid, hRep.capacity_le⟩
  | cons command commands ih =>
    obtain ⟨hReply, hNext⟩ := hRep.obey hSmall.1 command
    obtain ⟨hLater, hCapacities⟩ := ih hNext hSmall.2
    refine ⟨?_, ⟨hRep.valid, hRep.capacity_le⟩, hCapacities⟩
    rw [transcript, finiteTranscript, hReply, hNext.size_eq, hLater]

/-- For every initial capacity up to `2 ^ 60` and every sequence of operations during
which fewer than `2 ^ 59` keys are bound at a time: each operation answers, and leaves
the size, as the same operation on a finite map; and no size the source computes
wraps. -/
theorem flatHashMap_is_finite_map (initialCapacity : Nat) (hInitial : initialCapacity ≤ 2 ^ 60)
    (commands : List (MapCommand K V))
    (hSmall : Machine.Always (fun bindings command => (finiteMapObey bindings command).1)
      (fun bindings : AList fun _ : K => V => bindings.keys.length < 2 ^ 59) ∅ commands) :
    (create initialCapacity : FlatHashMap K V).transcript commands = finiteTranscript ∅ commands ∧
      Machine.Always (fun map command => (FlatHashMap.obey map command).1)
        (fun map : FlatHashMap K V => map.capacity * 7 < 2 ^ 64) (create initialCapacity)
        commands := by
  obtain ⟨hAnswers, hCapacities⟩ := (represents_create hInitial).run hSmall
  refine ⟨hAnswers, hCapacities.imp fun map ⟨_, hCapacity⟩ => ?_⟩
  have hBound : kCapacityBound = 2 ^ 60 := rfl
  omega

/-- A probe for the key comes to an empty slot or to the key, in fewer steps than there are
slots and no sooner than the loop stops. -/
def ProbeEnds (map : FlatHashMap K V) (key : K) : Prop :=
  ∃ d < map.capacity, map.locate key = map.nextSlot^[d] (map.indexFor key) ∧
    (map.stateAt (map.locate key) = .empty ∨
      map.stateAt (map.locate key) = .occupied ∧ map.keyAt (map.locate key) = key) ∧
    ∀ e < d, map.probeStops key (map.nextSlot^[e] (map.indexFor key)) = false

/-- What ends every probe of a table: of its lookups, of its insertions, and of the
re-insertions of a rebuild, which do not rebuild in turn. -/
structure Probes (map : FlatHashMap K V) : Prop where
  power : ∃ k, map.capacity = 2 ^ k
  capacity_ge : 8 ≤ map.capacity
  load : map.occupied + map.tombstones ≤ map.capacity * 7 / 10
  spare : map.capacity * 7 / 10 < map.capacity
  occupied_eq : map.occupied = map.state.count .occupied
  tombstones_eq : map.tombstones = map.state.count .tombstone
  locate : ∀ key, map.ProbeEnds key
  insert : ∀ key, (if map.needsGrowth then map.grow else map).ProbeEnds key
  reinsert : ∀ n < map.state.length, map.stateAt n = .occupied →
    (map.rebuilt n).needsGrowth = false ∧ (map.rebuilt n).ProbeEnds (map.keyAt n)

theorem Valid.probeEnds {map : FlatHashMap K V} (hValid : map.Valid) (key : K) :
    map.ProbeEnds key := by
  obtain ⟨d, hd, hStop, hFirst, hProbe⟩ := hValid.probe_spec key
  have hIterate : ∀ e, map.nextSlot^[e] (map.indexFor key) =
      pos map.capacity (map.indexFor key) e := by
    intro e
    induction e with
    | zero => exact (pos_zero (hValid.indexFor_lt key)).symm
    | succ e ih =>
      rw [Function.iterate_succ_apply', ih, nextSlot, hValid.and_mask, pos_succ]
  have hLocate : map.locate key = pos map.capacity (map.indexFor key) d := by
    rw [FlatHashMap.locate, hProbe]
  refine ⟨d, hd, hLocate.trans (hIterate d).symm, ?_, fun e he => ?_⟩
  · rw [← hLocate, ← probeStops_eq] at hStop
    simpa [probeStops] using hStop
  · rw [hIterate, probeStops_eq]
    exact hFirst e he

theorem Valid.probes {map : FlatHashMap K V} (hValid : map.Valid) : map.Probes where
  power := hValid.power.imp' (· + 3) fun _ hk => hk
  capacity_ge := hValid.capacity_ge
  load := hValid.load
  spare := by
    have hCapacity := hValid.capacity_ge
    omega
  occupied_eq := hValid.occupied_eq
  tombstones_eq := hValid.tombstones_eq
  locate := hValid.probeEnds
  insert := by
    split
    · exact hValid.grow_spec.1.probeEnds
    · exact hValid.probeEnds
  reinsert := by
    intro n hn hState
    rw [hValid.state_length] at hn
    obtain ⟨hFresh, hCap, hTomb, hOcc, -⟩ := rebuild_spec hValid n hn.le
    refine ⟨decide_eq_false (Nat.not_lt.mpr ?_), hFresh.probeEnds _⟩
    rw [hCap, hTomb, hOcc]
    exact hValid.room_for hn hState

/-- In every state of such a run every probe ends. -/
theorem flatHashMap_probes_end (initialCapacity : Nat) (hInitial : initialCapacity ≤ 2 ^ 60)
    (commands : List (MapCommand K V))
    (hSmall : Machine.Always (fun bindings command => (finiteMapObey bindings command).1)
      (fun bindings : AList fun _ : K => V => bindings.keys.length < 2 ^ 59) ∅ commands) :
    Machine.Always (fun map command => (FlatHashMap.obey map command).1)
      (fun map : FlatHashMap K V => map.Probes) (create initialCapacity) commands :=
  ((represents_create hInitial).run hSmall).2.imp fun _ hKept => hKept.1.probes

end Runs

/-- A smallest table that is filled past its load, by keys one of which leaves a
tombstone and comes back. -/
def sampleMapCommands : List (MapCommand OrderId Nat) :=
  [.insert ⟨1⟩ 10, .insert ⟨2⟩ 20, .insert ⟨3⟩ 30, .insert ⟨1⟩ 11, .erase ⟨2⟩, .erase ⟨2⟩,
    .insert ⟨2⟩ 21, .insert ⟨4⟩ 40, .insert ⟨5⟩ 50, .insert ⟨6⟩ 60, .find ⟨2⟩, .find ⟨7⟩, .clear,
    .find ⟨1⟩]

theorem flatHashMap_is_finite_map_sample :
    Machine.Always (fun bindings command => (finiteMapObey bindings command).1)
        (fun bindings : AList fun _ : OrderId => Nat => bindings.keys.length < 2 ^ 59) ∅
        sampleMapCommands ∧
      (create 0 : FlatHashMap OrderId Nat).transcript sampleMapCommands =
        finiteTranscript ∅ sampleMapCommands ∧
      Machine.Always (fun map command => (FlatHashMap.obey map command).1)
        (fun map : FlatHashMap OrderId Nat => map.capacity * 7 < 2 ^ 64) (create 0)
        sampleMapCommands := by
  have hSmall : Machine.Always (fun bindings command => (finiteMapObey bindings command).1)
      (fun bindings : AList fun _ : OrderId => Nat => bindings.keys.length < 2 ^ 59) ∅
      sampleMapCommands := by
    decide +kernel
  exact ⟨hSmall, flatHashMap_is_finite_map 0 (by decide) sampleMapCommands hSmall⟩

theorem flatHashMap_probes_end_sample :
    Machine.Always (fun map command => (FlatHashMap.obey map command).1)
      (fun map : FlatHashMap OrderId Nat => map.Probes) (create 0) sampleMapCommands :=
  flatHashMap_probes_end 0 (by decide) sampleMapCommands (by decide +kernel)

end FlatHashMap
end ExchangeCore
