import ExchangeCore.Lib.SummaryBitmap
import ExchangeCore.Core.PriceLevel

/-!
# The price ladder

One level per tick of the instrument's band, in a flat array, with a three
layer bitmap over the occupied ones.  Bids are traversed downwards and asks
upwards; the template parameter of the source is the field `descending`, and
its sentinel `kNpos` is `none`.

`Valid` is the ladder's own invariant: the summary layers describe the layer
below and `occupied` counts the set bits.  Under it the traversal from
`bestOccupied` along `nextOccupied` visits exactly the occupied levels, best
price first (`indices_eq`).
-/

namespace ExchangeCore

open SummaryBitmap LinkedList

structure PriceLadder where
  levels : List PriceLevel
  /-- One bit per tick. -/
  l0 : List Word
  /-- One bit per word of `l0`. -/
  l1 : List Word
  /-- One bit per word of `l1`. -/
  l2 : List Word
  occupied : Nat := 0
  minPrice : Int
  tick : Int
  descending : Bool
  deriving DecidableEq

namespace PriceLadder

/-- An empty ladder for a band of `tickCount` ticks. -/
def configure (descending : Bool) (minPrice tickSize : Int) (tickCount : Nat) : PriceLadder :=
  let size0 := (tickCount + 63) / 64
  let size1 := (size0 + 63) / 64
  let size2 := (size1 + 63) / 64
  { levels := List.replicate tickCount {}
    l0 := List.replicate size0 0
    l1 := List.replicate size1 0
    l2 := List.replicate size2 0
    minPrice := minPrice
    tick := tickSize
    descending := descending }

variable (ladder : PriceLadder)

def empty : Bool := ladder.occupied == 0

def size : Nat := ladder.occupied

/-- The price lands on a tick inside the band. -/
def inBand (price : Int) : Bool :=
  if price < ladder.minPrice then
    false
  else
    let offset := price - ladder.minPrice
    if offset.tmod ladder.tick ≠ 0 then
      false
    else
      decide ((offset.tdiv ladder.tick).toNat < ladder.levels.length)

def indexOf (price : Int) : Option Nat :=
  if price < ladder.minPrice then
    none
  else
    let offset := price - ladder.minPrice
    if offset.tmod ladder.tick ≠ 0 then
      none
    else
      let index := (offset.tdiv ladder.tick).toNat
      if index < ladder.levels.length then some index else none

def priceAt (index : Nat) : Int :=
  ladder.minPrice + index * ladder.tick

def level (ladder : PriceLadder) (index : Nat) : PriceLevel :=
  ladder.levels[index]?.getD {}

/-- Write through the reference the source holds to one level. -/
def setLevel (index : Nat) (level : PriceLevel) : PriceLadder :=
  { ladder with levels := ladder.levels.set index level }

def test (index : Nat) : Bool := bit ladder.l0 index

def set (index : Nat) : PriceLadder :=
  { ladder with
    l0 := setBit ladder.l0 index
    l1 := setBit ladder.l1 (index / 64)
    l2 := setBit ladder.l2 (index / 64 / 64) }

/-- Clear the bit, and a summary bit only once the word below it is empty. -/
def clearBit (index : Nat) : PriceLadder :=
  let l0 := SummaryBitmap.clearBit ladder.l0 index
  if word l0 (index / 64) ≠ 0 then
    { ladder with l0 := l0 }
  else
    let l1 := SummaryBitmap.clearBit ladder.l1 (index / 64)
    if word l1 (index / 64 / 64) ≠ 0 then
      { ladder with l0 := l0, l1 := l1 }
    else
      { ladder with
        l0 := l0
        l1 := l1
        l2 := SummaryBitmap.clearBit ladder.l2 (index / 64 / 64) }

def fromL1 (w1 : Nat) : Nat :=
  let w0 := w1 * 64 + pick ladder.descending (word ladder.l1 w1)
  w0 * 64 + pick ladder.descending (word ladder.l0 w0)

def fromL2 (w2 : Nat) : Nat :=
  ladder.fromL1 (w2 * 64 + pick ladder.descending (word ladder.l2 w2))

/-- The best price's index: highest for bids, lowest for asks. -/
def bestOccupied : Option Nat :=
  if ladder.occupied = 0 then
    none
  else
    ((scanAll ladder.descending ladder.l2.length).find?
      fun w2 => decide (word ladder.l2 w2 ≠ 0)).map ladder.fromL2

/-- The next occupied level in traversal order: the rest of the current word,
then of its summary word, then of the top word, then the remaining top words. -/
def nextOccupied (index : Nat) : Option Nat :=
  let w0 := index / 64
  let rest0 := word ladder.l0 w0 &&& after ladder.descending (index % 64)
  if rest0 ≠ 0 then
    some (w0 * 64 + pick ladder.descending rest0)
  else
    let w1 := w0 / 64
    let rest1 := word ladder.l1 w1 &&& after ladder.descending (w0 % 64)
    if rest1 ≠ 0 then
      let next0 := w1 * 64 + pick ladder.descending rest1
      some (next0 * 64 + pick ladder.descending (word ladder.l0 next0))
    else
      let w2 := w1 / 64
      let rest2 := word ladder.l2 w2 &&& after ladder.descending (w1 % 64)
      if rest2 ≠ 0 then
        some (ladder.fromL1 (w2 * 64 + pick ladder.descending rest2))
      else
        ((scanAfter ladder.descending ladder.l2.length w2).find?
          fun w => decide (word ladder.l2 w ≠ 0)).map ladder.fromL2

/-- The subscript operator: the index of a price's level, marked occupied.  A
price outside the band, which the source asserts away, leaves the ladder
alone. -/
def subscript (price : Int) : PriceLadder × Option Nat :=
  match ladder.indexOf price with
  | none => (ladder, none)
  | some index =>
    if ladder.test index then
      (ladder, some index)
    else
      ({ ladder.set index with occupied := ladder.occupied + 1 }, some index)

def find (price : Int) : Option Nat :=
  match ladder.indexOf price with
  | none => none
  | some index => if ladder.test index then some index else none

/-- Drop a level.  The slot is reset, since the price may trade again. -/
def erase (index : Nat) : PriceLadder :=
  let cleared := ladder.clearBit index
  { cleared.setLevel index {} with occupied := ladder.occupied - 1 }

/-- The occupied indices in the order the iterators visit them. -/
def indices : List Nat :=
  walk ladder.nextOccupied ladder.levels.length ladder.bestOccupied

/-- Reset the occupied levels, then forget all of them. -/
def clear : PriceLadder :=
  { ladder with
    levels := ladder.indices.foldl (fun levels index => levels.set index {}) ladder.levels
    l0 := List.replicate ladder.l0.length 0
    l1 := List.replicate ladder.l1.length 0
    l2 := List.replicate ladder.l2.length 0
    occupied := 0 }

/-! ## Reading the fields back -/

section Fields

variable (index : Nat)

theorem level_setLevel (index : Nat) (hLt : index < ladder.levels.length)
    (level : PriceLevel) (i : Nat) :
    (ladder.setLevel index level).level i = if i = index then level else ladder.level i := by
  unfold PriceLadder.level setLevel
  by_cases hi : i = index
  · subst hi
    simp [hLt]
  · simp [hi, List.getElem?_set_ne (Ne.symm hi)]

@[simp] theorem length_setLevel (level : PriceLevel) :
    (ladder.setLevel index level).levels.length = ladder.levels.length := by
  simp [setLevel]

/-- Clearing bits changes nothing but the bitmaps. -/
theorem clearBit_fields :
    (ladder.clearBit index).levels = ladder.levels ∧
      (ladder.clearBit index).minPrice = ladder.minPrice ∧
      (ladder.clearBit index).tick = ladder.tick ∧
      (ladder.clearBit index).descending = ladder.descending ∧
      (ladder.clearBit index).l0 = SummaryBitmap.clearBit ladder.l0 index := by
  unfold clearBit
  dsimp only
  split
  · simp
  · split <;> simp

end Fields

/-! ## The ladder's invariant -/

structure Valid (ladder : PriceLadder) : Prop where
  tick_pos : 0 < ladder.tick
  length_l0 : ladder.l0.length = (ladder.levels.length + 63) / 64
  length_l1 : ladder.l1.length = (ladder.l0.length + 63) / 64
  length_l2 : ladder.l2.length = (ladder.l1.length + 63) / 64
  sum1 : Summarises ladder.l1 ladder.l0
  sum2 : Summarises ladder.l2 ladder.l1
  bounded : ∀ i, ladder.test i = true → i < ladder.levels.length
  count : ladder.occupied = (List.range ladder.levels.length).countP ladder.test

/-- The occupied indices, best price first. -/
def members : List Nat :=
  (scanAll ladder.descending ladder.levels.length).filter ladder.test

variable {ladder}

theorem mem_members (hValid : ladder.Valid) (i : Nat) :
    i ∈ ladder.members ↔ ladder.test i = true := by
  rw [members, List.mem_filter, mem_scanAll]
  exact ⟨fun h => h.2, fun h => ⟨hValid.bounded i h, h⟩⟩

theorem pairwise_members (ladder : PriceLadder) :
    ladder.members.Pairwise (Before ladder.descending) :=
  (pairwise_scanAll _ _).sublist List.filter_sublist

variable (descending : Bool) (minPrice tickSize : Int) (tickCount i : Nat)

theorem test_configure : (configure descending minPrice tickSize tickCount).test i = false := by
  exact bit_replicate_zero _ i

theorem level_configure : (configure descending minPrice tickSize tickCount).level i = {} := by
  simp only [configure, level, List.getElem?_replicate]
  split <;> rfl

theorem valid_configure (minPrice : Int) {tickSize : Int} (tickCount : Nat) (hTick : 0 < tickSize) :
    (configure descending minPrice tickSize tickCount).Valid where
  tick_pos := hTick
  length_l0 := by simp [configure]
  length_l1 := by simp [configure]
  length_l2 := by simp [configure]
  sum1 := summarises_replicate_zero _ _
  sum2 := summarises_replicate_zero _ _
  bounded := fun i hi => by simp [test_configure] at hi
  count := by
    have hNone :
        (List.range (configure descending minPrice tickSize tickCount).levels.length).countP
          (configure descending minPrice tickSize tickCount).test = 0 :=
      List.countP_eq_zero.mpr fun i _ => by simp [test_configure]
    rw [hNone]
    rfl

namespace Valid

variable {index : Nat}

section

variable (hValid : ladder.Valid)
include hValid

/-- Every layer has a word for an index inside the band. -/
theorem word_lt (hLt : index < ladder.levels.length) :
    index / 64 < ladder.l0.length ∧ index / 64 / 64 < ladder.l1.length ∧
      index / 64 / 64 / 64 < ladder.l2.length := by
  have h0 := hValid.length_l0
  have h1 := hValid.length_l1
  have h2 := hValid.length_l2
  omega

/-- Changing a level's contents leaves the bitmaps as they are. -/
theorem setLevel (level : PriceLevel) :
    (ladder.setLevel index level).Valid where
  tick_pos := hValid.tick_pos
  length_l0 := by rw [length_setLevel]; exact hValid.length_l0
  length_l1 := hValid.length_l1
  length_l2 := hValid.length_l2
  sum1 := hValid.sum1
  sum2 := hValid.sum2
  bounded := fun i hi => by simpa using hValid.bounded i hi
  count := by
    rw [length_setLevel]
    exact hValid.count

variable (hLt : index < ladder.levels.length)
include hLt

theorem test_set (i : Nat) : (ladder.set index).test i = (decide (i = index) || ladder.test i) :=
  bit_setBit (hValid.word_lt hLt).1 i

theorem test_clearBit (i : Nat) :
    (ladder.clearBit index).test i = (decide (i ≠ index) && ladder.test i) := by
  unfold test
  rw [(clearBit_fields ladder index).2.2.2.2]
  exact bit_clearBit (hValid.word_lt hLt).1 i

/-- Marking an unoccupied level of the band. -/
theorem set (hUnset : ladder.test index = false) :
    Valid { ladder.set index with occupied := ladder.occupied + 1 } := by
  obtain ⟨h0, h1, h2⟩ := hValid.word_lt hLt
  refine
    { tick_pos := hValid.tick_pos
      length_l0 := (length_setBit _ _).trans hValid.length_l0
      length_l1 := ?_
      length_l2 := ?_
      sum1 := hValid.sum1.setBit h0 h1
      sum2 := hValid.sum2.setBit h1 h2
      bounded := ?_
      count := ?_ }
  · simpa [PriceLadder.set] using hValid.length_l1
  · simpa [PriceLadder.set] using hValid.length_l2
  · intro i hi
    have hi' := hi
    rw [show PriceLadder.test { ladder.set index with occupied := ladder.occupied + 1 } i =
        (ladder.set index).test i from rfl, hValid.test_set hLt, Bool.or_eq_true,
      decide_eq_true_eq] at hi'
    rcases hi' with rfl | hi'
    · exact hLt
    · exact hValid.bounded i hi'
  · have hCount := countP_range_insert (p := ladder.test) (q := (ladder.set index).test) hLt
      (fun i hi => by simp [hValid.test_set hLt, hi]) hUnset
      (by simp [hValid.test_set hLt])
    show ladder.occupied + 1 = (List.range ladder.levels.length).countP (ladder.set index).test
    rw [hCount, hValid.count]

/-- The bitmaps after a clear: each summary layer still describes the one
below. -/
theorem clearBit_sums :
    Summarises (ladder.clearBit index).l1 (ladder.clearBit index).l0 ∧
      Summarises (ladder.clearBit index).l2 (ladder.clearBit index).l1 ∧
      (ladder.clearBit index).l1.length = ladder.l1.length ∧
      (ladder.clearBit index).l2.length = ladder.l2.length := by
  obtain ⟨h0, h1, h2⟩ := hValid.word_lt hLt
  unfold PriceLadder.clearBit
  dsimp only
  -- The source returns early at the first layer whose word is still in use.
  split
  · next hLeft => exact ⟨hValid.sum1.keep h0 hLeft, hValid.sum2, rfl, rfl⟩
  next hEmpty0 =>
  have hSum1 := hValid.sum1.clearBit h0 h1 (not_not.mp hEmpty0)
  split
  · next hLeft =>
      exact ⟨hSum1, hValid.sum2.keep h1 hLeft, length_clearBit _ _, rfl⟩
  next hEmpty1 =>
  exact ⟨hSum1, hValid.sum2.clearBit h1 h2 (not_not.mp hEmpty1),
    length_clearBit _ _, length_clearBit _ _⟩

theorem test_erase (i : Nat) :
    (ladder.erase index).test i = (decide (i ≠ index) && ladder.test i) :=
  hValid.test_clearBit hLt i

end

theorem level_erase (hLt : index < ladder.levels.length) (i : Nat) :
    (ladder.erase index).level i = if i = index then {} else ladder.level i := by
  have hLevels := (clearBit_fields ladder index).1
  have hLevel : ∀ j, (ladder.clearBit index).level j = ladder.level j := fun j => by
    unfold PriceLadder.level
    rw [hLevels]
  have hSet := level_setLevel (ladder.clearBit index) index (by rwa [hLevels]) {} i
  rw [hLevel i] at hSet
  exact hSet

theorem erase (hValid : ladder.Valid) (hSet : ladder.test index = true) :
    (ladder.erase index).Valid := by
  have hLt := hValid.bounded index hSet
  obtain ⟨hLevels, -, hTick, -, hL0⟩ := clearBit_fields ladder index
  obtain ⟨hSum1, hSum2, hLen1, hLen2⟩ := hValid.clearBit_sums hLt
  have hLength : (ladder.erase index).levels.length = ladder.levels.length := by
    simp [PriceLadder.erase, hLevels]
  have hLength0 : (ladder.erase index).l0.length = ladder.l0.length := by
    simp [PriceLadder.erase, PriceLadder.setLevel, hL0]
  refine
    { tick_pos := hTick ▸ hValid.tick_pos
      length_l0 := by rw [hLength, hLength0, hValid.length_l0]
      length_l1 := ?_
      length_l2 := ?_
      sum1 := hSum1
      sum2 := hSum2
      bounded := ?_
      count := ?_ }
  · rw [hLength0]
    exact hLen1.trans hValid.length_l1
  · exact hLen2.trans (by rw [hValid.length_l2]; exact congrArg (fun n => (n + 63) / 64) hLen1.symm)
  · intro i hi
    rw [hValid.test_erase hLt, Bool.and_eq_true] at hi
    rw [hLength]
    exact hValid.bounded i hi.2
  · have hCount := countP_range_insert (p := (ladder.erase index).test) (q := ladder.test) hLt
      (fun i hi => by simp [hValid.test_erase hLt, hi]) (by simp [hValid.test_erase hLt]) hSet
    rw [hLength]
    show ladder.occupied - 1 = _
    rw [hValid.count, hCount, Nat.add_sub_cancel]

/-! ### Searching -/

variable (hValid : ladder.Valid)
include hValid

theorem finds_fromL1 {Q : Nat → Prop} {r : Option Nat}
    (hFinds : Finds ladder.descending (fun v => word ladder.l1 v ≠ 0 ∧ Q v) r) :
    Finds ladder.descending (fun v => word ladder.l0 v ≠ 0 ∧ Q (v / 64))
      (r.map fun w => w * 64 + pick ladder.descending (word ladder.l1 w)) :=
  hFinds.descend.congr fun v => and_congr_left fun _ => hValid.sum1 v

theorem finds_fromL2 {Q : Nat → Prop} {r : Option Nat}
    (hFinds : Finds ladder.descending (fun v => word ladder.l2 v ≠ 0 ∧ Q v) r) :
    Finds ladder.descending (fun v => word ladder.l1 v ≠ 0 ∧ Q (v / 64))
      (r.map fun w => w * 64 + pick ladder.descending (word ladder.l2 w)) :=
  hFinds.descend.congr fun v => and_congr_left fun _ => hValid.sum2 v

theorem occupied_eq_zero_iff : ladder.occupied = 0 ↔ ∀ i, ladder.test i = false := by
  rw [hValid.count, List.countP_eq_zero]
  constructor
  · intro hNone i
    by_contra hi
    have hSet : ladder.test i = true := by simpa using hi
    exact hNone i (List.mem_range.mpr (hValid.bounded i hSet)) hSet
  · intro hNone i _
    simp [hNone i]

/-- The best level is the first occupied one. -/
theorem bestOccupied_finds :
    Finds ladder.descending (fun i => ladder.test i = true) ladder.bestOccupied := by
  unfold bestOccupied
  split
  · next hZero => exact fun i hi => by simp [hValid.occupied_eq_zero_iff.mp hZero i] at hi
  have hTop := finds_scanAll ladder.descending ladder.l2
  have hAll := (hValid.finds_fromL1 (hValid.finds_fromL2 hTop)).descend
  simp only [Option.map_map, and_true] at hAll
  exact hAll

/-- The next level is the first occupied one after the given index. -/
theorem nextOccupied_finds (hLt : index < ladder.levels.length) :
    Finds ladder.descending
      (fun i => ladder.test i = true ∧ Before ladder.descending index i)
      (ladder.nextOccupied index) := by
  unfold nextOccupied
  dsimp only
  split
  · next hRest0 => exact finds_after hRest0
  next hRest0 =>
  have hWord0 := not_not.mp hRest0
  -- One layer up, the question is the same one about the word's index.
  have hUp : ∀ {r}, Finds ladder.descending
      (fun v => bit ladder.l1 v = true ∧ Before ladder.descending (index / 64) v) r →
      Finds ladder.descending (fun i => ladder.test i = true ∧ Before ladder.descending index i)
        (r.map fun w => w * 64 + pick ladder.descending (word ladder.l0 w)) :=
    fun hFinds => finds_after_word hWord0
      (hFinds.congr fun v => and_congr_left fun _ => hValid.sum1 v)
  split
  · next hRest1 => exact hUp (finds_after hRest1)
  next hRest1 =>
  have hWord1 := not_not.mp hRest1
  have hUpUp : ∀ {r}, Finds ladder.descending (fun v => bit ladder.l2 v = true ∧
        Before ladder.descending (index / 64 / 64) v) r →
      Finds ladder.descending (fun i => ladder.test i = true ∧ Before ladder.descending index i)
        (r.map ladder.fromL1) := by
    intro r hFinds
    have hWords := hFinds.congr fun v => and_congr_left fun _ => hValid.sum2 v
    have hResult := hUp (finds_after_word hWord1 hWords)
    rw [Option.map_map] at hResult
    exact hResult
  split
  · next hRest2 => exact hUpUp (finds_after hRest2)
  next hRest2 =>
  have hWord2 := not_not.mp hRest2
  have hScan := finds_scanAfter (d := ladder.descending) (hValid.word_lt hLt).2.2
  have hResult := hUpUp (finds_after_word hWord2 hScan)
  rw [Option.map_map] at hResult
  exact hResult

theorem bestOccupied_eq : ladder.bestOccupied = ladder.members.head? := by
  refine (head?_of_finds ladder.pairwise_members ?_).symm
  exact hValid.bestOccupied_finds.congr fun i => (mem_members hValid i).symm

/-- Each occupied level leads to the next one, and the last to the end. -/
theorem forward_members : Forward ladder.nextOccupied ladder.members := by
  refine forward_of_finds ladder.pairwise_members fun i hi => ?_
  have hLt := hValid.bounded i ((mem_members hValid i).mp hi)
  exact (hValid.nextOccupied_finds hLt).congr fun k =>
    and_congr_left fun _ => (mem_members hValid k).symm

/-- The iterators visit exactly the occupied levels, best price first. -/
theorem indices_eq : ladder.indices = ladder.members := by
  unfold indices
  rw [hValid.bestOccupied_eq]
  refine hValid.forward_members.walk_eq ?_
  calc ladder.members.length ≤ (scanAll ladder.descending ladder.levels.length).length :=
        List.length_filter_le _ _
    _ = ladder.levels.length := by cases hDir : ladder.descending <;> simp [scanAll]

end Valid

/-! ## Prices and indices -/

/-- An index inside the band is found again from its price. -/
theorem indexOf_eq_some_iff (hTick : 0 < ladder.tick) (price : Int) (index : Nat) :
    ladder.indexOf price = some index ↔
      index < ladder.levels.length ∧ price = ladder.priceAt index := by
  unfold indexOf priceAt
  by_cases hBelow : price < ladder.minPrice
  · have hNonneg : 0 ≤ (index : Int) * ladder.tick := by positivity
    simp only [hBelow, if_true]
    constructor
    · intro h
      contradiction
    · intro ⟨_, hPrice⟩
      omega
  · have hOffset : 0 ≤ price - ladder.minPrice := by omega
    simp only [hBelow, if_false, Int.tmod_eq_emod_of_nonneg hOffset,
      Int.tdiv_eq_ediv_of_nonneg hOffset]
    have hQuot : 0 ≤ (price - ladder.minPrice) / ladder.tick :=
      Int.ediv_nonneg hOffset hTick.le
    have hSplit := Int.mul_ediv_add_emod (price - ladder.minPrice) ladder.tick
    constructor
    · intro h
      split at h
      · contradiction
      next hMod =>
      split at h
      · next hIn =>
          cases h
          refine ⟨hIn, ?_⟩
          rw [Int.toNat_of_nonneg hQuot, Int.mul_comm]
          rw [not_not.mp hMod] at hSplit
          omega
      · contradiction
    · intro ⟨hLt, hPrice⟩
      have hEq : price - ladder.minPrice = index * ladder.tick := by omega
      rw [hEq, Int.mul_emod_left, Int.mul_ediv_cancel _ hTick.ne']
      simp [hLt]

/-- Traversal order is price order: down for bids, up for asks. -/
theorem before_iff_priceAt (hTick : 0 < ladder.tick) (i j : Nat) :
    Before ladder.descending i j ↔
      if ladder.descending then ladder.priceAt j < ladder.priceAt i
      else ladder.priceAt i < ladder.priceAt j := by
  have hMono : ∀ a b : Nat, a < b ↔ ladder.priceAt a < ladder.priceAt b := by
    intro a b
    unfold priceAt
    rw [Int.add_lt_add_iff_left, Int.mul_lt_mul_right hTick, Int.ofNat_lt]
  cases hDir : ladder.descending with
  | false => simpa using hMono i j
  | true => simpa using hMono j i

/-- The ladder a book configures for one side of an instrument. -/
def ofInstrument (descending : Bool) (instrument : Instrument) : PriceLadder :=
  configure descending instrument.ladderBase instrument.tickSize instrument.tickCount

/-- Every price the instrument accepts has a level. -/
theorem exists_index_of_isValidPrice {instrument : Instrument} {price : Int}
    (hTick : 0 < instrument.tickSize) (hPrice : instrument.isValidPrice price = true) :
    ∃ index < instrument.tickCount,
      price = instrument.ladderBase + index * instrument.tickSize := by
  simp only [Instrument.isValidPrice, Bool.and_eq_true, decide_eq_true_eq] at hPrice
  obtain ⟨⟨⟨hPos, hMod⟩, hMin⟩, hMax⟩ := hPrice
  rw [Int.tmod_eq_emod_of_nonneg hPos.le] at hMod
  obtain ⟨ticks, hTicks⟩ := Int.dvd_of_emod_eq_zero hMod
  -- The base is a whole number of ticks at or below every accepted price.
  have hBase : instrument.ladderBase ≤ price := by
    unfold Instrument.ladderBase
    by_cases hSign : 0 ≤ instrument.minPrice
    · rw [Int.tdiv_eq_ediv_of_nonneg hSign]
      exact (Int.ediv_mul_le _ hTick.ne').trans hMin
    have hNonpos : instrument.minPrice.tdiv instrument.tickSize ≤ 0 := by
      have := Int.tdiv_nonneg (a := -instrument.minPrice) (b := instrument.tickSize)
        (by omega) hTick.le
      rw [Int.neg_tdiv] at this
      omega
    exact (mul_nonpos_of_nonpos_of_nonneg hNonpos hTick.le).trans hPos.le
  have hOffset : price - instrument.ladderBase =
      (ticks - instrument.minPrice.tdiv instrument.tickSize) * instrument.tickSize := by
    rw [hTicks, Instrument.ladderBase]
    ring
  have hNonneg : 0 ≤ ticks - instrument.minPrice.tdiv instrument.tickSize := by
    by_contra hNeg
    have := mul_neg_of_neg_of_pos (not_le.mp hNeg) hTick
    omega
  refine ⟨(ticks - instrument.minPrice.tdiv instrument.tickSize).toNat, ?_, ?_⟩
  · unfold Instrument.tickCount
    have hSpan : 0 ≤ instrument.maxPrice - instrument.ladderBase := by omega
    rw [Int.tdiv_eq_ediv_of_nonneg hSpan]
    have hLe : ticks - instrument.minPrice.tdiv instrument.tickSize ≤
        (instrument.maxPrice - instrument.ladderBase) / instrument.tickSize := by
      rw [Int.le_ediv_iff_mul_le hTick, ← hOffset]
      omega
    omega
  · rw [Int.toNat_of_nonneg hNonneg]
    omega

end PriceLadder
end ExchangeCore
