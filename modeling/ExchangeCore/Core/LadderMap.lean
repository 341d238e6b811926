import ExchangeCore.Core.PriceLadder
import ExchangeCore.Lib.Machine

/-!
# The price ladder as an ordered map

A book uses a ladder through four operations: it occupies the level of a price, writes
through the reference it was given, erases a level and clears the ladder.  On the side
of the specification these act on a map from prices to levels.  Every run keeps the two
in step (`Represents.run`), so a ladder finds exactly the prices that are in the map and
its iterators visit them in price order.
-/

namespace ExchangeCore

open SummaryBitmap LinkedList List

/-- What a book does with a ladder. -/
inductive LadderCommand
  | occupy (price : Int)
  /-- Through the reference to an occupied level. -/
  | write (price : Int) (level : PriceLevel)
  | erase (price : Int)
  | clear
  deriving DecidableEq

namespace PriceLadder

def apply (ladder : PriceLadder) : LadderCommand → PriceLadder
  | .occupy price => (ladder.subscript price).1
  | .write price level =>
    match ladder.find price with
    | none => ladder
    | some index => ladder.setLevel index level
  | .erase price =>
    match ladder.find price with
    | none => ladder
    | some index => ladder.erase index
  | .clear => ladder.clear

/-- What the source asserts: a price in the band, a level that is occupied. -/
def Allows (ladder : PriceLadder) : LadderCommand → Prop
  | .occupy price => ladder.inBand price = true
  | .write price _ => (ladder.find price).isSome
  | .erase price => (ladder.find price).isSome
  | .clear => True

variable (ladder : PriceLadder) (price : Int)

instance : DecidablePred ladder.Allows := fun op => by
  rcases op with _ | _ <;> dsimp only [Allows] <;> infer_instance

/-- The levels a map of prices holds after a command. -/
def updated (levels : Int → Option PriceLevel) : LadderCommand → Int → Option PriceLevel
  | .occupy price => Function.update levels price (some ((levels price).getD {}))
  | .write price level => Function.update levels price (some level)
  | .erase price => Function.update levels price none
  | .clear => fun _ => none

section Lookup

variable {ladder}

theorem inBand_eq : ladder.inBand price = (ladder.indexOf price).isSome := by
  unfold inBand indexOf
  split
  · rfl
  dsimp only
  split
  · rfl
  split
  · next hIn => simp [hIn]
  · next hOut => simp [hOut]

theorem find_eq_some_iff (index : Nat) :
    ladder.find price = some index ↔
      ladder.indexOf price = some index ∧ ladder.test index = true := by
  unfold find
  cases hIndex : ladder.indexOf price with
  | none => simp
  | some found =>
    by_cases hTest : ladder.test found = true
    · simp only [hTest, if_true, Option.some.injEq]
      exact ⟨fun hSame => ⟨hSame, hSame ▸ hTest⟩, fun hBoth => hBoth.1⟩
    simp only [hTest, Option.some.injEq]
    refine ⟨nofun, ?_⟩
    rintro ⟨rfl, hSet⟩
    exact absurd hSet hTest

theorem priceAt_injective (hTick : 0 < ladder.tick) {i j : Nat}
    (hPrice : ladder.priceAt i = ladder.priceAt j) : i = j := by
  unfold priceAt at hPrice
  have hScaled : (i : Int) * ladder.tick = j * ladder.tick := by omega
  exact Int.ofNat.inj (Int.eq_of_mul_eq_mul_right hTick.ne' hScaled)

end Lookup

/-! ## The ladder stands for a map -/

/-- The ladder has a level for each price that the map holds, with its contents, and
nothing in any other slot. -/
structure Represents (ladder : PriceLadder) (levels : Int → Option PriceLevel) : Prop where
  valid : ladder.Valid
  inside : ∀ index < ladder.levels.length, levels (ladder.priceAt index) =
    if ladder.test index then some (ladder.level index) else none
  outside : ∀ price, ladder.indexOf price = none → levels price = none
  blank : ∀ index, ladder.test index = false → ladder.level index = {}

section Represents

variable {ladder} {ladder' : PriceLadder} {levels : Int → Option PriceLevel}

theorem Represents.find (hRep : ladder.Represents levels) (price : Int) :
    (ladder.find price).map ladder.level = levels price := by
  cases hIndex : ladder.indexOf price with
  | none =>
    rw [hRep.outside price hIndex]
    simp [PriceLadder.find, hIndex]
  | some index =>
    obtain ⟨hLt, hPrice⟩ := (indexOf_eq_some_iff hRep.valid.tick_pos price index).mp hIndex
    rw [hPrice, hRep.inside index hLt, ← hPrice]
    simp only [PriceLadder.find, hIndex]
    split <;> rfl

/-- One slot changes. -/
theorem Represents.update (hRep : ladder.Represents levels) (hValid : ladder'.Valid)
    (hMin : ladder'.minPrice = ladder.minPrice) (hTick : ladder'.tick = ladder.tick)
    (hLength : ladder'.levels.length = ladder.levels.length) {index : Nat}
    (hLt : index < ladder.levels.length) (occupied : Bool) (level : PriceLevel)
    (hBlank : occupied = false → level = {})
    (hTest : ∀ i, ladder'.test i = if i = index then occupied else ladder.test i)
    (hLevel : ∀ i, ladder'.level i = if i = index then level else ladder.level i) :
    ladder'.Represents (Function.update levels (ladder.priceAt index)
      (if occupied then some level else none)) := by
  have hPriceAt : ∀ i, ladder'.priceAt i = ladder.priceAt i := by
    intro i
    rw [priceAt, priceAt, hMin, hTick]
  have hIndexOf : ∀ price, ladder'.indexOf price = ladder.indexOf price := by
    intro price
    unfold indexOf
    rw [hMin, hTick, hLength]
  refine ⟨hValid, fun i hi => ?_, fun price hOut => ?_, fun i hFree => ?_⟩
  · rw [hPriceAt, hTest, hLevel]
    by_cases hSame : i = index
    · rw [hSame, Function.update_self, if_pos rfl, if_pos rfl]
    have hOther : ladder.priceAt i ≠ ladder.priceAt index :=
      fun hPrice => hSame (priceAt_injective hRep.valid.tick_pos hPrice)
    rw [Function.update_of_ne hOther, if_neg hSame, if_neg hSame]
    exact hRep.inside i (hLength ▸ hi)
  · rw [hIndexOf] at hOut
    have hOther : price ≠ ladder.priceAt index := by
      intro hPrice
      have hIn := (indexOf_eq_some_iff hRep.valid.tick_pos price index).mpr ⟨hLt, hPrice⟩
      rw [hOut] at hIn
      contradiction
    rw [Function.update_of_ne hOther]
    exact hRep.outside price hOut
  · rw [hTest] at hFree
    rw [hLevel]
    split at hFree
    · next hSame => rw [if_pos hSame, hBlank hFree]
    · next hOther => rw [if_neg hOther, hRep.blank i hFree]

theorem represents_configure (descending : Bool) (minPrice : Int) {tickSize : Int}
    (hTick : 0 < tickSize) (tickCount : Nat) :
    (configure descending minPrice tickSize tickCount).Represents fun _ => none where
  valid := valid_configure descending minPrice tickCount hTick
  inside := fun index _ => by
    rw [test_configure]
    rfl
  outside := fun _ _ => rfl
  blank := fun index _ => level_configure descending minPrice tickSize tickCount index

variable {price}

theorem Represents.occupy (hRep : ladder.Represents levels) (hBand : ladder.inBand price = true) :
    (ladder.subscript price).1.Represents (updated levels (.occupy price)) := by
  rw [inBand_eq] at hBand
  obtain ⟨index, hIndex⟩ := Option.isSome_iff_exists.mp hBand
  obtain ⟨hLt, hPrice⟩ := (indexOf_eq_some_iff hRep.valid.tick_pos price index).mp hIndex
  have hInside := hRep.inside index hLt
  simp only [updated, subscript, hIndex]
  cases hTest : ladder.test index with
  | true =>
    -- The level is there already, and the map with it.
    rw [hTest, if_pos rfl] at hInside
    rw [if_pos rfl, hPrice, hInside, Option.getD_some, ← hInside, Function.update_eq_self]
    exact hRep
  | false =>
    rw [hTest] at hInside
    rw [if_neg Bool.false_ne_true, hPrice, hInside]
    refine hRep.update (hRep.valid.set hLt hTest) rfl rfl rfl hLt true {} nofun ?_ ?_
    · intro i
      refine (hRep.valid.test_set hLt i).trans ?_
      by_cases hSame : i = index <;> simp [hSame]
    · intro i
      show ladder.level i = _
      split
      · next hSame => rw [hSame, hRep.blank index hTest]
      · rfl

theorem Represents.write (hRep : ladder.Represents levels) (level : PriceLevel)
    (hFound : (ladder.find price).isSome) :
    (ladder.apply (.write price level)).Represents (updated levels (.write price level)) := by
  obtain ⟨index, hFind⟩ := Option.isSome_iff_exists.mp hFound
  obtain ⟨hIndex, hTest⟩ := (find_eq_some_iff price index).mp hFind
  obtain ⟨hLt, hPrice⟩ := (indexOf_eq_some_iff hRep.valid.tick_pos price index).mp hIndex
  simp only [PriceLadder.apply, hFind, updated]
  rw [hPrice]
  refine hRep.update (hRep.valid.setLevel level) rfl rfl (length_setLevel ladder index level) hLt
    true level nofun ?_ (level_setLevel ladder index hLt level)
  intro i
  show ladder.test i = _
  split
  · next hSame => rw [hSame, hTest]
  · rfl

theorem Represents.erase (hRep : ladder.Represents levels) (hFound : (ladder.find price).isSome) :
    (ladder.apply (.erase price)).Represents (updated levels (.erase price)) := by
  obtain ⟨index, hFind⟩ := Option.isSome_iff_exists.mp hFound
  obtain ⟨hIndex, hTest⟩ := (find_eq_some_iff price index).mp hFind
  obtain ⟨hLt, hPrice⟩ := (indexOf_eq_some_iff hRep.valid.tick_pos price index).mp hIndex
  obtain ⟨hLevels, hMin, hTick, -, -⟩ := clearBit_fields ladder index
  simp only [PriceLadder.apply, hFind, updated]
  rw [hPrice]
  refine hRep.update (hRep.valid.erase hTest) hMin hTick ?_ hLt false {} (fun _ => rfl) ?_
    (Valid.level_erase hLt)
  · simp [PriceLadder.erase, hLevels]
  · intro i
    rw [hRep.valid.test_erase hLt]
    by_cases hSame : i = index <;> simp [hSame]

/-! ### Clearing -/

variable (indices : List Nat) (all : List PriceLevel) (i : Nat)

theorem length_resetAll :
    (indices.foldl (fun levels index => levels.set index {}) all).length = all.length := by
  induction indices generalizing all with
  | nil => rfl
  | cons index indices ih => rw [foldl_cons, ih, length_set]

theorem getD_resetAll :
    ((indices.foldl (fun levels index => levels.set index {}) all)[i]?).getD {} =
      if i ∈ indices then {} else all[i]?.getD {} := by
  induction indices generalizing all with
  | nil => simp
  | cons index indices ih =>
    rw [foldl_cons, ih]
    by_cases hLater : i ∈ indices
    · rw [if_pos hLater, if_pos (mem_cons_of_mem _ hLater)]
    rw [if_neg hLater]
    by_cases hSame : i = index
    · subst hSame
      rw [if_pos mem_cons_self]
      by_cases hLt : i < all.length
      · rw [List.getElem?_set_self hLt, Option.getD_some]
      · rw [List.getElem?_eq_none (by rw [length_set]; omega), Option.getD_none]
    have hOther : i ∉ index :: indices := by
      rw [mem_cons, not_or]
      exact ⟨hSame, hLater⟩
    rw [if_neg hOther, List.getElem?_set_ne (Ne.symm hSame)]

theorem test_clear : ladder.clear.test i = false :=
  bit_replicate_zero _ i

theorem Valid.clear (hValid : ladder.Valid) : ladder.clear.Valid where
  tick_pos := hValid.tick_pos
  length_l0 := by
    simp only [PriceLadder.clear, length_replicate, length_resetAll]
    exact hValid.length_l0
  length_l1 := by
    simp only [PriceLadder.clear, length_replicate]
    exact hValid.length_l1
  length_l2 := by
    simp only [PriceLadder.clear, length_replicate]
    exact hValid.length_l2
  sum1 := summarises_replicate_zero _ _
  sum2 := summarises_replicate_zero _ _
  bounded := fun i hi => by
    rw [test_clear] at hi
    contradiction
  count := by
    have hNone : (List.range ladder.clear.levels.length).countP ladder.clear.test = 0 :=
      countP_eq_zero.mpr fun i _ => by rw [test_clear]; exact Bool.false_ne_true
    rw [hNone]
    rfl

/-- Clearing walks the occupied levels; the others were blank before. -/
theorem Represents.clear (hRep : ladder.Represents levels) :
    ladder.clear.Represents fun _ => none where
  valid := hRep.valid.clear
  inside := fun index _ => by
    rw [test_clear]
    rfl
  outside := fun _ _ => rfl
  blank := fun index _ => by
    show ((ladder.indices.foldl (fun levels index => levels.set index {})
      ladder.levels)[index]?).getD {} = {}
    rw [getD_resetAll, hRep.valid.indices_eq]
    split
    · rfl
    next hFree =>
    rw [mem_members hRep.valid, Bool.not_eq_true] at hFree
    exact hRep.blank index hFree

/-! ### Runs -/

theorem Represents.apply (hRep : ladder.Represents levels) {command : LadderCommand}
    (hAllowed : ladder.Allows command) :
    (ladder.apply command).Represents (updated levels command) := by
  cases command with
  | occupy price => exact hRep.occupy hAllowed
  | write price level => exact hRep.write level hAllowed
  | erase price => exact hRep.erase hAllowed
  | clear => exact hRep.clear

theorem Represents.run (hRep : ladder.Represents levels) {commands : List LadderCommand}
    (hAllowed : Machine.Each PriceLadder.apply PriceLadder.Allows ladder commands) :
    (Machine.run PriceLadder.apply ladder commands).Represents
      (Machine.run updated levels commands) := by
  induction commands generalizing ladder levels with
  | nil => exact hRep
  | cons command commands ih => exact ih (hRep.apply hAllowed.1) hAllowed.2

/-! ## What the iterators see -/

/-- Better prices first: the higher for bids, the lower for asks. -/
def Better (descending : Bool) (price other : Int) : Prop :=
  if descending then other < price else price < other

/-- From `begin()` the iterator visits the prices of the map, each once, best first, and
then equals `end()`. -/
theorem Represents.traverses (hRep : ladder.Represents levels) :
    Traverses ladder.nextOccupied ladder.bestOccupied ladder.members ∧
      (∀ price, price ∈ ladder.members.map ladder.priceAt ↔ (levels price).isSome) ∧
      (ladder.members.map ladder.priceAt).Pairwise (Better ladder.descending) ∧
      ladder.size = ladder.members.length := by
  refine ⟨?_, fun price => ?_, ?_, ?_⟩
  · rw [hRep.valid.bestOccupied_eq]
    exact hRep.valid.forward_members.traverses
  · constructor
    · intro hMem
      obtain ⟨index, hIndex, rfl⟩ := mem_map.mp hMem
      have hTest := (mem_members hRep.valid index).mp hIndex
      rw [hRep.inside index (hRep.valid.bounded index hTest), if_pos hTest]
      rfl
    · intro hSome
      rw [← hRep.find, Option.isSome_map] at hSome
      obtain ⟨index, hFind⟩ := Option.isSome_iff_exists.mp hSome
      obtain ⟨hIndex, hTest⟩ := (find_eq_some_iff price index).mp hFind
      have hPrice := ((indexOf_eq_some_iff hRep.valid.tick_pos price index).mp hIndex).2
      exact mem_map.mpr ⟨index, (mem_members hRep.valid index).mpr hTest, hPrice.symm⟩
  · rw [pairwise_map]
    exact ladder.pairwise_members.imp fun {i j} hBefore =>
      (before_iff_priceAt hRep.valid.tick_pos i j).mp hBefore
  · rw [size, hRep.valid.count, members, countP_eq_length_filter]
    cases hDirection : ladder.descending <;>
      simp [scanAll, filter_reverse]

end Represents

/-- No command turns a ladder round. -/
theorem descending_apply (command : LadderCommand) :
    (ladder.apply command).descending = ladder.descending := by
  cases command with
  | occupy price =>
    simp only [apply, subscript]
    split
    · rfl
    · split <;> rfl
  | write price level =>
    simp only [apply]
    split <;> rfl
  | erase price =>
    simp only [apply]
    split
    · rfl
    · next index _ => exact (clearBit_fields ladder index).2.2.2.1
  | clear => rfl

theorem descending_run (commands : List LadderCommand) :
    (Machine.run apply ladder commands).descending = ladder.descending :=
  Machine.run_of_step (P := fun reached => reached.descending = ladder.descending) rfl
    fun before command hSame => (descending_apply before command).trans hSame

/-- A level that was not occupied is handed out empty. -/
theorem Represents.occupied_empty {ladder : PriceLadder} {levels : Int → Option PriceLevel}
    (hRep : ladder.Represents levels) {price : Int} (hBand : ladder.inBand price = true)
    (hNew : levels price = none) :
    ∃ index, (ladder.subscript price).2 = some index ∧
      (ladder.subscript price).1.find price = some index ∧
      (ladder.subscript price).1.level index = {} := by
  have hFind := (hRep.occupy hBand).find price
  rw [updated, Function.update_self, hNew, Option.getD_none, Option.map_eq_some_iff] at hFind
  obtain ⟨index, hFound, hEmpty⟩ := hFind
  refine ⟨index, ?_, hFound, hEmpty⟩
  -- The index handed out is that of the price, in the old band as in the new.
  have hIndex := ((find_eq_some_iff price index).mp hFound).1
  rw [inBand_eq] at hBand
  obtain ⟨own, hOwn⟩ := Option.isSome_iff_exists.mp hBand
  have hSame : (ladder.subscript price).1.indexOf price = ladder.indexOf price := by
    unfold subscript
    rw [hOwn]
    dsimp only
    split
    · rw [hOwn]
    · exact hOwn
  rw [hSame] at hIndex
  unfold subscript
  rw [hIndex]
  dsimp only
  split <;> rfl

/-- For both directions, every band and every sequence of subscripts, writes, erasures
and clears that the source's assertions allow, with the map that the same commands make
of an empty one: `find` succeeds on exactly its prices and gives their levels; a level
that a subscript newly occupies is empty; the iterator visits exactly its prices in
strict price order, best first, and then ends; and `size` is their number. -/
theorem ladder_is_ordered_map (descending : Bool) (minPrice tickSize : Int)
    (hTick : 1 ≤ tickSize) (tickCount : Nat) (commands : List LadderCommand)
    (hAllowed : Machine.Each apply Allows (configure descending minPrice tickSize tickCount)
      commands) :
    let ladder := Machine.run apply (configure descending minPrice tickSize tickCount) commands
    let levels := Machine.run updated (fun _ => none) commands
    (∀ price, (ladder.find price).map ladder.level = levels price) ∧
      (∀ price, ladder.inBand price = true → levels price = none →
        ∃ index, (ladder.subscript price).2 = some index ∧
          (ladder.subscript price).1.find price = some index ∧
          (ladder.subscript price).1.level index = {}) ∧
      ∃ visited : List Nat, Traverses ladder.nextOccupied ladder.bestOccupied visited ∧
        (∀ price, price ∈ visited.map ladder.priceAt ↔ (levels price).isSome) ∧
        (visited.map ladder.priceAt).Pairwise (Better descending) ∧
        ladder.size = visited.length := by
  have hTickPos : 0 < tickSize := by omega
  have hRep := (represents_configure descending minPrice hTickPos tickCount).run hAllowed
  have hDirection := descending_run (configure descending minPrice tickSize tickCount) commands
  obtain ⟨hTraverses, hPrices, hSorted, hSize⟩ := hRep.traverses
  rw [hDirection] at hSorted
  exact ⟨hRep.find, fun price hBand hNew => hRep.occupied_empty hBand hNew,
    _, hTraverses, hPrices, hSorted, hSize⟩

/-- Levels in the first, a middle and the last, partial word of a band, one of them
written to and erased. -/
def sampleLadderCommands : List LadderCommand :=
  [.occupy 10, .occupy 655, .write 10 { totalQuantity := 7, orderCount := 1 }, .occupy 330,
    .erase 10, .occupy 325, .occupy 10]

theorem ladder_is_ordered_map_sample :
    Machine.Each apply Allows (configure true 10 5 130) sampleLadderCommands ∧
      let ladder := Machine.run apply (configure true 10 5 130) sampleLadderCommands
      let levels := Machine.run updated (fun _ => none) sampleLadderCommands
      ((∀ price, (ladder.find price).map ladder.level = levels price) ∧
        (∀ price, ladder.inBand price = true → levels price = none →
          ∃ index, (ladder.subscript price).2 = some index ∧
            (ladder.subscript price).1.find price = some index ∧
            (ladder.subscript price).1.level index = {}) ∧
        ∃ visited : List Nat, Traverses ladder.nextOccupied ladder.bestOccupied visited ∧
          (∀ price, price ∈ visited.map ladder.priceAt ↔ (levels price).isSome) ∧
          (visited.map ladder.priceAt).Pairwise (Better true) ∧ ladder.size = visited.length) := by
  have hAllowed : Machine.Each apply Allows (configure true 10 5 130) sampleLadderCommands := by
    decide +kernel
  exact ⟨hAllowed, ladder_is_ordered_map true 10 5 (by decide) 130 sampleLadderCommands hAllowed⟩

end PriceLadder
end ExchangeCore
