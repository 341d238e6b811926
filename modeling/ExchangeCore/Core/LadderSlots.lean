import ExchangeCore.Core.Representation

/-!
# A slot for every price

The arithmetic of an instrument's band and of its ladder in signed 64-bit words: every
division, every signed result and every cast is checked, and a computation that would
overflow has no outcome.  In a band whose span is a word none does (`Banded`), and in a band
of positive prices every price the instrument accepts has a slot of its own
(`valid_prices_have_slots`).
-/

namespace ExchangeCore

namespace Instrument

variable (instrument : Instrument)

def checkedLadderBase : Option Int := do
  let ticks ← Word64.quot instrument.minPrice instrument.tickSize
  Word64.fits (ticks * instrument.tickSize)

def checkedTickCount : Option Nat := do
  let base ← instrument.checkedLadderBase
  let span ← Word64.fits (instrument.maxPrice - base)
  let ticks ← Word64.quot span instrument.tickSize
  return Word64.add (Word64.ofSigned ticks) 1

def checkedIsValidPrice (price : Int) : Option Bool :=
  if price ≤ 0 then
    some false
  else do
    let offGrid ← Word64.rem price instrument.tickSize
    return decide (offGrid = 0) && decide (instrument.minPrice ≤ price) &&
      decide (price ≤ instrument.maxPrice)

/-- A tick, and a band of signed words whose span is one too. -/
structure Banded : Prop where
  tick_pos : 1 ≤ instrument.tickSize
  min_word : SignedWord instrument.minPrice
  max_word : SignedWord instrument.maxPrice
  band : instrument.minPrice ≤ instrument.maxPrice
  span_lt : instrument.maxPrice - instrument.ladderBase < 2 ^ 63

end Instrument

namespace PriceLadder

variable (ladder : PriceLadder)

def checkedIndexOf (price : Int) : Option (Option Nat) :=
  if price < ladder.minPrice then
    some none
  else do
    let offset ← Word64.fits (price - ladder.minPrice)
    let offGrid ← Word64.rem offset ladder.tick
    if offGrid ≠ 0 then
      return none
    let ticks ← Word64.quot offset ladder.tick
    let index := Word64.ofSigned ticks
    return if index < ladder.levels.length then some index else none

def checkedPriceAt (index : Nat) : Option Int := do
  let ticks ← Word64.fits index
  let offset ← Word64.fits (ticks * ladder.tick)
  Word64.fits (ladder.minPrice + offset)

end PriceLadder

namespace Instrument

variable {instrument : Instrument}

variable (hTick : 1 ≤ instrument.tickSize)
include hTick

/-- The floor of the band is rounded towards zero. -/
theorem ladderBase_bounds :
    min 0 instrument.minPrice ≤ instrument.ladderBase ∧
      instrument.ladderBase ≤ max 0 instrument.minPrice ∧
      instrument.ladderBase < instrument.minPrice + instrument.tickSize := by
  have hPos : 0 < instrument.tickSize := hTick
  rcases Int.le_total 0 instrument.minPrice with hMin | hMin
  · rw [ladderBase, Int.tdiv_eq_ediv_of_nonneg hMin]
    have hNonneg := mul_nonneg (Int.ediv_nonneg hMin hPos.le) hPos.le
    have hLe := Int.ediv_mul_le instrument.minPrice hPos.ne'
    omega
  · rw [ladderBase, ← Int.neg_neg instrument.minPrice, Int.neg_tdiv,
      Int.tdiv_eq_ediv_of_nonneg (by omega), Int.neg_mul]
    have hNonneg := mul_nonneg (Int.ediv_nonneg (Int.neg_nonneg.mpr hMin) hPos.le) hPos.le
    have hLe := Int.ediv_mul_le (-instrument.minPrice) hPos.ne'
    have hLt := Int.lt_ediv_add_one_mul_self (-instrument.minPrice) hPos
    rw [Int.add_mul, Int.one_mul] at hLt
    omega

theorem base_word (hMin : SignedWord instrument.minPrice) : SignedWord instrument.ladderBase := by
  obtain ⟨hLow, hHigh, -⟩ := ladderBase_bounds hTick
  exact ⟨by have := hMin.1; omega, by have := hMin.2; omega⟩

theorem checkedLadderBase_eq (hMin : SignedWord instrument.minPrice) :
    instrument.checkedLadderBase = some instrument.ladderBase := by
  rw [checkedLadderBase, Word64.quot, if_neg (Word64.not_undivided hTick)]
  exact if_pos (base_word hTick hMin)

/-- A band without negative prices has a span in range. -/
theorem banded_of_nonneg (hMin : 0 ≤ instrument.minPrice)
    (hBand : instrument.minPrice ≤ instrument.maxPrice) (hMax : instrument.maxPrice < 2 ^ 63) :
    instrument.Banded := by
  obtain ⟨hLow, -⟩ := ladderBase_bounds hTick
  exact ⟨hTick, ⟨by omega, by omega⟩, ⟨by omega, hMax⟩, hBand, by omega⟩

end Instrument

namespace Instrument.Banded

variable {instrument : Instrument} (hBanded : instrument.Banded)
include hBanded

/-- The span may be short of a tick on either side of zero. -/
theorem ticks_bounds :
    0 ≤ (instrument.maxPrice - instrument.ladderBase).tdiv instrument.tickSize ∧
      (instrument.maxPrice - instrument.ladderBase).tdiv instrument.tickSize *
        instrument.tickSize ≤ max 0 (instrument.maxPrice - instrument.ladderBase) := by
  have hTick : 0 < instrument.tickSize := hBanded.tick_pos
  have hBand := hBanded.band
  obtain ⟨-, -, hBase⟩ := ladderBase_bounds hBanded.tick_pos
  by_cases hSpan : 0 ≤ instrument.maxPrice - instrument.ladderBase
  · rw [Int.tdiv_eq_ediv_of_nonneg hSpan]
    exact ⟨Int.ediv_nonneg hSpan hTick.le,
      (Int.ediv_mul_le _ hTick.ne').trans (le_max_right _ _)⟩
  · rw [← Int.neg_neg (instrument.maxPrice - instrument.ladderBase), Int.neg_tdiv,
      Int.tdiv_eq_zero_of_lt (by omega) (by omega)]
    simp

theorem checkedIsValidPrice_eq (price : Int) :
    instrument.checkedIsValidPrice price = some (instrument.isValidPrice price) := by
  unfold checkedIsValidPrice isValidPrice
  split
  · next hNonpos => rw [decide_eq_false (not_lt.mpr hNonpos)]; rfl
  next hPos =>
  rw [Word64.rem, if_neg (Word64.not_undivided hBanded.tick_pos), decide_eq_true (not_le.mp hPos)]
  rfl

/-- The ticks of the band end at its top. -/
theorem tick_bounds {index : Nat} (hIndex : index < instrument.tickCount) :
    0 ≤ index * instrument.tickSize ∧ (index : Int) < 2 ^ 63 ∧
      index * instrument.tickSize < 2 ^ 63 ∧
      SignedWord (instrument.ladderBase + index * instrument.tickSize) := by
  have hTick : 0 < instrument.tickSize := hBanded.tick_pos
  have hSpan := hBanded.span_lt
  obtain ⟨-, hMax⟩ := hBanded.max_word
  obtain ⟨hLow, hHigh⟩ := base_word hBanded.tick_pos hBanded.min_word
  obtain ⟨hTicks, hTop⟩ := hBanded.ticks_bounds
  unfold tickCount at hIndex
  have hLe := Int.mul_le_mul_of_nonneg_right (show (index : Int) ≤
    (instrument.maxPrice - instrument.ladderBase).tdiv instrument.tickSize by omega) hTick.le
  have hSelf := le_mul_of_one_le_right (Int.natCast_nonneg index) hBanded.tick_pos
  exact ⟨by positivity, by omega, by omega, by omega, by omega⟩

theorem checkedTickCount_eq : instrument.checkedTickCount = some instrument.tickCount := by
  have hBand := hBanded.band
  have hMax := hBanded.max_word.1
  obtain ⟨-, hHigh, -⟩ := ladderBase_bounds hBanded.tick_pos
  have hFits : SignedWord (instrument.maxPrice - instrument.ladderBase) :=
    ⟨by omega, hBanded.span_lt⟩
  have hTicks := hBanded.ticks_bounds.1
  have hFew := (hBanded.tick_bounds (Nat.lt_succ_self _)).2.1
  rw [Int.toNat_of_nonneg hTicks] at hFew
  simp only [checkedTickCount, checkedLadderBase_eq hBanded.tick_pos hBanded.min_word,
    Word64.quot, Word64.fits, if_pos hFits, if_neg (Word64.not_undivided hBanded.tick_pos),
    Word64.ofSigned_of hTicks hFew, Option.bind_eq_bind, Option.bind_some]
  exact congrArg some (Word64.add_of_lt (by unfold Word64.modulus; omega))

variable {ladder : PriceLadder} {side : Side} (hLaid : OrderBook.Laid ladder instrument side)
  {index : Nat} (hIndex : index < instrument.tickCount)
include hLaid hIndex

theorem checkedIndexOf_eq :
    ladder.checkedIndexOf (OrderBook.tickPrice instrument index) = some (some index) := by
  have hTick : 0 < instrument.tickSize := hBanded.tick_pos
  obtain ⟨hOffset, hFew, hFits, -⟩ := hBanded.tick_bounds hIndex
  rw [PriceLadder.checkedIndexOf, OrderBook.tickPrice, hLaid.minPrice, hLaid.tick, hLaid.length,
    if_neg (not_lt.mpr (Int.le_add_of_nonneg_right hOffset)), add_sub_cancel_left]
  simp only [Word64.fits_of hOffset hFits, Word64.rem, Word64.quot,
    if_neg (Word64.not_undivided hTick), Option.bind_eq_bind, Option.bind_some,
    Int.mul_tmod_left, Int.mul_tdiv_cancel _ hTick.ne',
    Word64.ofSigned_of (Int.natCast_nonneg index) hFew, Int.toNat_natCast, if_pos hIndex]
  rfl

theorem checkedPriceAt_eq :
    ladder.checkedPriceAt index = some (OrderBook.tickPrice instrument index) := by
  obtain ⟨hOffset, hFew, hFits, hPrice⟩ := hBanded.tick_bounds hIndex
  simp only [PriceLadder.checkedPriceAt, hLaid.minPrice, hLaid.tick, Option.bind_eq_bind,
    Word64.fits_of (Int.natCast_nonneg index) hFew, Word64.fits_of hOffset hFits,
    Option.bind_some]
  exact if_pos hPrice

end Instrument.Banded

/-- Every price that an instrument accepts is the price of one slot of its ladders, higher
prices have higher slots, and nothing overflows on the way. -/
theorem valid_prices_have_slots (instrument : Instrument) (hTick : 1 ≤ instrument.tickSize)
    (hMin : 1 ≤ instrument.minPrice) (hBand : instrument.minPrice ≤ instrument.maxPrice)
    (hMax : instrument.maxPrice < 2 ^ 63) (side : Side) :
    let ladder := PriceLadder.ofInstrument (side == .buy) instrument
    instrument.checkedLadderBase = some instrument.ladderBase ∧
      instrument.checkedTickCount = some instrument.tickCount ∧
      ∀ price, instrument.isValidPrice price = true →
        instrument.checkedIsValidPrice price = some true ∧
        ∃ index < instrument.tickCount, ladder.indexOf price = some index ∧
          ladder.checkedIndexOf price = some (some index) ∧ ladder.priceAt index = price ∧
          ladder.checkedPriceAt index = some price ∧
          ∀ higher, instrument.isValidPrice higher = true → price < higher →
            ∃ above, ladder.indexOf higher = some above ∧ index < above := by
  intro ladder
  have hBanded := Instrument.banded_of_nonneg hTick (Int.le_of_lt hMin) hBand hMax
  have hLaid : OrderBook.Laid ladder instrument side := OrderBook.laid_ofInstrument hTick side
  have hSlot : ∀ price, instrument.isValidPrice price = true →
      ∃ index < instrument.tickCount, ladder.indexOf price = some index ∧
        price = OrderBook.tickPrice instrument index := by
    intro price hPrice
    obtain ⟨index, hIndex, hAt⟩ := PriceLadder.exists_index_of_isValidPrice hTick hPrice
    refine ⟨index, hIndex, (PriceLadder.indexOf_eq_some_iff hLaid.valid.tick_pos _ _).mpr
      ⟨hLaid.length ▸ hIndex, ?_⟩, hAt⟩
    rw [hLaid.priceAt]
    exact hAt
  refine ⟨Instrument.checkedLadderBase_eq hTick hBanded.min_word, hBanded.checkedTickCount_eq,
    fun price hPrice =>
    ⟨by rw [hBanded.checkedIsValidPrice_eq, hPrice], ?_⟩⟩
  obtain ⟨index, hIndex, hFound, rfl⟩ := hSlot price hPrice
  refine ⟨index, hIndex, hFound, hBanded.checkedIndexOf_eq hLaid hIndex, hLaid.priceAt index,
    hBanded.checkedPriceAt_eq hLaid hIndex, fun higher hHigher hLt => ?_⟩
  obtain ⟨above, -, hAbove, rfl⟩ := hSlot higher hHigher
  rw [OrderBook.tickPrice, OrderBook.tickPrice, Int.add_lt_add_iff_left,
    Int.mul_lt_mul_right hTick] at hLt
  exact ⟨above, hAbove, Int.ofNat_lt.mp hLt⟩

/-- A band whose ends are not on the grid. -/
def unalignedBand : Instrument where
  tickSize := 5
  minPrice := 12
  maxPrice := 33

theorem valid_prices_have_slots_sample :
    unalignedBand.tickCount = 5 ∧
      ∃ index < 5, (PriceLadder.ofInstrument true unalignedBand).indexOf 30 = some index := by
  obtain ⟨-, -, hSlots⟩ :=
    valid_prices_have_slots unalignedBand (by decide) (by decide) (by decide) (by decide) .buy
  obtain ⟨-, index, hIndex, hFound, -⟩ := hSlots 30 (by decide)
  exact ⟨by decide, index, hIndex, hFound⟩

end ExchangeCore
