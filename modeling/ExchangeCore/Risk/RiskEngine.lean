import Mathlib.Data.List.AList
import ExchangeCore.Core.Types

/-!
# Pre-trade risk

Limits, exposure and the risk engine, function by function as
`src/risk/risk_engine.cpp` has them.  Working totals are unsigned words, the net
position is a signed word; both wrap where the source's types do.

The lemmas state what each callback does to the two things a caller can read
back, `exposure` and `open_orders`.  A released or filled quantity is clamped at
what is working, so releasing is truncated subtraction, and it makes no
difference whether the account or its entry exists yet.
-/

namespace ExchangeCore

/-- What one account has at stake in one instrument. -/
structure Exposure where
  netPosition : Int := 0
  workingBuy : Nat := 0
  workingSell : Nat := 0
  deriving DecidableEq, Inhabited

namespace Exposure

def projectedLong (exposure : Exposure) : Int :=
  Word64.toSigned (exposure.netPosition + Word64.toSigned exposure.workingBuy)

def projectedShort (exposure : Exposure) : Int :=
  Word64.toSigned (Word64.toSigned exposure.workingSell - exposure.netPosition)

/-- The working total of one side. -/
def working (exposure : Exposure) : Side → Nat
  | .buy => exposure.workingBuy
  | .sell => exposure.workingSell

variable (exposure : Exposure) (side : Side) (quantity : Nat)

def setWorking : Exposure :=
  match side with
  | .buy => { exposure with workingBuy := quantity }
  | .sell => { exposure with workingSell := quantity }

/-- Quantity starts working. -/
def commit : Exposure :=
  exposure.setWorking side (Word64.add (exposure.working side) quantity)

/-- Quantity stops working, clamped at what was recorded. -/
def release : Exposure :=
  exposure.setWorking side (exposure.working side - min (exposure.working side) quantity)

/-- Quantity trades. -/
def fill : Exposure :=
  match side with
  | .buy =>
    { exposure with
      netPosition := Word64.toSigned (exposure.netPosition + Word64.toSigned quantity)
      workingBuy := exposure.workingBuy - min exposure.workingBuy quantity }
  | .sell =>
    { exposure with
      netPosition := Word64.toSigned (exposure.netPosition - Word64.toSigned quantity)
      workingSell := exposure.workingSell - min exposure.workingSell quantity }

end Exposure

/-- The direction in which a fill on this side moves a position. -/
def Side.sign : Side → Int
  | .buy => 1
  | .sell => -1

/-- Pre-trade limits of one account.  Every limit defaults to unlimited. -/
structure AccountLimits where
  maxOrderQuantity : Nat := Word64.modulus - 1
  maxOrderNotional : Nat := Word64.modulus - 1
  maxOpenOrders : Nat := 2 ^ 32 - 1
  maxPosition : Nat := Word64.modulus - 1
  maxMessagesPerSecond : Nat := 0
  messageBurst : Nat := 1
  deriving DecidableEq, Inhabited

/-- Venue-level controls of one instrument. -/
structure InstrumentControls where
  collarBps : Nat := 0
  deriving DecidableEq, Inhabited

structure AccountState where
  limits : AccountLimits := {}
  openOrders : Nat := 0
  exposure : AList fun _ : InstrumentId => Exposure := ∅
  theoreticalArrival : Int := 0
  deriving DecidableEq

structure InstrumentState where
  controls : InstrumentControls := {}
  referencePrice : Int := noPrice
  deriving DecidableEq, Inhabited

/-- The account's exposure in one instrument, if it has an entry. -/
def AccountState.exposureIn (state : AccountState) (instrument : InstrumentId) : Exposure :=
  (state.exposure.lookup instrument).getD {}

structure RiskEngine where
  accounts : AList fun _ : AccountId => AccountState := ∅
  instruments : AList fun _ : InstrumentId => InstrumentState := ∅
  deriving DecidableEq

namespace RiskEngine

variable (risk : RiskEngine)

section

variable (account : AccountId)

def find : Option AccountState :=
  risk.accounts.lookup account

/-- The account's state, created if it is new. -/
def stateFor : AccountState :=
  (risk.find account).getD {}

def setState (state : AccountState) : RiskEngine :=
  { risk with accounts := risk.accounts.insert account state }

def configure (limits : AccountLimits) : RiskEngine :=
  risk.setState account { risk.stateFor account with limits := limits }

def limitsFor : Option AccountLimits :=
  (risk.find account).map AccountState.limits

end

def instrumentState (instrument : InstrumentId) : InstrumentState :=
  (risk.instruments.lookup instrument).getD {}

def configureInstrument (instrument : InstrumentId) (controls : InstrumentControls) : RiskEngine :=
  { risk with
    instruments := risk.instruments.insert instrument
      { risk.instrumentState instrument with controls := controls } }

def setReferencePrice (instrument : InstrumentId) (price : Int) : RiskEngine :=
  if 0 < price then
    { risk with
      instruments := risk.instruments.insert instrument
        { risk.instrumentState instrument with referencePrice := price } }
  else
    risk

def referencePrice (instrument : InstrumentId) : Int :=
  (risk.instrumentState instrument).referencePrice

/-- One message of budget, if the generic cell rate algorithm admits it. -/
def consumeRateBudget (state : AccountState) (now : Int) : AccountState × Bool :=
  let rate := state.limits.maxMessagesPerSecond
  if rate = 0 then
    (state, true)
  else
    let interval : Int := (1000000000 / rate : Nat)
    let burst := if state.limits.messageBurst = 0 then 1 else state.limits.messageBurst
    let tolerance := (burst - 1 : Nat) * interval
    if now < state.theoreticalArrival - tolerance then
      (state, false)
    else
      ({ state with theoreticalArrival := max now state.theoreticalArrival + interval }, true)

/-- Distance from the reference price, compared without forming a product that
could overflow. -/
def checkCollar (command : NewOrder) : RejectReason :=
  match risk.instruments.lookup command.instrument with
  | none => .none
  | some state =>
    if state.controls.collarBps = 0 then
      .none
    else
      let reference := state.referencePrice
      if reference ≤ 0 || command.type != .limit || decide (command.price ≤ 0) then
        .none
      else
        let deviation :=
          (if command.price > reference then command.price - reference
            else reference - command.price).toNat
        let collar := state.controls.collarBps
        if deviation > (Word64.modulus - 1) / 10000 then
          .priceCollar
        else if reference.toNat > (Word64.modulus - 1) / collar then
          .none
        else if deviation * 10000 > reference.toNat * collar then
          .priceCollar
        else
          .none

/-- The checks that need the account's own state, in the source's order. -/
def checkLimits (state : AccountState) (command : NewOrder) : RejectReason :=
  let limits := state.limits
  if command.quantity > limits.maxOrderQuantity then
    .riskLimit
  else
    let notional := Word64.wrap (command.price.toNat * command.quantity)
    let overflowed :=
      command.quantity != 0 && notional / command.quantity != command.price.toNat
    if command.type == .limit && decide (0 < command.price) &&
        (overflowed || decide (notional > limits.maxOrderNotional)) then
      .riskLimit
    else if state.openOrders ≥ limits.maxOpenOrders then
      .riskLimit
    else if limits.maxPosition ≠ Word64.modulus - 1 then
      let projected := (state.exposureIn command.instrument).commit command.side command.quantity
      let cap := Word64.toSigned limits.maxPosition
      if projected.projectedLong > cap ∨ projected.projectedShort > cap then .riskLimit
      else .none
    else
      .none

/-- Everything checked before an order reaches the book.  Only the rate budget
is consumed. -/
def check (command : NewOrder) (now : Int) : RiskEngine × RejectReason :=
  match risk.find command.account with
  | none => (risk, risk.checkCollar command)
  | some state =>
    let (state, admitted) := consumeRateBudget state now
    let risk := risk.setState command.account state
    if !admitted then
      (risk, .rateLimit)
    else if risk.checkCollar command ≠ .none then
      (risk, risk.checkCollar command)
    else
      (risk, checkLimits state command)

/-- Write back an account's exposure in one instrument. -/
def setExposure (account : AccountId) (state : AccountState)
    (instrument : InstrumentId) (exposure : Exposure) : RiskEngine :=
  risk.setState account
    { state with exposure := state.exposure.insert instrument exposure }

def onOrderRested (order : Order) : RiskEngine :=
  let state := risk.stateFor order.account
  risk.setExposure order.account { state with openOrders := state.openOrders + 1 }
    order.instrument ((state.exposureIn order.instrument).commit order.side order.remaining)

def onWorkingReleased (account : AccountId) (instrument : InstrumentId)
    (side : Side) (quantity : Nat) : RiskEngine :=
  match risk.find account with
  | none => risk
  | some state =>
    match state.exposure.lookup instrument with
    | none => risk
    | some exposure => risk.setExposure account state instrument (exposure.release side quantity)

/-- One side of a fill. -/
def applyFill (fill : Fill) (account : AccountId) (side : Side) : RiskEngine :=
  match risk.find account with
  | none => risk
  | some state =>
    risk.setExposure account state fill.instrument
      ((state.exposureIn fill.instrument).fill side fill.quantity)

def onFill (fill : Fill) : RiskEngine :=
  (risk.applyFill fill fill.aggressorAccount fill.aggressorSide).applyFill fill
    fill.restingAccount fill.aggressorSide.opposite

def onOrderClosed (account : AccountId) : RiskEngine :=
  match risk.find account with
  | none => risk
  | some state =>
    if 0 < state.openOrders then
      risk.setState account { state with openOrders := state.openOrders - 1 }
    else
      risk

def exposure (account : AccountId) (instrument : InstrumentId) : Exposure :=
  (risk.stateFor account).exposureIn instrument

def openOrders (account : AccountId) : Nat :=
  (risk.stateFor account).openOrders

/-! ## Working totals -/

section Working

variable (e : Exposure) (side : Side) (quantity : Nat)

theorem working_release (other : Side) :
    (e.release side quantity).working other =
      if other = side then e.working side - quantity else e.working other := by
  cases side <;> cases other <;> simp [Exposure.release, Exposure.setWorking, Exposure.working] <;>
    omega

theorem working_fill (other : Side) :
    (e.fill side quantity).working other =
      if other = side then e.working side - quantity else e.working other := by
  cases side <;> cases other <;> simp [Exposure.fill, Exposure.working] <;> omega

theorem working_commit (other : Side) :
    (e.commit side quantity).working other =
      if other = side then Word64.add (e.working side) quantity else e.working other := by
  cases side <;> cases other <;> simp [Exposure.commit, Exposure.setWorking, Exposure.working]

@[simp] theorem netPosition_release : (e.release side quantity).netPosition = e.netPosition := by
  cases side <;> rfl

@[simp] theorem netPosition_commit : (e.commit side quantity).netPosition = e.netPosition := by
  cases side <;> rfl

/-- A fill moves the position by its signed quantity, as a signed word. -/
theorem netPosition_fill :
    (e.fill side quantity).netPosition =
      Word64.toSigned (e.netPosition + side.sign * quantity) := by
  cases side
  · simp only [Exposure.fill, Side.sign, Word64.toSigned_add_toSigned, one_mul]
  simp only [Exposure.fill, Side.sign, Word64.toSigned_sub_toSigned]
  congr 1
  omega

/-- Nothing can be released from an empty exposure. -/
theorem release_default : ({} : Exposure).release side quantity = {} := by
  cases side <;> simp [Exposure.release, Exposure.setWorking, Exposure.working]

/-- Releasing quantity and recording it again changes nothing exactly if that much was on
record.  More than a word may come round to what was. -/
theorem commit_release_iff (hFits : e.working side < Word64.modulus) :
    (e.release side quantity).commit side quantity = e ↔
      quantity ≤ e.working side ∨ Word64.wrap quantity = e.working side := by
  have hSame : (e.release side quantity).commit side quantity = e ↔
      Word64.add (e.working side - quantity) quantity = e.working side := by
    have hClamp : e.working side - min (e.working side) quantity = e.working side - quantity := by
      omega
    cases e
    cases side <;>
      simp_all [Exposure.commit, Exposure.release, Exposure.setWorking, Exposure.working]
  rw [hSame]
  rcases Nat.le_total quantity (e.working side) with hLe | hLe
  · rw [Word64.add_of_lt (by omega), Nat.sub_add_cancel hLe]
    exact iff_of_true rfl (Or.inl hLe)
  · rw [Nat.sub_eq_zero_of_le hLe, Word64.add, Nat.zero_add]
    refine ⟨Or.inr, fun hEither => hEither.elim (fun hGe => ?_) id⟩
    rw [Nat.le_antisymm hGe hLe]
    exact Nat.mod_eq_of_lt hFits

end Working

/-! ## What each callback leaves to read -/

section Reading

variable (account : AccountId) (instrument : InstrumentId)

theorem find_setState (state : AccountState) (other : AccountId) :
    (risk.setState account state).find other =
      if other = account then some state else risk.find other := by
  unfold find setState
  by_cases hSame : other = account
  · subst hSame
    simp
  · simp [hSame, AList.lookup_insert_ne hSame]

theorem stateFor_setState (state : AccountState) (other : AccountId) :
    (risk.setState account state).stateFor other =
      if other = account then state else risk.stateFor other := by
  unfold stateFor
  rw [find_setState]
  split <;> rfl

theorem exposureIn_insert (state : AccountState) (e : Exposure) (other : InstrumentId) :
    ({ state with exposure := state.exposure.insert instrument e } : AccountState).exposureIn
      other = if other = instrument then e else state.exposureIn other := by
  unfold AccountState.exposureIn
  by_cases hSame : other = instrument
  · subst hSame
    simp
  · simp [hSame, AList.lookup_insert_ne hSame]

variable {state : AccountState} {other : AccountId} {limits : AccountLimits} {command : NewOrder}

/-- Reading an exposure back after one was written. -/
theorem exposure_setExposure (hState : ∀ i, state.exposureIn i = risk.exposure account i)
    (e : Exposure) (other : AccountId) (otherInstrument : InstrumentId) :
    (risk.setExposure account state instrument e).exposure other otherInstrument =
      if other = account ∧ otherInstrument = instrument then e
      else risk.exposure other otherInstrument := by
  rw [exposure, setExposure, stateFor_setState]
  by_cases hAccount : other = account
  · rw [if_pos hAccount, exposureIn_insert, hState, hAccount]
    simp only [true_and]
  · simp only [hAccount, false_and, if_false]
    rfl

theorem stateFor_of_find (hFind : risk.find account = some state) :
    risk.stateFor account = state := by
  rw [stateFor, hFind]
  rfl

theorem exposure_of_find_none (hFind : risk.find account = none) :
    risk.exposure account instrument = {} := by
  rw [exposure, stateFor, hFind]
  rfl

theorem exposure_onOrderRested (order : Order) (other : AccountId)
    (otherInstrument : InstrumentId) :
    (risk.onOrderRested order).exposure other otherInstrument =
      if other = order.account ∧ otherInstrument = order.instrument then
        (risk.exposure other otherInstrument).commit order.side order.remaining
      else risk.exposure other otherInstrument := by
  refine (exposure_setExposure risk _ _ ?_ _ _ _).trans ?_
  · exact fun _ => rfl
  refine ite_congr rfl (fun hHere => ?_) fun _ => rfl
  rw [hHere.1, hHere.2]
  rfl

theorem exposure_onWorkingReleased (side : Side) (quantity : Nat) (other : AccountId)
    (otherInstrument : InstrumentId) :
    (risk.onWorkingReleased account instrument side quantity).exposure other otherInstrument =
      if other = account ∧ otherInstrument = instrument then
        (risk.exposure other otherInstrument).release side quantity
      else risk.exposure other otherInstrument := by
  unfold onWorkingReleased
  cases hFind : risk.find account with
  | none =>
    dsimp only
    split
    · next h =>
        rw [h.1, exposure_of_find_none risk account _ hFind, release_default]
    · rfl
  | some state =>
    have hState := stateFor_of_find risk account hFind
    dsimp only
    cases hLookup : state.exposure.lookup instrument with
    | none =>
      dsimp only
      split
      · next h =>
          have hEmpty : risk.exposure other otherInstrument = {} := by
            rw [h.1, h.2, exposure, hState, AccountState.exposureIn, hLookup]
            rfl
          rw [hEmpty, release_default]
      · rfl
    | some e =>
      dsimp only
      rw [exposure_setExposure risk _ _ fun _ => by rw [exposure, hState]]
      refine ite_congr rfl (fun hHere => ?_) fun _ => rfl
      rw [hHere.1, hHere.2, exposure, hState, AccountState.exposureIn, hLookup]
      rfl

/-- The account is known, so fills move its position. -/
def Knows (risk : RiskEngine) (account : AccountId) : Prop := (risk.find account).isSome

instance : Decidable (risk.Knows account) := inferInstanceAs (Decidable (_ = true))

theorem exposure_applyFill (fill : Fill) (side : Side) (other : AccountId)
    (otherInstrument : InstrumentId) :
    (risk.applyFill fill account side).exposure other otherInstrument =
      if other = account ∧ otherInstrument = fill.instrument ∧ risk.Knows account then
        (risk.exposure other otherInstrument).fill side fill.quantity
      else risk.exposure other otherInstrument := by
  unfold applyFill
  cases hFind : risk.find account with
  | none =>
    have hUnknown : ¬ risk.Knows account := by simp [Knows, hFind]
    simp [hUnknown]
  | some state =>
    have hKnows : risk.Knows account := by simp [Knows, hFind]
    have hState := stateFor_of_find risk account hFind
    dsimp only
    rw [exposure_setExposure risk _ _ fun _ => by rw [exposure, hState]]
    simp only [hKnows, and_true]
    refine ite_congr rfl (fun hHere => ?_) fun _ => rfl
    rw [hHere.1, hHere.2, exposure, hState]

theorem exposure_onOrderClosed (other : AccountId) (otherInstrument : InstrumentId) :
    (risk.onOrderClosed account).exposure other otherInstrument =
      risk.exposure other otherInstrument := by
  unfold onOrderClosed
  cases hFind : risk.find account with
  | none => rfl
  | some state =>
    dsimp only
    split
    · unfold exposure
      rw [stateFor_setState]
      split
      · next h =>
          rw [h, stateFor_of_find risk account hFind]
          rfl
      · rfl
    · rfl

theorem exposure_setReferencePrice (price : Int) (other : AccountId)
    (otherInstrument : InstrumentId) :
    (risk.setReferencePrice instrument price).exposure other otherInstrument =
      risk.exposure other otherInstrument := by
  unfold setReferencePrice
  split <;> rfl

theorem exposure_configure (limits : AccountLimits) (other : AccountId)
    (otherInstrument : InstrumentId) :
    (risk.configure account limits).exposure other otherInstrument =
      risk.exposure other otherInstrument := by
  unfold exposure configure
  rw [stateFor_setState]
  split
  · next h =>
      rw [h]
      rfl
  · rfl

theorem openOrders_setState (state : AccountState) (other : AccountId) :
    (risk.setState account state).openOrders other =
      if other = account then state.openOrders else risk.openOrders other := by
  unfold openOrders
  rw [stateFor_setState]
  split <;> rfl

theorem openOrders_setReferencePrice (price : Int) (other : AccountId) :
    (risk.setReferencePrice instrument price).openOrders other = risk.openOrders other := by
  unfold setReferencePrice
  split <;> rfl

theorem openOrders_configure (limits : AccountLimits) (other : AccountId) :
    (risk.configure account limits).openOrders other = risk.openOrders other := by
  unfold configure
  rw [openOrders_setState]
  split
  · next h =>
      rw [h]
      rfl
  · rfl

theorem openOrders_onOrderRested (order : Order) (other : AccountId) :
    (risk.onOrderRested order).openOrders other =
      risk.openOrders other + if other = order.account then 1 else 0 := by
  unfold onOrderRested setExposure
  rw [openOrders_setState]
  split
  · next h =>
      rw [h]
      rfl
  · rfl

theorem openOrders_onOrderClosed (other : AccountId) :
    (risk.onOrderClosed account).openOrders other =
      risk.openOrders other - if other = account then 1 else 0 := by
  unfold onOrderClosed
  cases hFind : risk.find account with
  | none =>
    have hZero : risk.openOrders account = 0 := by
      rw [openOrders, stateFor, hFind]
      rfl
    dsimp only
    split
    · next h => rw [h, hZero]
    · rfl
  | some state =>
    have hCount : risk.openOrders account = state.openOrders := by
      rw [openOrders, stateFor_of_find risk account hFind]
    dsimp only
    split
    · rw [openOrders_setState]
      split
      · next h => rw [h, hCount]
      · rfl
    next hZero =>
    split
    · next h => rw [h, hCount]; omega
    · rfl

theorem openOrders_onWorkingReleased (side : Side) (quantity : Nat) (other : AccountId) :
    (risk.onWorkingReleased account instrument side quantity).openOrders other =
      risk.openOrders other := by
  unfold onWorkingReleased
  cases hFind : risk.find account with
  | none => rfl
  | some state =>
    dsimp only
    cases state.exposure.lookup instrument with
    | none => rfl
    | some e =>
      dsimp only [setExposure]
      rw [openOrders_setState]
      split
      · next h => rw [h, openOrders, stateFor_of_find risk account hFind]
      · rfl

/-- Writing an account's state back keeps every account's limits, as long as it
keeps that account's own. -/
theorem limitsFor_setState
    (hKeeps : ∀ limits, risk.limitsFor account = some limits → state.limits = limits)
    (hLimits : risk.limitsFor other = some limits) :
    (risk.setState account state).limitsFor other = some limits := by
  unfold limitsFor at *
  rw [find_setState]
  split
  · next h =>
      subst h
      rw [Option.map_some, hKeeps limits hLimits]
  · exact hLimits

theorem limits_stateFor (hLimits : risk.limitsFor account = some limits) :
    (risk.stateFor account).limits = limits := by
  unfold limitsFor at hLimits
  obtain ⟨state, hFind, rfl⟩ := Option.map_eq_some_iff.mp hLimits
  rw [stateFor_of_find risk account hFind]

theorem knows_of_limitsFor
    (hLimits : risk.limitsFor account = some limits) : risk.Knows account := by
  unfold limitsFor at hLimits
  obtain ⟨state, hFind, -⟩ := Option.map_eq_some_iff.mp hLimits
  rw [Knows, hFind]
  rfl

section Limits

variable (hLimits : risk.limitsFor other = some limits)

include hLimits

theorem limitsFor_onOrderRested (order : Order) :
    (risk.onOrderRested order).limitsFor other = some limits := by
  apply limitsFor_setState _ _ _ hLimits
  intro limits h
  exact limits_stateFor risk _ h

theorem limitsFor_onWorkingReleased (side : Side) (quantity : Nat) :
    (risk.onWorkingReleased account instrument side quantity).limitsFor other = some limits := by
  unfold onWorkingReleased
  cases hFind : risk.find account with
  | none => exact hLimits
  | some state =>
    dsimp only
    cases state.exposure.lookup instrument with
    | none => exact hLimits
    | some e =>
      apply limitsFor_setState _ _ _ hLimits
      intro limits h
      rw [limitsFor, hFind] at h
      exact Option.some.inj h

theorem limitsFor_applyFill (fill : Fill) (side : Side) :
    (risk.applyFill fill account side).limitsFor other = some limits := by
  unfold applyFill
  cases hFind : risk.find account with
  | none => exact hLimits
  | some state =>
    apply limitsFor_setState _ _ _ hLimits
    intro limits h
    rw [limitsFor, hFind] at h
    exact Option.some.inj h

theorem limitsFor_onOrderClosed : (risk.onOrderClosed account).limitsFor other = some limits := by
  unfold onOrderClosed
  cases hFind : risk.find account with
  | none => exact hLimits
  | some state =>
    dsimp only
    split
    · apply limitsFor_setState _ _ _ hLimits
      intro limits h
      rw [limitsFor, hFind] at h
      exact Option.some.inj h
    · exact hLimits

theorem limitsFor_setReferencePrice (price : Int) :
    (risk.setReferencePrice instrument price).limitsFor other = some limits := by
  unfold setReferencePrice
  split <;> exact hLimits

end Limits

/-! ## Checking an order -/

theorem consumeRateBudget_spec (state : AccountState) (now : Int) :
    (consumeRateBudget state now).1.limits = state.limits ∧
      (consumeRateBudget state now).1.openOrders = state.openOrders ∧
      (consumeRateBudget state now).1.exposure = state.exposure := by
  unfold consumeRateBudget
  dsimp only
  split
  · exact ⟨rfl, rfl, rfl⟩
  by_cases hEarly : now < state.theoreticalArrival -
      ((if state.limits.messageBurst = 0 then 1 else state.limits.messageBurst) - 1 : Nat) *
        (1000000000 / state.limits.maxMessagesPerSecond : Nat)
  · rw [if_pos hEarly]
    exact ⟨rfl, rfl, rfl⟩
  · rw [if_neg hEarly]
    exact ⟨rfl, rfl, rfl⟩

theorem check_of_find (hFind : risk.find command.account = some state) (now : Int) :
    (risk.check command now).1 =
      risk.setState command.account (consumeRateBudget state now).1 := by
  unfold check
  rw [hFind]
  dsimp only
  split
  · rfl
  · split <;> rfl

section

variable (command) (now : Int)

/-- A check leaves at most the rate budget changed. -/
theorem check_fst :
    (risk.check command now).1 = risk ∨
      ∃ state, risk.find command.account = some state ∧
        (risk.check command now).1 =
          risk.setState command.account (consumeRateBudget state now).1 := by
  cases hFind : risk.find command.account with
  | none =>
    unfold check
    rw [hFind]
    exact Or.inl rfl
  | some state => exact Or.inr ⟨state, rfl, risk.check_of_find hFind now⟩

theorem exposure_check (other : AccountId) (otherInstrument : InstrumentId) :
    (risk.check command now).1.exposure other otherInstrument =
      risk.exposure other otherInstrument := by
  rcases risk.check_fst command now with hSame | ⟨state, hFind, hSame⟩
  · rw [hSame]
  rw [hSame]
  unfold exposure
  rw [stateFor_setState]
  split
  · next h =>
      rw [h, stateFor_of_find risk _ hFind, AccountState.exposureIn, AccountState.exposureIn,
        (consumeRateBudget_spec state now).2.2]
  · rfl

theorem openOrders_check (other : AccountId) :
    (risk.check command now).1.openOrders other = risk.openOrders other := by
  rcases risk.check_fst command now with hSame | ⟨state, hFind, hSame⟩
  · rw [hSame]
  rw [hSame, openOrders_setState]
  split
  · next h =>
      rw [h, (consumeRateBudget_spec state now).2.1, openOrders, stateFor_of_find risk _ hFind]
  · rfl

theorem limitsFor_check (hLimits : risk.limitsFor other = some limits) :
    (risk.check command now).1.limitsFor other = some limits := by
  rcases risk.check_fst command now with hSame | ⟨state, hFind, hSame⟩
  · rw [hSame]
    exact hLimits
  rw [hSame]
  apply limitsFor_setState _ _ _ hLimits
  intro limits h
  rw [limitsFor, hFind] at h
  rw [(consumeRateBudget_spec state now).1]
  exact Option.some.inj h

end

/-- What passing the account's own limits says. -/
structure AdmittedBy (state : AccountState) (command : NewOrder) : Prop where
  size : command.quantity ≤ state.limits.maxOrderQuantity
  notional : command.type = .limit → 0 < command.price →
    command.price * command.quantity ≤ state.limits.maxOrderNotional
  count : state.openOrders < state.limits.maxOpenOrders
  position : state.limits.maxPosition ≠ Word64.modulus - 1 →
    ((state.exposureIn command.instrument).commit command.side command.quantity).projectedLong ≤
        Word64.toSigned state.limits.maxPosition ∧
      ((state.exposureIn command.instrument).commit command.side command.quantity).projectedShort ≤
        Word64.toSigned state.limits.maxPosition

/-- Dividing the wrapped product back finds every overflow. -/
theorem mul_of_div_wrap {price quantity : Nat}
    (hDiv : Word64.wrap (price * quantity) / quantity = price) :
    Word64.wrap (price * quantity) = price * quantity := by
  apply Nat.le_antisymm (Word64.wrap_le _)
  calc price * quantity = Word64.wrap (price * quantity) / quantity * quantity := by rw [hDiv]
    _ ≤ Word64.wrap (price * quantity) := Nat.div_mul_le_self _ _

theorem admittedBy_of_checkLimits
    (hPass : checkLimits state command = .none) : AdmittedBy state command := by
  unfold checkLimits at hPass
  dsimp only at hPass
  split at hPass
  · cases hPass
  next hSize =>
  split at hPass
  · cases hPass
  next hNotional =>
  split at hPass
  · cases hPass
  next hCount =>
  refine ⟨Nat.le_of_not_lt hSize, fun hLimit hPrice => ?_, Nat.lt_of_not_le hCount,
    fun hFinite => ?_⟩
  · -- Either nothing was asked for, or the product did not wrap.
    by_cases hZero : command.quantity = 0
    · rw [hZero]
      simp
    simp [hLimit, hPrice, hZero] at hNotional
    rw [mul_of_div_wrap hNotional.1] at hNotional
    have hCast : ((command.price.toNat : Nat) : Int) = command.price :=
      Int.toNat_of_nonneg hPrice.le
    have hBound : ((command.price.toNat * command.quantity : Nat) : Int) ≤
        state.limits.maxOrderNotional := Int.ofNat_le.mpr hNotional.2
    rw [Int.natCast_mul, hCast] at hBound
    exact hBound
  · rw [if_pos hFinite] at hPass
    split at hPass
    · cases hPass
    next hRoom =>
    rw [not_or] at hRoom
    exact ⟨Int.not_lt.mp hRoom.1, Int.not_lt.mp hRoom.2⟩

theorem checkLimits_consumeRateBudget (state : AccountState) (command : NewOrder) (now : Int) :
    checkLimits (consumeRateBudget state now).1 command = checkLimits state command := by
  obtain ⟨hLimits, hOpen, hExposure⟩ := consumeRateBudget_spec state now
  unfold checkLimits AccountState.exposureIn
  rw [hLimits, hOpen, hExposure]

/-- An order of a known account passes the check if it passes every part of it, with the
account as it stood. -/
theorem check_eq_none_iff {now : Int} (hFind : risk.find command.account = some state) :
    (risk.check command now).2 = .none ↔ (consumeRateBudget state now).2 = true ∧
      risk.checkCollar command = .none ∧ checkLimits state command = .none := by
  have hCollar : ∀ after, (risk.setState command.account after).checkCollar command =
      risk.checkCollar command := fun _ => rfl
  unfold check
  rw [hFind]
  dsimp only
  rw [hCollar, checkLimits_consumeRateBudget]
  cases (consumeRateBudget state now).2 with
  | false => simp
  | true =>
    by_cases hPasses : risk.checkCollar command = .none
    · simp [hPasses]
    · simp [hPasses]

theorem admittedBy_of_check {now : Int} (hFind : risk.find command.account = some state)
    (hCheck : (risk.check command now).2 = .none) : AdmittedBy state command :=
  admittedBy_of_checkLimits ((risk.check_eq_none_iff hFind).mp hCheck).2.2

end Reading

end RiskEngine
end ExchangeCore
