import ExchangeCore.Core.MatchingEngine
import ExchangeCore.PriceTime.Ledger

/-!
# What settling a command does to exposure

The engine reports a command's fills and withdrawals to risk one by one.  Each
takes quantity off a working total by truncated subtraction, so a whole
settlement takes off the sum, and moves a known account's position by the signed
sum.  A fill is reported for both of its parties, and for the aggressor it is
the aggressor's own side that is taken from.
-/

namespace ExchangeCore

open List

section

variable (account : AccountId) (instrument : InstrumentId)

/-- What a fill takes off the working total of an account on one side. -/
def Fill.releases (side : Side) (fill : Fill) : Nat :=
  if fill.instrument = instrument then
    (if fill.aggressorAccount = account ∧ fill.aggressorSide = side then fill.quantity else 0) +
      if fill.restingAccount = account ∧ fill.aggressorSide.opposite = side then fill.quantity
      else 0
  else 0

/-- What a withdrawal takes off the working total of an account on one side. -/
def Withdrawal.releases (side : Side) (withdrawal : Withdrawal) : Nat :=
  if withdrawal.instrument = instrument ∧ withdrawal.account = account ∧
      withdrawal.side = side then withdrawal.quantity
  else 0

/-- What a fill adds to the position of an account. -/
def Fill.moves (fill : Fill) : Int :=
  if fill.instrument = instrument then
    (if fill.aggressorAccount = account then fill.aggressorSide.sign * fill.quantity else 0) +
      if fill.restingAccount = account then fill.aggressorSide.opposite.sign * fill.quantity
      else 0
  else 0

/-- Each party's share of the movement. -/
theorem Fill.moves_parties (fill : Fill) :
    fill.moves account instrument =
      (if fill.instrument = instrument ∧ fill.aggressorAccount = account then
        fill.aggressorSide.sign * fill.quantity else 0) +
      if fill.instrument = instrument ∧ fill.restingAccount = account then
        fill.aggressorSide.opposite.sign * fill.quantity else 0 := by
  unfold Fill.moves
  by_cases hInstrument : fill.instrument = instrument
  · simp only [hInstrument, true_and, if_true]
  · simp only [hInstrument, false_and, if_false, Int.add_zero]

end

namespace RiskEngine

variable (risk : RiskEngine) (account : AccountId) (instrument : InstrumentId) (side : Side)

/-! ## Working totals -/

theorem working_applyFill (fill : Fill) (party : AccountId) (partySide : Side) :
    ((risk.applyFill fill party partySide).exposure account instrument).working side =
      (risk.exposure account instrument).working side -
        if fill.instrument = instrument ∧ party = account ∧ partySide = side then fill.quantity
        else 0 := by
  rw [exposure_applyFill]
  by_cases hKnows : risk.Knows party
  · split
    · next h =>
        rw [working_fill]
        obtain ⟨rfl, rfl, -⟩ := h
        by_cases hSide : side = partySide
        · subst hSide
          simp
        · rw [if_neg hSide, if_neg (fun h => hSide h.2.2.symm), Nat.sub_zero]
    · next h =>
        rw [if_neg (fun h' => h ⟨h'.2.1.symm, h'.1.symm, hKnows⟩), Nat.sub_zero]
  · -- An unknown account works nothing, so nothing is taken off.
    rw [if_neg (fun h => hKnows h.2.2)]
    split
    · next h =>
        have hFind : risk.find party = none := by simpa [Knows] using hKnows
        rw [← h.2.1, exposure_of_find_none risk party instrument hFind]
        cases side <;> simp [Exposure.working]
    · rw [Nat.sub_zero]

theorem working_settleFill (fill : Fill) :
    ((risk.settleFill fill).exposure account instrument).working side =
      (risk.exposure account instrument).working side -
        fill.releases account instrument side := by
  have hFill : ((risk.onFill fill).exposure account instrument).working side =
      (risk.exposure account instrument).working side - fill.releases account instrument side := by
    unfold onFill Fill.releases
    rw [working_applyFill, working_applyFill]
    split_ifs <;> simp_all
    omega
  unfold settleFill
  split
  · rw [exposure_onOrderClosed]
    exact hFill
  · exact hFill

theorem working_settleWithdrawal (withdrawal : Withdrawal) :
    ((risk.settleWithdrawal withdrawal).exposure account instrument).working side =
      (risk.exposure account instrument).working side -
        withdrawal.releases account instrument side := by
  have hReleased : ((risk.onWorkingReleased withdrawal.account withdrawal.instrument
        withdrawal.side withdrawal.quantity).exposure account instrument).working side =
      (risk.exposure account instrument).working side -
        withdrawal.releases account instrument side := by
    rw [exposure_onWorkingReleased]
    unfold Withdrawal.releases
    split
    · next h =>
        rw [working_release]
        obtain ⟨rfl, rfl⟩ := h
        by_cases hSide : side = withdrawal.side
        · subst hSide
          simp
        · simp [hSide, Ne.symm hSide]
    · next h =>
        rw [if_neg (fun h' => h ⟨h'.2.1.symm, h'.1.symm⟩), Nat.sub_zero]
  unfold settleWithdrawal
  dsimp only
  split
  · rw [exposure_onOrderClosed]
    exact hReleased
  · exact hReleased

theorem working_foldl_settleFill (fills : List Fill) :
    ((fills.foldl settleFill risk).exposure account instrument).working side =
      (risk.exposure account instrument).working side -
        (fills.map (Fill.releases account instrument side)).sum := by
  induction fills generalizing risk with
  | nil => rfl
  | cons fill fills ih =>
    rw [foldl_cons, ih, working_settleFill, map_cons, sum_cons]
    omega

theorem working_foldl_settleWithdrawal (withdrawals : List Withdrawal) :
    ((withdrawals.foldl settleWithdrawal risk).exposure account instrument).working side =
      (risk.exposure account instrument).working side -
        (withdrawals.map (Withdrawal.releases account instrument side)).sum := by
  induction withdrawals generalizing risk with
  | nil => rfl
  | cons withdrawal withdrawals ih =>
    rw [foldl_cons, ih, working_settleWithdrawal, map_cons, sum_cons]
    omega

section

variable (target : InstrumentId) (fills : List Fill) (withdrawals : List Withdrawal)

theorem exposure_settle :
    (risk.settle target fills withdrawals).exposure account instrument =
      (withdrawals.foldl settleWithdrawal (fills.foldl settleFill risk)).exposure account
        instrument := by
  unfold settle
  dsimp only
  split
  · rfl
  · exact exposure_setReferencePrice _ _ _ _ _

/-- A settlement takes off a working total everything its fills and withdrawals
release. -/
theorem working_settle :
    ((risk.settle target fills withdrawals).exposure account instrument).working side =
      (risk.exposure account instrument).working side -
        ((fills.map (Fill.releases account instrument side)).sum +
          (withdrawals.map (Withdrawal.releases account instrument side)).sum) := by
  rw [exposure_settle, working_foldl_settleWithdrawal, working_foldl_settleFill]
  omega

end

/-! ## Limits and positions -/

section Known

variable {limits : AccountLimits}

section

variable (hLimits : risk.limitsFor account = some limits)
include hLimits

theorem limitsFor_settleFill (fill : Fill) :
    (risk.settleFill fill).limitsFor account = some limits := by
  have hFill : (risk.onFill fill).limitsFor account = some limits :=
    limitsFor_applyFill _ _ (limitsFor_applyFill _ _ hLimits _ _) _ _
  unfold settleFill
  split
  · exact limitsFor_onOrderClosed _ _ hFill
  · exact hFill

theorem limitsFor_settleWithdrawal (withdrawal : Withdrawal) :
    (risk.settleWithdrawal withdrawal).limitsFor account = some limits := by
  have hReleased := limitsFor_onWorkingReleased risk withdrawal.account withdrawal.instrument
    hLimits withdrawal.side withdrawal.quantity
  unfold settleWithdrawal
  dsimp only
  split
  · exact limitsFor_onOrderClosed _ _ hReleased
  · exact hReleased

theorem limitsFor_foldl_settleFill
    (fills : List Fill) : (fills.foldl settleFill risk).limitsFor account = some limits := by
  induction fills generalizing risk with
  | nil => exact hLimits
  | cons fill fills ih => exact ih _ (limitsFor_settleFill risk account hLimits fill)

/-- Settling leaves the limits of every known account alone. -/
theorem limitsFor_settle
    (target : InstrumentId) (fills : List Fill) (withdrawals : List Withdrawal) :
    (risk.settle target fills withdrawals).limitsFor account = some limits := by
  have hWithdrawn : ∀ (risk : RiskEngine), risk.limitsFor account = some limits →
      (withdrawals.foldl settleWithdrawal risk).limitsFor account = some limits := by
    induction withdrawals with
    | nil => exact fun _ h => h
    | cons withdrawal withdrawals ih =>
      exact fun risk h => ih _ (limitsFor_settleWithdrawal risk account h withdrawal)
  have hSettled := hWithdrawn _ (limitsFor_foldl_settleFill risk account hLimits fills)
  unfold settle
  dsimp only
  split
  · exact hSettled
  · exact limitsFor_setReferencePrice _ _ hSettled _

end

theorem netPosition_applyFill (fill : Fill) (party : AccountId) (partySide : Side)
    (hKnows : risk.Knows account)
    (hSigned : Word64.toSigned (risk.exposure account instrument).netPosition =
      (risk.exposure account instrument).netPosition) :
    ((risk.applyFill fill party partySide).exposure account instrument).netPosition =
      Word64.toSigned ((risk.exposure account instrument).netPosition +
        if fill.instrument = instrument ∧ party = account then partySide.sign * fill.quantity
        else 0) := by
  rw [exposure_applyFill]
  by_cases hParty : party = account
  · subst hParty
    by_cases hInstrument : instrument = fill.instrument
    · subst hInstrument
      rw [if_pos ⟨rfl, rfl, hKnows⟩, netPosition_fill, if_pos ⟨rfl, rfl⟩]
    · rw [if_neg (fun h => hInstrument h.2.1), if_neg (fun h => hInstrument h.1.symm),
        Int.add_zero, hSigned]
  · rw [if_neg (fun h => hParty h.1.symm), if_neg (fun h => hParty h.2), Int.add_zero, hSigned]

theorem netPosition_settleFill (fill : Fill) (hLimits : risk.limitsFor account = some limits)
    (hSigned : Word64.toSigned (risk.exposure account instrument).netPosition =
      (risk.exposure account instrument).netPosition) :
    ((risk.settleFill fill).exposure account instrument).netPosition =
      Word64.toSigned ((risk.exposure account instrument).netPosition +
        fill.moves account instrument) := by
  have hFill : ((risk.onFill fill).exposure account instrument).netPosition =
      Word64.toSigned ((risk.exposure account instrument).netPosition +
        fill.moves account instrument) := by
    unfold onFill
    have hFirst := netPosition_applyFill risk account instrument fill fill.aggressorAccount
      fill.aggressorSide (knows_of_limitsFor risk account hLimits) hSigned
    rw [netPosition_applyFill _ _ _ _ _ _
      (knows_of_limitsFor _ _ (limitsFor_applyFill _ _ hLimits _ _))
      (by rw [hFirst]; exact Int.bmod_bmod), hFirst, Word64.toSigned_toSigned_add,
      Fill.moves_parties, Int.add_assoc]
  unfold settleFill
  split
  · rw [exposure_onOrderClosed]
    exact hFill
  · exact hFill

theorem netPosition_foldl_settleFill (fills : List Fill)
    (hLimits : risk.limitsFor account = some limits)
    (hSigned : Word64.toSigned (risk.exposure account instrument).netPosition =
      (risk.exposure account instrument).netPosition) :
    ((fills.foldl settleFill risk).exposure account instrument).netPosition =
      Word64.toSigned ((risk.exposure account instrument).netPosition +
        (fills.map (Fill.moves account instrument)).sum) := by
  induction fills generalizing risk with
  | nil => simp [hSigned]
  | cons fill fills ih =>
    have hFirst := netPosition_settleFill risk account instrument fill hLimits hSigned
    rw [foldl_cons, ih _ (limitsFor_settleFill risk account hLimits fill)
      (by rw [hFirst]; exact Int.bmod_bmod), hFirst, Word64.toSigned_toSigned_add,
      map_cons, sum_cons, Int.add_assoc]

theorem netPosition_foldl_settleWithdrawal (withdrawals : List Withdrawal) :
    ((withdrawals.foldl settleWithdrawal risk).exposure account instrument).netPosition =
      (risk.exposure account instrument).netPosition := by
  induction withdrawals generalizing risk with
  | nil => rfl
  | cons withdrawal withdrawals ih =>
    rw [foldl_cons, ih]
    unfold settleWithdrawal
    dsimp only
    split
    · rw [exposure_onOrderClosed, exposure_onWorkingReleased]
      split <;> simp
    · rw [exposure_onWorkingReleased]
      split <;> simp

/-- A settlement moves a known account's position by its fills' signed sum. -/
theorem netPosition_settle (target : InstrumentId) (fills : List Fill)
    (withdrawals : List Withdrawal) (hLimits : risk.limitsFor account = some limits)
    (hSigned : Word64.toSigned (risk.exposure account instrument).netPosition =
      (risk.exposure account instrument).netPosition) :
    ((risk.settle target fills withdrawals).exposure account instrument).netPosition =
      Word64.toSigned ((risk.exposure account instrument).netPosition +
        (fills.map (Fill.moves account instrument)).sum) := by
  rw [exposure_settle, netPosition_foldl_settleWithdrawal,
    netPosition_foldl_settleFill risk account instrument fills hLimits hSigned]

end Known

end RiskEngine

/-! ## The settlement of one order -/

section Order

variable {instrument : Instrument} {order : Order} (account : AccountId) (side : Side)
  {fills : List Fill} {withdrawals : List Withdrawal} {id : InstrumentId}

/-- The fills of one order release its account's own side by their total, and
the other side of each account it traded with. -/
theorem sum_releases_fills (hFills : ∀ fill ∈ fills, Fill.Of instrument order fill) :
    (fills.map (Fill.releases account instrument.id side)).sum =
      if side = order.side then
        if order.account = account then Fill.total fills else 0
      else Fill.takenFrom account fills := by
  induction fills with
  | nil => simp
  | cons fill fills ih =>
    have hFill := hFills fill (by simp)
    rw [map_cons, sum_cons, ih fun f hf => hFills f (by simp [hf]), Fill.total_cons,
      Fill.takenFrom_cons, Fill.releases, if_pos hFill.instrument_eq, hFill.account_eq,
      hFill.side_eq]
    rcases PriceTime.Book.queue_cases order.side side with rfl | rfl
    · simp only [Side.opposite_ne, and_true, and_false, if_false, Nat.add_zero, if_true]
      split <;> omega
    · simp only [(Side.opposite_ne order.side).symm, Side.opposite_ne, and_true, and_false,
        if_false, Nat.zero_add]

theorem sum_releases_withdrawals
    (hWithdrawals : ∀ withdrawal ∈ withdrawals, Withdrawal.Of instrument order withdrawal) :
    (withdrawals.map (Withdrawal.releases account instrument.id side)).sum =
      if side = order.side then 0 else Withdrawal.takenFrom account withdrawals := by
  induction withdrawals with
  | nil => simp
  | cons withdrawal withdrawals ih =>
    have hWithdrawal := hWithdrawals withdrawal (by simp)
    rw [map_cons, sum_cons, ih fun w hw => hWithdrawals w (by simp [hw]),
      Withdrawal.takenFrom_cons, Withdrawal.releases, hWithdrawal.instrument_eq,
      hWithdrawal.side_eq]
    rcases PriceTime.Book.queue_cases order.side side with rfl | rfl
    · simp only [Side.opposite_ne, and_false, if_false, if_true]
    · simp only [Side.opposite_ne, and_true, true_and, if_false]

variable (hFills : ∀ fill ∈ fills, Fill.Of instrument order fill)
include hFills

/-- Elsewhere the fills and withdrawals of an order release nothing. -/
theorem sum_releases_elsewhere
    (hWithdrawals : ∀ withdrawal ∈ withdrawals, Withdrawal.Of instrument order withdrawal)
    (hElsewhere : id ≠ instrument.id) :
    (fills.map (Fill.releases account id side)).sum +
      (withdrawals.map (Withdrawal.releases account id side)).sum = 0 := by
  have hFill : ∀ fill ∈ fills, Fill.releases account id side fill = 0 := by
    intro fill hMem
    rw [Fill.releases, (hFills fill hMem).instrument_eq, if_neg (Ne.symm hElsewhere)]
  have hWithdrawal : ∀ withdrawal ∈ withdrawals,
      Withdrawal.releases account id side withdrawal = 0 := by
    intro withdrawal hMem
    rw [Withdrawal.releases, (hWithdrawals withdrawal hMem).instrument_eq,
      if_neg (fun h => hElsewhere h.1.symm)]
  rw [map_congr_left hFill, map_congr_left hWithdrawal]
  simp

/-- The fills of one order move its account one way and each account it traded
with the other way. -/
theorem sum_moves :
    (fills.map (Fill.moves account instrument.id)).sum =
      order.side.sign * ((if order.account = account then Fill.total fills else 0 : Nat) -
        Fill.takenFrom account fills : Int) := by
  induction fills with
  | nil => simp
  | cons fill fills ih =>
    have hFill := hFills fill (by simp)
    rw [map_cons, sum_cons, ih fun f hf => hFills f (by simp [hf]), Fill.total_cons,
      Fill.takenFrom_cons, Fill.moves, if_pos hFill.instrument_eq, hFill.account_eq, hFill.side_eq]
    cases order.side <;> simp only [Side.sign, Side.opposite] <;> split_ifs <;> push_cast <;>
      omega

theorem sum_moves_elsewhere
    (hElsewhere : id ≠ instrument.id) : (fills.map (Fill.moves account id)).sum = 0 := by
  have hFill : ∀ fill ∈ fills, Fill.moves account id fill = 0 := by
    intro fill hMem
    rw [Fill.moves, (hFills fill hMem).instrument_eq, if_neg (Ne.symm hElsewhere)]
  rw [map_congr_left hFill]
  simp

end Order

end ExchangeCore
