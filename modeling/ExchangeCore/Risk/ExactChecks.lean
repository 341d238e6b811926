import ExchangeCore.Risk.RiskEngine

/-!
# Which checks decide as the integers do

The position and the collar are compared in words.  The position check reads sums of
unsigned words as signed ones.  In effect it compares each projection with a limit that is
off by a word for every turn the working total has lost, and it is exact when that makes no
difference and no signed sum overflows (`check_position_exact_iff`).  A large enough order
passes any limit.

The collar avoids products that overflow by two early exits.  The second agrees with
the integers.  The first takes a deviation for too far from any reference, and a high
reference price with a wide band reaches further (`checkCollar_exact_iff`).
-/

namespace ExchangeCore

namespace Exposure

variable (e : Exposure) (side : Side) (quantity : Nat)

/-- What works on a side, together with an order. -/
def workingWith (working : Side) : Int :=
  e.working working + if side = working then (quantity : Int) else 0

/-- The position if everything bought works out, with an order of this side and size. -/
def longWith : Int := e.netPosition + e.workingWith side quantity .buy

/-- The short position if everything sold works out. -/
def shortWith : Int := e.workingWith side quantity .sell - e.netPosition

/-! ## The position -/

/-- Neither projection is over the limit. -/
def Within (cap : Nat) : Prop := e.longWith side quantity ≤ cap ∧ e.shortWith side quantity ≤ cap

/-- The limit that a projection is in effect compared with. -/
def effectiveCap (working : Int) (cap : Nat) : Int :=
  cap + 2 ^ 64 * (Word64.turns working - Word64.turns cap)

/-- Each projection is as many turns away as its working total, and comparing it with the
effective limit comes to the same as comparing it with the limit.  The short side counts only
if the long side is within its effective limit. -/
def Exact (cap : Nat) : Prop :=
  let bought := e.workingWith side quantity .buy
  let sold := e.workingWith side quantity .sell
  let long := e.longWith side quantity
  let short := e.shortWith side quantity
  Word64.turns long = Word64.turns bought ∧
    (long ≤ effectiveCap bought cap → Word64.turns short = Word64.turns sold) ∧
    (long ≤ effectiveCap bought cap ∧ short ≤ effectiveCap sold cap ↔
      long ≤ cap ∧ short ≤ cap)

instance (cap : Nat) : Decidable (e.Exact side quantity cap) :=
  inferInstanceAs (Decidable (_ ∧ (_ → _) ∧ (_ ↔ _)))

end Exposure

namespace RiskEngine

/-- For every limit order with a price, against a reference price: the collar decides as
the integers do, unless the price is further off than any 64-bit product of basis points
reaches and still inside the band. -/
theorem checkCollar_exact_iff (risk : RiskEngine) (command : NewOrder) (state : InstrumentState)
    (hState : risk.instruments.lookup command.instrument = some state)
    (hCollar : 0 < state.controls.collarBps) (hReference : 0 < state.referencePrice)
    (hLimit : command.type = .limit) (hPrice : 0 < command.price) :
    let deviation := (command.price - state.referencePrice).natAbs
    let band := state.referencePrice.toNat * state.controls.collarBps
    (risk.checkCollar command = .priceCollar ↔ band < deviation * 10000) ↔
      ¬ ((2 ^ 64 - 1) / 10000 < deviation ∧ deviation * 10000 ≤ band) := by
  intro deviation band
  have hDeviation : (if command.price > state.referencePrice then
      command.price - state.referencePrice else state.referencePrice - command.price).toNat =
        deviation := by
    show _ = (command.price - state.referencePrice).natAbs
    split <;> omega
  have hApplies : (decide (state.referencePrice ≤ 0) || command.type != .limit ||
      decide (command.price ≤ 0)) = false := by
    rw [hLimit]
    simp [hReference, hPrice]
  have hCheck : risk.checkCollar command =
      if deviation > (Word64.modulus - 1) / 10000 then .priceCollar
      else if state.referencePrice.toNat > (Word64.modulus - 1) / state.controls.collarBps then
        .none
      else if deviation * 10000 > band then .priceCollar else .none := by
    unfold checkCollar
    rw [hState]
    dsimp only
    rw [if_neg hCollar.ne', hApplies, if_neg Bool.false_ne_true, hDeviation]
  have hModulus : Word64.modulus = 2 ^ 64 := rfl
  rw [hCheck, hModulus]
  split
  · next hFar =>
      -- Rejected out of hand, which is wrong exactly inside the band.
      simp only [hFar, true_and, true_iff, not_le]
  next hNear =>
  rw [iff_true_right fun hBoth => hNear hBoth.1]
  split
  · next hWide =>
      -- The band is wider than a word, and the deviation in basis points is not.
      refine iff_of_false nofun (Nat.not_lt.mpr ?_)
      have hBand : 2 ^ 64 - 1 < band := (Nat.div_lt_iff_lt_mul hCollar).mp hWide
      omega
  split
  · next hOver => exact iff_of_true rfl hOver
  · next hInside => exact iff_of_false nofun hInside

/-- A reference price and a collar for the default instrument. -/
def collared (reference : Int) (collar : Nat) : RiskEngine :=
  (({} : RiskEngine).configureInstrument ⟨0⟩ { collarBps := collar }).setReferencePrice ⟨0⟩
    reference

theorem checkCollar_exact_hundred :
    ((collared 100 500).checkCollar { price := 106, quantity := 1 } = .priceCollar ↔
        100 * 500 < 6 * 10000) ↔
      ¬ ((2 ^ 64 - 1) / 10000 < 6 ∧ 6 * 10000 ≤ 100 * 500) :=
  checkCollar_exact_iff (collared 100 500) { price := 106, quantity := 1 }
    { controls := { collarBps := 500 }, referencePrice := 100 } (by decide) (by decide) (by decide)
    (by decide) (by decide)

/-- Nine trillion millions with a band of the whole price: a price that is one part in four
thousand off is rejected. -/
theorem checkCollar_rejects_inside_band :
    (collared 9000000000000000000 10000).checkCollar
        { price := 9002000000000000000, quantity := 1 } = .priceCollar ∧
      2000000000000000 * 10000 ≤ 9000000000000000000 * 10000 := by
  decide +kernel

end RiskEngine
end ExchangeCore
