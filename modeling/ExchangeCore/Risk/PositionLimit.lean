import ExchangeCore.Core.Admission
import ExchangeCore.Risk.Accounts

/-!
# The position limit along a run

The limit is enforced once, when an order is admitted, against the position the
account would have if everything it works traded one way.  From then on it holds
only as long as what is on record covers what rests, so that every later fill
moves quantity from the working total into the position and leaves their sum
alone.

`Within` is that invariant for one account: the record covers the books, and on
each side position and working total together stay under the limit.  It is kept by
every event except three kinds of command of the account itself, which `Guarded`
excludes: an order that trades beside another of its own (the record falls below
the book), an amendment that asks for more (it is never checked), and an order so
large that the projection leaves the signed range.
-/

namespace ExchangeCore

open PriceTime

namespace RiskEngine

/-- An order that passes the check leaves room for itself, if the projection
stays inside the signed range. -/
theorem room_of_check {risk : RiskEngine} {command : NewOrder} {now : Int}
    {limits : AccountLimits} (hLimits : risk.limitsFor command.account = some limits)
    (hMax : limits.maxPosition < 2 ^ 63) (hCheck : (risk.check command now).2 = .none)
    (hLow : -(2 ^ 63) ≤ command.side.sign *
      (risk.exposure command.account command.instrument).netPosition) (hHigh : command.side.sign *
        (risk.exposure command.account command.instrument).netPosition +
      (risk.exposure command.account command.instrument).working command.side +
      command.quantity < 2 ^ 63) :
    command.side.sign * (risk.exposure command.account command.instrument).netPosition +
      (risk.exposure command.account command.instrument).working command.side +
      command.quantity ≤ limits.maxPosition := by
  unfold limitsFor at hLimits
  obtain ⟨state, hFind, hSame⟩ := Option.map_eq_some_iff.mp hLimits
  have hExposure : risk.exposure command.account command.instrument =
      state.exposureIn command.instrument := by
    rw [exposure, stateFor_of_find risk _ hFind]
  rw [hExposure] at hLow hHigh ⊢
  have hFinite : state.limits.maxPosition ≠ Word64.modulus - 1 := by
    unfold Word64.modulus
    rw [hSame]
    omega
  have hCap : Word64.toSigned limits.maxPosition = limits.maxPosition :=
    Word64.toSigned_of_range (by omega) (by omega)
  have hRoom := (admittedBy_of_check risk hFind hCheck).position hFinite
  rw [hSame, hCap] at hRoom
  generalize state.exposureIn command.instrument = e at *
  cases hSide : command.side with
  | buy =>
    rw [hSide] at hRoom hLow hHigh
    have hLong := hRoom.1
    simp only [Exposure.projectedLong, Exposure.commit, Exposure.setWorking,
      Exposure.working, Side.sign, one_mul] at hLong hLow hHigh ⊢
    rw [Word64.toSigned_add_word, Word64.toSigned_add_toSigned,
      Word64.toSigned_of_range (by omega) (by omega)] at hLong
    omega
  | sell =>
    rw [hSide] at hRoom hLow hHigh
    have hShort := hRoom.2
    simp only [Exposure.projectedShort, Exposure.commit, Exposure.setWorking,
      Exposure.working, Side.sign] at hShort hLow hHigh ⊢
    rw [Word64.toSigned_add_word, Word64.toSigned_toSigned_sub,
      Word64.toSigned_of_range (by omega) (by omega)] at hShort
    omega

end RiskEngine

namespace MatchingEngine

variable {J : Type}

/-- The record covers the books and stays under the limit. -/
structure Within (account : AccountId) (limits : AccountLimits) (engine : MatchingEngine J) :
    Prop where
  limits_eq : engine.limitsFor account = some limits
  covered : ∀ instrument side, engine.holding account instrument side ≤
    engine.working account instrument side
  bound : ∀ instrument (side : Side), side.sign * engine.netPosition account instrument +
    engine.working account instrument side ≤ limits.maxPosition

/-- The account's position is inside its limit in every instrument. -/
def InsideLimit (account : AccountId) (limits : AccountLimits) (engine : MatchingEngine J) : Prop :=
  ∀ instrument, -(limits.maxPosition : Int) ≤ engine.netPosition account instrument ∧
    engine.netPosition account instrument ≤ limits.maxPosition

section

variable [JournalSink J] (account : AccountId) (limits : AccountLimits) (engine : MatchingEngine J)

/-- The commands of an account that its limit survives. -/
def Guarded : Event → Prop
  | .submit command now => command.account = account → engine.Accepts command now →
      (¬ engine.Trades command now ∨ engine.holding account command.instrument command.side = 0) ∧
      command.side.sign * engine.netPosition account command.instrument +
        engine.working account command.instrument command.side + command.quantity < 2 ^ 63
  | .replace command now => command.account = account → engine.AcceptsAmended command now →
      ∀ previous ∈ engine.restingOrder command.instrument command.id,
      (¬ engine.TradesAmended command now ∨
        engine.holding account command.instrument previous.side = previous.remaining) ∧
      previous.side.sign * engine.netPosition account command.instrument +
          (engine.working account command.instrument previous.side - previous.remaining : Nat) +
          (command.newQuantity - previous.filled : Nat) ≤ limits.maxPosition
  | _ => True

instance (event : Event) : Decidable (Guarded account limits engine event) := by
  rcases event with _ | _ <;> dsimp only [Guarded] <;> infer_instance

end

section Step

variable {engine engine' : MatchingEngine J} {account : AccountId} {limits : AccountLimits}

theorem Within.inside (hWithin : Within account limits engine) :
    InsideLimit account limits engine := by
  intro instrument
  have hLong := hWithin.bound instrument .buy
  have hShort := hWithin.bound instrument .sell
  simp only [Side.sign] at hLong hShort
  omega

theorem Within.signed (hWithin : Within account limits engine)
    (hMax : limits.maxPosition < 2 ^ 63) (instrument : InstrumentId) :
    Word64.toSigned (engine.netPosition account instrument) =
      engine.netPosition account instrument := by
  have hInside := hWithin.inside instrument
  exact Word64.toSigned_of_range (by omega) (by omega)

theorem Quiet.within (hQuiet : Quiet engine engine') (hWithin : Within account limits engine)
    (hLimits : engine'.limitsFor account = some limits) : Within account limits engine' := by
  refine ⟨hLimits, fun instrument side => ?_, fun instrument side => ?_⟩
  · rw [hQuiet.holding, hQuiet.working]
    exact hWithin.covered instrument side
  · rw [hQuiet.netPosition, hQuiet.working]
    exact hWithin.bound instrument side

variable {owner : AccountId} {instrument : InstrumentId}

/-- An order entering keeps the account within its limit, whoever's it is; if it
is the account's own, it must not trade beside another of its orders and there
must be room for it. -/
theorem Entered.within {side : Side}
    {freed rest : Nat} (hEntered : Entered engine engine' owner instrument side freed rest)
    (hWithin : Within account limits engine) (hMax : limits.maxPosition < 2 ^ 63)
    (hFreed : owner = account → freed ≤ engine.holding account instrument side)
    (hAlone : owner = account →
      engine'.fills = [] ∨ engine.holding account instrument side = freed)
    (hRoom : owner = account → side.sign * engine.netPosition account instrument +
        (engine.working account instrument side - freed : Nat) +
        (rest + Fill.total engine'.fills : Nat) ≤ limits.maxPosition) :
    Within account limits engine' := by
  have hSigned := hWithin.signed hMax
  have hNet := hEntered.net account limits hWithin.limits_eq
  have hHeld := hEntered.held_own account
  have hHeldOther := hEntered.held_other account
  have hWorking := hEntered.working_own account
  have hWorkingOther := hEntered.working_other account
  have hCovered := hWithin.covered instrument side
  have hCoveredOther := hWithin.covered instrument side.opposite
  have hBound := hWithin.bound instrument side
  have hBoundOther := hWithin.bound instrument side.opposite
  have hEmpty := Fill.total_eq_zero_iff hEntered.pos
  have hOpposite : side.opposite.sign = -side.sign := by cases side <;> rfl
  rw [hOpposite, neg_mul] at hBoundOther
  have hUnit : side.sign * side.sign = 1 := by cases side <;> rfl
  have hWord : (Word64.modulus : Int) = 2 * 2 ^ 63 := by decide
  -- The position after the fills, with its sign turned to the order's side.
  have hMoved : side.sign * engine'.netPosition account instrument =
      side.sign * engine.netPosition account instrument +
        ((if owner = account then Fill.total engine'.fills else 0 : Nat) -
          Fill.takenFrom account engine'.fills : Int) := by
    rw [hNet instrument (hSigned instrument), if_pos rfl]
    have hExact : Word64.toSigned (engine.netPosition account instrument + side.sign *
        ((if owner = account then Fill.total engine'.fills else 0 : Nat) -
          Fill.takenFrom account engine'.fills : Int)) =
        engine.netPosition account instrument + side.sign *
        ((if owner = account then Fill.total engine'.fills else 0 : Nat) -
          Fill.takenFrom account engine'.fills : Int) := by
      by_cases hOwner : owner = account
      · have hRoomOwn := hRoom hOwner
        rw [if_pos hOwner]
        cases side <;> simp only [Side.sign] at hRoomOwn hBound hBoundOther ⊢ <;>
          exact Word64.toSigned_of_range (by omega) (by omega)
      rw [if_neg hOwner]
      cases side <;> simp only [Side.sign] at hBound hBoundOther ⊢ <;>
        exact Word64.toSigned_of_range (by omega) (by omega)
    rw [hExact, mul_add, ← mul_assoc, hUnit, one_mul]
  refine ⟨hEntered.limits account limits hWithin.limits_eq, fun i s => ?_, fun i s => ?_⟩
  · by_cases hHere : i = instrument
    · subst hHere
      rcases Book.queue_cases side s with rfl | rfl
      · by_cases hOwner : owner = account
        · have hRoomOwn := hRoom hOwner
          have hLe := hFreed hOwner
          rw [if_pos hOwner] at hWorking
          rw [if_pos hOwner, if_pos hOwner] at hHeld
          rw [Word64.add_of_lt (by omega)] at hWorking
          rcases hAlone hOwner with hNone | hAll
          · have := hEmpty.mpr hNone
            omega
          · omega
        · rw [if_neg hOwner] at hWorking
          rw [if_neg hOwner, if_neg hOwner] at hHeld
          omega
      · omega
    · rw [hEntered.held_elsewhere account i s hHere, hEntered.working_elsewhere account i s hHere]
      exact hWithin.covered i s
  · by_cases hHere : i = instrument
    · subst hHere
      rcases Book.queue_cases side s with rfl | rfl
      · rw [hMoved]
        by_cases hOwner : owner = account
        · have hRoomOwn := hRoom hOwner
          rw [if_pos hOwner] at hWorking ⊢
          rw [Word64.add_of_lt (by omega)] at hWorking
          omega
        · rw [if_neg hOwner] at hWorking ⊢
          omega
      · rw [hOpposite, neg_mul, hMoved]
        by_cases hOwner : owner = account
        · rw [if_pos hOwner]
          omega
        · rw [if_neg hOwner]
          omega
    · rw [hNet i (hSigned i), if_neg hHere, Int.add_zero, hSigned i,
        hEntered.working_elsewhere account i s hHere]
      exact hWithin.bound i s

/-- A refused amendment puts back exactly what was on record. -/
theorem Restated.within {side : Side} {quantity : Nat} {lost : Bool}
    (hRestated : Restated engine engine' owner instrument side quantity lost)
    (hWithin : Within account limits engine) (hWorded : engine.Worded)
    (hQuantity : owner = account → quantity ≤ engine.holding account instrument side) :
    Within account limits engine' := by
  have hSame := hRestated.working_eq hWorded fun hOwner =>
    (hQuantity hOwner).trans (hWithin.covered instrument side)
  refine ⟨hRestated.limits account limits hWithin.limits_eq, fun i s => ?_, fun i s => ?_⟩
  · have hHeld := hRestated.held account i s
    have hCovered := hWithin.covered i s
    rw [hSame]
    omega
  · rw [hRestated.net, hSame]
    exact hWithin.bound i s

variable [JournalSink J]

/-- One event keeps the account within its limit. -/
theorem Within.apply {event : Event} (hWithin : Within account limits engine)
    (hMax : limits.maxPosition < 2 ^ 63) (hAudited : engine.Audited) (hTicked : event.Ticked)
    (hKeeps : event.KeepsRisk) (hLimits : event.KeepsLimits account)
    (hGuarded : Guarded account limits engine event) :
    Within account limits (engine.apply event) := by
  have hKept := limitsFor_apply hAudited hTicked hKeeps hLimits hWithin.limits_eq
  have hHoused := hAudited.housed
  have hUnmoved : ∀ after, Unmoved engine after → Within account limits after :=
    fun after hUnmoved => hUnmoved.quiet.within hWithin
      (hUnmoved.limits account limits hWithin.limits_eq)
  cases event with
  | submit command now =>
    dsimp only [Guarded] at hGuarded
    rw [accepts_iff hHoused, trades_iff hHoused, not_not] at hGuarded
    rcases submit_effect hAudited command now with
      ⟨hSame, -⟩ | ⟨rest, hAccepted, hBound, hCheck, hEntered⟩
    · exact hUnmoved _ hSame
    refine hEntered.within hWithin hMax (fun _ => Nat.zero_le _)
      (fun hOwner => (hGuarded hOwner hAccepted).1) fun hOwner => ?_
    obtain ⟨risk, hRisk⟩ := Option.isSome_iff_exists.mp hAudited.attached
    have hHigh := (hGuarded hOwner hAccepted).2
    have hInside := hWithin.inside command.instrument
    have hConfigured := hWithin.limits_eq
    rw [← hOwner] at hInside hHigh hConfigured ⊢
    rw [limitsFor_of_risk hRisk] at hConfigured
    unfold netPosition working at *
    rw [exposure_of_risk hRisk] at hHigh hInside ⊢
    have hRoom := RiskEngine.room_of_check hConfigured hMax (hCheck risk hRisk)
      (by cases command.side <;> simp only [Side.sign] <;> omega) hHigh
    rw [Nat.sub_zero]
    omega
  | cancel command now =>
    rcases cancel_effect hAudited command now with
      hSame | ⟨resting, hLe, hFills, hEntered⟩
    · exact hUnmoved _ hSame
    refine hEntered.within hWithin hMax (fun hOwner => hOwner ▸ hLe) (fun _ => Or.inl hFills)
      fun _ => ?_
    have hBound := hWithin.bound command.instrument resting.side
    rw [hFills, Fill.total_nil]
    omega
  | replace command now =>
    dsimp only [Guarded] at hGuarded
    rw [acceptsAmended_iff hHoused, tradesAmended_iff hHoused] at hGuarded
    simp only [not_not] at hGuarded
    rcases replace_effect hAudited command now with
      ⟨hSame, -, -⟩ | ⟨previous, -, hLe, hFound, ⟨hAccepted, rest, hBound, hEntered⟩ |
        ⟨-, hRestated⟩⟩
    · exact hUnmoved _ hSame
    · refine hEntered.within hWithin hMax (fun hOwner => hOwner ▸ hLe)
        (fun hOwner => (hGuarded hOwner hAccepted previous hFound).1) fun hOwner => ?_
      have hRoom := (hGuarded hOwner hAccepted previous hFound).2
      omega
    · exact hRestated.within hWithin hAudited.worded fun hOwner => hOwner ▸ hLe
  | _ =>
    exact (quiet_apply engine hTicked hKeeps not_false).within hWithin hKept

/-- From any engine in which an account is configured and has nothing resting and
nothing on record, its position stays inside its limit along every run whose
commands of the account are guarded. -/
theorem netPosition_inside_limit (hAudited : engine.Audited)
    (hConfigured : engine.limitsFor account = some limits) (hMax : limits.maxPosition < 2 ^ 63)
    (hIdle : ∀ instrument, engine.exposure account instrument = {} ∧
      ∀ side, engine.holding account instrument side = 0)
    (events : List Event) (hTicked : ∀ event ∈ events, event.Ticked)
    (hKeeps : ∀ event ∈ events, event.KeepsRisk)
    (hLimits : ∀ event ∈ events, event.KeepsLimits account)
    (hGuarded : Machine.Each apply (Guarded account limits) engine events) :
    Machine.Always apply (InsideLimit account limits) engine events := by
  have hStart : Within account limits engine := by
    refine ⟨hConfigured, fun instrument side => ?_, fun instrument side => ?_⟩
    · rw [(hIdle instrument).2]
      exact Nat.zero_le _
    · rw [netPosition, working, (hIdle instrument).1]
      cases side <;> simp [Exposure.working]
  have hEach := ((hAudited.each hTicked hKeeps).and (Machine.each_of_forall hLimits)).and hGuarded
  refine (hEach.always hStart ?_).imp fun _ hWithin => hWithin.inside
  rintro engine event hWithin ⟨⟨⟨hBefore, hTick, hKeep⟩, hLimit⟩, hGuard⟩
  exact hWithin.apply hMax hBefore hTick hKeep hLimit hGuard

end Step

/-- Ten lots either way. -/
def tenLots : AccountLimits := { maxPosition := 10 }

def tenLotRisk : RiskEngine := ({} : RiskEngine).configure ⟨1⟩ tenLots

/-- Account 1 buys five while five of its own rest below, works five more, and is
then hit on all ten that rest. -/
def breachEvents : List Event :=
  [.addInstrument (sampleListing .cancelIncoming) 0, .submit (sampleNewOrder 1 1 .buy 1 5 false) 0,
    .submit (sampleNewOrder 2 2 .sell 2 5 false) 0,
    .submit (sampleNewOrder 3 1 .buy 2 5 false) 0,
    .submit (sampleNewOrder 4 1 .buy 1 5 false) 0,
    .submit (sampleNewOrder 5 2 .sell 1 10 false) 0]

/-- Account 1 works five, asks for a hundred instead, and is hit on all of them. -/
def enlargedEvents : List Event :=
  [.addInstrument (sampleListing .cancelIncoming) 0, .submit (sampleNewOrder 1 1 .buy 1 5 false) 0,
    .replace (sampleReplace 1 1 1 100) 0,
    .submit (sampleNewOrder 2 2 .sell 1 100 false) 0]

/-- Account 1 may hold ten and ends with fifteen, or with a hundred. -/
theorem netPosition_breaches_limit :
    tenLotRisk.limitsFor ⟨1⟩ = some tenLots ∧ tenLots.maxPosition = 10 ∧
      ((start (none : Option Empty) (some tenLotRisk) none).run breachEvents).netPosition ⟨1⟩ ⟨1⟩ =
        15 ∧
      ((start (none : Option Empty) (some tenLotRisk) none).run enlargedEvents).netPosition
        ⟨1⟩ ⟨1⟩ = 100 := by
  decide +kernel

/-- Account 1 works five, trades three of them, and works two more. -/
def guardedEvents : List Event :=
  [.addInstrument (sampleListing .cancelIncoming) 0, .submit (sampleNewOrder 1 1 .buy 1 5 false) 0,
    .submit (sampleNewOrder 2 2 .sell 1 3 false) 0,
    .submit (sampleNewOrder 3 1 .buy 1 2 false) 0,
    .replace (sampleReplace 1 1 1 4) 0]

theorem netPosition_inside_limit_sample :
    Machine.Always apply (InsideLimit ⟨1⟩ tenLots)
      (start (none : Option Empty) (some tenLotRisk) none) guardedEvents := by
  have hNothing : ∀ account instrument, tenLotRisk.exposure account instrument = {} := by
    intro account instrument
    unfold tenLotRisk
    rw [RiskEngine.exposure_configure]
    rfl
  refine netPosition_inside_limit ?_ ?_ (by decide) ?_ guardedEvents (by decide) (by decide)
    (by decide) (by decide +kernel)
  · exact audited_start none none hNothing
  · decide
  · intro instrument
    exact ⟨hNothing ⟨1⟩ instrument, fun side => rfl⟩

end MatchingEngine
end ExchangeCore
