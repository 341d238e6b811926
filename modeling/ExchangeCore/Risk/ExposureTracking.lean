import ExchangeCore.Core.Admission
import ExchangeCore.Risk.Accounts

/-!
# Does recorded exposure follow the books?

For one account, `Tracked` says that every working total on record is exactly
what the account has resting.  Two things break it.  A fill is reported for the
aggressor as well, and takes from the aggressor's own side: if the account had
anything resting there, the record falls below the book.  And a refused amendment
puts the order back on the record even when the refusal came after the order had
already left the book.

`Tracks` names the commands that do neither, and the record follows the book along
a whole run exactly when every command of the account is one of them.
-/

namespace ExchangeCore

open PriceTime

namespace MatchingEngine

variable {J : Type}

section

variable (account : AccountId) (engine : MatchingEngine J)

/-- The record agrees with the books. -/
def Tracked : Prop :=
  ∀ instrument side, engine.working account instrument side = engine.holding account instrument side

/-- What the account has resting fits a word on every side of every book. -/
def HoldingFits : Prop :=
  ∀ id ∈ engine.books.keys, ∀ side ∈ [Side.buy, Side.sell],
    engine.holding account id side < Word64.modulus

instance : Decidable (HoldingFits account engine) :=
  inferInstanceAs (Decidable (∀ id ∈ engine.books.keys, _))

end

/-- The commands of an account that its record survives: an order that trades on
arrival has nothing of the account beside it, and an amendment is not refused
for crossing. -/
def Tracks [JournalSink J] (account : AccountId) (engine : MatchingEngine J) : Event → Prop
  | .submit command now => command.account = account → ¬ engine.Trades command now ∨
        engine.holding account command.instrument command.side = 0
  | .replace command now => command.account = account → ¬ engine.Forfeits command now ∧
        (¬ engine.TradesAmended command now ∨
          ∀ previous ∈ engine.restingOrder command.instrument command.id,
            engine.holding account command.instrument previous.side = previous.remaining)
  | _ => True

instance [JournalSink J] (account : AccountId) (engine : MatchingEngine J) (event : Event) :
    Decidable (Tracks account engine event) := by
  rcases event with _ | _ <;> dsimp only [Tracks] <;> infer_instance

section Step

variable {engine engine' : MatchingEngine J} {account : AccountId}

theorem HoldingFits.lt (hFits : HoldingFits account engine) (instrument : InstrumentId)
    (side : Side) : engine.holding account instrument side < Word64.modulus := by
  by_cases hMem : instrument ∈ engine.books.keys
  · exact hFits instrument hMem side (by cases side <;> simp)
  have hNone : engine.bookFor instrument = none :=
    AList.lookup_eq_none.mpr hMem
  rw [holding, hNone]
  exact Word64.modulus_pos

theorem Quiet.tracked (hQuiet : Quiet engine engine') (hTracked : Tracked account engine) :
    Tracked account engine' := by
  intro instrument side
  rw [hQuiet.working, hQuiet.holding]
  exact hTracked instrument side

variable {owner : AccountId} {instrument : InstrumentId}

/-- When an order of `owner` enters, the record of `account` follows unless it is
the owner's, something traded, and something else of it rested on that side. -/
theorem Entered.tracked_iff {side : Side}
    {freed rest : Nat} (hEntered : Entered engine engine' owner instrument side freed rest)
    (hFreed : owner = account → freed ≤ engine.holding account instrument side)
    (hFits : HoldingFits account engine') (hTracked : Tracked account engine) :
    Tracked account engine' ↔ (owner = account →
      engine'.fills = [] ∨ engine.holding account instrument side = freed) := by
  have hFit := hFits.lt instrument side
  have hHeld := hEntered.held_own account
  have hWorking := hEntered.working_own account
  rw [hTracked] at hWorking
  have hEmpty := Fill.total_eq_zero_iff hEntered.pos
  -- On the account's own side the record loses what traded, the book does not.
  have hOwn : owner = account → (engine'.working account instrument side =
      engine'.holding account instrument side ↔
        (engine'.fills = [] ∨ engine.holding account instrument side = freed)) := by
    intro hOwner
    rw [if_pos hOwner] at hWorking
    rw [if_pos hOwner, if_pos hOwner] at hHeld
    have hLe := hFreed hOwner
    rw [Word64.add_of_lt (by omega)] at hWorking
    rw [hWorking, ← hEmpty]
    omega
  have hOther : engine'.working account instrument side.opposite =
      engine'.holding account instrument side.opposite := by
    have hHeldOther := hEntered.held_other account
    rw [hEntered.working_other, hTracked]
    omega
  constructor
  · intro hAll hOwner
    exact (hOwn hOwner).mp (hAll instrument side)
  · intro hCondition i s
    by_cases hHere : i = instrument
    · subst hHere
      rcases Book.queue_cases side s with rfl | rfl
      · by_cases hOwner : owner = account
        · exact (hOwn hOwner).mpr (hCondition hOwner)
        rw [if_neg hOwner] at hWorking
        rw [if_neg hOwner, if_neg hOwner] at hHeld
        omega
      · exact hOther
    · rw [hEntered.working_elsewhere account i s hHere, hEntered.held_elsewhere account i s hHere]
      exact hTracked i s

/-- When an amendment of `owner` is refused, the record of `account` follows
unless it is the owner's and the order is gone. -/
theorem Restated.tracked_iff {side : Side} {quantity : Nat} {lost : Bool}
    (hRestated : Restated engine engine' owner instrument side quantity lost) (hPos : 0 < quantity)
    (hQuantity : owner = account → quantity ≤ engine.holding account instrument side)
    (hWorded : engine.Worded) (hTracked : Tracked account engine) :
    Tracked account engine' ↔ (owner = account → lost = false) := by
  have hSame := hRestated.working_eq hWorded fun hOwner =>
    (hQuantity hOwner).trans (hTracked instrument side).ge
  constructor
  · intro hAll hOwner
    by_contra hLost
    rw [Bool.not_eq_false] at hLost
    have hHeld := hRestated.held account instrument side
    rw [if_pos ⟨hLost, hOwner, rfl, rfl⟩, ← hAll, hSame, ← hTracked] at hHeld
    omega
  · intro hKeeps i s
    have hHeld := hRestated.held account i s
    rw [if_neg (fun h => by rw [hKeeps h.2.1] at h; simp at h), Nat.add_zero] at hHeld
    rw [hSame, hHeld]
    exact hTracked i s

variable [JournalSink J]

/-- One event keeps an account tracked exactly when it is of the right kind. -/
theorem tracked_apply_iff {event : Event} (hAudited : engine.Audited) (hTicked : event.Ticked)
    (hKeeps : event.KeepsRisk) (hFits : HoldingFits account (engine.apply event))
    (hTracked : Tracked account engine) :
    Tracked account (engine.apply event) ↔ Tracks account engine event := by
  have hHoused := hAudited.housed
  cases event with
  | submit command now =>
    show _ ↔ (command.account = account → ¬ engine.Trades command now ∨ _)
    rw [trades_iff hHoused, not_not]
    rcases submit_effect hAudited command now with
      ⟨hUnmoved, hFills⟩ | ⟨rest, -, -, -, hEntered⟩
    · exact iff_of_true (hUnmoved.quiet.tracked hTracked) fun _ => Or.inl hFills
    · exact hEntered.tracked_iff (fun _ => Nat.zero_le _) hFits hTracked
  | cancel command now =>
    refine iff_of_true ?_ trivial
    rcases cancel_effect hAudited command now with
      hUnmoved | ⟨resting, hLe, hFills, hEntered⟩
    · exact hUnmoved.quiet.tracked hTracked
    exact (hEntered.tracked_iff (fun hOwner => hOwner ▸ hLe) hFits hTracked).mpr
      fun _ => Or.inl hFills
  | replace command now =>
    show _ ↔ (command.account = account → ¬ engine.Forfeits command now ∧
      (¬ engine.TradesAmended command now ∨ _))
    rw [forfeits_iff hHoused, tradesAmended_iff hHoused, not_not]
    rcases replace_effect hAudited command now with
      ⟨hUnmoved, hFills, hReject⟩ |
        ⟨previous, hPos, hLe, hFound, ⟨hAccepted, rest, -, hEntered⟩ | ⟨hFills, hRestated⟩⟩
    · exact iff_of_true (hUnmoved.quiet.tracked hTracked) fun _ => ⟨hReject, Or.inl hFills⟩
    · have hIff := hEntered.tracked_iff (fun hOwner => hOwner ▸ hLe) hFits hTracked
      refine hIff.trans (forall_congr' fun _ => ?_)
      simp only [hFound, Option.mem_some_iff, forall_eq']
      exact (and_iff_right (by rw [hAccepted]; simp)).symm
    · have hIff := hRestated.tracked_iff hPos (fun hOwner => hOwner ▸ hLe) hAudited.worded hTracked
      refine hIff.trans (forall_congr' fun _ => ?_)
      rw [beq_eq_false_iff_ne]
      exact (and_iff_left (Or.inl hFills)).symm
  | _ =>
    exact iff_of_true ((quiet_apply engine hTicked hKeeps not_false).tracked hTracked) trivial

end Step

section Run

theorem tracked_start (journal : Option J) (kill : Option KillSwitch) (account : AccountId) :
    Tracked account (start journal (some {}) kill) := by
  intro instrument side
  cases side <;> rfl

variable [JournalSink J]

/-- Along every run from an engine without orders, with risk attached throughout,
an account's record agrees with the books after every event exactly when every
command of the account is one that the record survives. -/
theorem working_eq_holding_iff (journal : Option J) (kill : Option KillSwitch)
    (account : AccountId) (events : List Event)
    (hTicked : ∀ event ∈ events, event.Ticked) (hKeeps : ∀ event ∈ events, event.KeepsRisk)
    (hFits : Machine.Always apply (HoldingFits account) (start journal (some {}) kill) events) :
    Machine.Always apply (Tracked account) (start journal (some {}) kill) events ↔
      Machine.Each apply (Tracks account) (start journal (some {}) kill) events := by
  have hAudited : (start journal (some {}) kill).Audited :=
    audited_start journal kill fun _ _ => rfl
  have hSide := (hAudited.each hTicked hKeeps).and hFits.each
  refine Machine.always_iff_each hSide (tracked_start journal kill account) ?_
  rintro engine event hTracked ⟨⟨hBefore, hTick, hKeep⟩, -, hAfter⟩
  exact tracked_apply_iff hBefore hTick hKeep hAfter hTracked

end Run

/-- Account 1 has a bid of five resting when it buys the five that account 2
offers. -/
def driftEvents : List Event :=
  [.addInstrument (sampleListing .cancelIncoming) 0, .submit (sampleNewOrder 1 1 .buy 1 5 false) 0,
    .submit (sampleNewOrder 2 2 .sell 2 5 false) 0,
    .submit (sampleNewOrder 3 1 .buy 2 5 false) 0]

/-- Account 1's post-only bid is amended onto account 2's offer. -/
def lossEvents : List Event :=
  [.addInstrument (sampleListing .cancelIncoming) 0, .submit (sampleNewOrder 1 1 .buy 1 5 true) 0,
    .submit (sampleNewOrder 2 2 .sell 2 5 false) 0,
    .replace (sampleReplace 1 1 2 5) 0]

/-- Five lots of account 1 rest and none are on record; then, in the other run,
none rest and five are on record. -/
theorem working_drifts :
    ((start (none : Option Empty) (some {}) none).run driftEvents).holding ⟨1⟩ ⟨1⟩ .buy = 5 ∧
      ((start (none : Option Empty) (some {}) none).run driftEvents).working ⟨1⟩ ⟨1⟩ .buy = 0 ∧
      ((start (none : Option Empty) (some {}) none).run lossEvents).holding ⟨1⟩ ⟨1⟩ .buy = 0 ∧
      ((start (none : Option Empty) (some {}) none).run lossEvents).working ⟨1⟩ ⟨1⟩ .buy = 5 := by
  decide +kernel

/-- The offering account of the first run stays tracked, through its fill. -/
theorem working_eq_holding_sample :
    Machine.Always apply (Tracked ⟨2⟩) (start (none : Option Empty) (some {}) none)
      driftEvents := by
  refine (working_eq_holding_iff none none ⟨2⟩ driftEvents (by decide) (by decide) ?_).mpr ?_
  · decide +kernel
  · decide +kernel

end MatchingEngine
end ExchangeCore
