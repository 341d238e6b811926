import Mathlib.Algebra.BigOperators.Finprod
import ExchangeCore.Core.Admission
import ExchangeCore.Risk.Accounts

/-!
# Positions are the fill stream

An observer who keeps every fill of a run can say what each account has bought
and sold.  Risk keeps one signed number per account and instrument, to which the
settlement of a command adds each of its fills twice, once for either party.  An
account it has never heard of it skips; but an account is configured before its
first order, and only an account with an order can be a party to a fill.

So the number is what was bought less what was sold, as a signed word, and since
every fill has a buyer and a seller the positions in an instrument sum to zero.
-/

namespace ExchangeCore

open PriceTime List

/-! ## What an account has bought and sold -/

section

variable (account : AccountId) (instrument : InstrumentId)

/-- The quantity an account has traded on one side of an instrument. -/
def volume (side : Side) (fills : List Fill) : Nat :=
  (fills.map (Fill.releases account instrument side)).sum

/-- What an account has bought less what it has sold, on whichever side of the
fills it was. -/
def traded (fills : List Fill) : Int :=
  (volume account instrument .buy fills : Int) - volume account instrument .sell fills

/-- What the settlement of the fills adds to an account's position. -/
def netOf (fills : List Fill) : Int :=
  (fills.map (Fill.moves account instrument)).sum

end

/-- The account is on neither side of a fill. -/
def Fill.Spares (account : AccountId) (fill : Fill) : Prop :=
  fill.aggressorAccount ≠ account ∧ fill.restingAccount ≠ account

section Fills

variable (account : AccountId) (instrument : InstrumentId)

theorem Fill.moves_eq (fill : Fill) :
    fill.moves account instrument =
      (fill.releases account instrument .buy : Int) - fill.releases account instrument .sell := by
  unfold Fill.moves Fill.releases
  split
  · cases fill.aggressorSide <;> simp [Side.sign, Side.opposite] <;> split_ifs <;> omega
  · rfl

theorem netOf_eq_traded (fills : List Fill) :
    netOf account instrument fills = traded account instrument fills := by
  unfold netOf traded volume
  induction fills with
  | nil => rfl
  | cons fill fills ih =>
    simp only [map_cons, sum_cons, Fill.moves_eq, Nat.cast_add] at ih ⊢
    omega

@[simp] theorem netOf_append (fills fills' : List Fill) :
    netOf account instrument (fills ++ fills') =
      netOf account instrument fills + netOf account instrument fills' := by
  rw [netOf, map_append, sum_append]
  rfl

theorem volume_le_total (side : Side) (fills : List Fill) :
    volume account instrument side fills ≤ Fill.total fills := by
  unfold volume Fill.total
  refine sum_le_sum fun fill _ => ?_
  unfold Fill.releases
  cases side <;> cases fill.aggressorSide <;> simp [Side.opposite] <;> split_ifs <;> omega

variable {fills : List Fill}

/-- As long as all fills together fit a signed word, so does every position. -/
theorem signedWord_traded (hTotal : Fill.total fills < 2 ^ 63) :
    SignedWord (traded account instrument fills) := by
  have hBuy := volume_le_total account instrument .buy fills
  have hSell := volume_le_total account instrument .sell fills
  unfold SignedWord traded
  omega

variable {account}

theorem Fill.Spares.moves {fill : Fill} (hSpares : fill.Spares account) :
    fill.moves account instrument = 0 := by
  unfold Fill.moves
  rw [if_neg hSpares.1, if_neg hSpares.2, Int.add_zero, ite_self]

theorem netOf_spared (hSpares : ∀ fill ∈ fills, fill.Spares account) :
    netOf account instrument fills = 0 := by
  unfold netOf
  refine sum_eq_zero fun move hMove => ?_
  obtain ⟨fill, hFill, rfl⟩ := mem_map.mp hMove
  exact (hSpares fill hFill).moves instrument

end Fills

/-! ## Every fill has a buyer and a seller -/

/-- The two accounts of a fill. -/
def Fill.parties (fill : Fill) : Finset AccountId := {fill.aggressorAccount, fill.restingAccount}

/-- All accounts that some fill names. -/
def parties (fills : List Fill) : Finset AccountId :=
  fills.foldr (fun fill accounts => fill.parties ∪ accounts) ∅

variable {fills : List Fill} {account : AccountId} {accounts : Finset AccountId}

theorem mem_parties : account ∈ parties fills ↔ ∃ fill ∈ fills, account ∈ fill.parties := by
  induction fills with
  | nil => simp [parties]
  | cons fill fills ih =>
    show account ∈ fill.parties ∪ parties fills ↔ _
    rw [Finset.mem_union, ih, exists_mem_cons_iff]

theorem spares_of_not_mem {fill : Fill} (hNot : account ∉ fill.parties) : fill.Spares account := by
  simp only [Fill.parties, Finset.mem_insert, Finset.mem_singleton, not_or] at hNot
  exact ⟨Ne.symm hNot.1, Ne.symm hNot.2⟩

/-- Over any accounts that include both parties a fill moves nothing. -/
theorem Fill.sum_moves_eq_zero (fill : Fill) (instrument : InstrumentId)
    (hParties : fill.parties ⊆ accounts) :
    ∑ account ∈ accounts, fill.moves account instrument = 0 := by
  have hAggressor : fill.aggressorAccount ∈ accounts := hParties (by simp [Fill.parties])
  have hResting : fill.restingAccount ∈ accounts := hParties (by simp [Fill.parties])
  by_cases hHere : fill.instrument = instrument
  · simp only [Fill.moves, if_pos hHere, Finset.sum_add_distrib, Finset.sum_ite_eq, hAggressor,
      hResting, if_true]
    cases fill.aggressorSide <;> simp [Side.sign, Side.opposite]
  · simp only [Fill.moves, if_neg hHere, Finset.sum_const_zero]

theorem sum_netOf_eq_zero (instrument : InstrumentId)
    (hParties : ∀ fill ∈ fills, fill.parties ⊆ accounts) :
    ∑ account ∈ accounts, netOf account instrument fills = 0 := by
  induction fills with
  | nil => simp [netOf]
  | cons fill fills ih =>
    have hSplit : ∀ account, netOf account instrument (fill :: fills) =
        fill.moves account instrument + netOf account instrument fills := fun _ => rfl
    simp only [hSplit, Finset.sum_add_distrib]
    rw [fill.sum_moves_eq_zero instrument (hParties fill (by simp)),
      ih fun other hOther => hParties other (mem_cons_of_mem fill hOther), Int.add_zero]

/-! ## The settlement of accounts that are on no fill -/

namespace RiskEngine

variable (risk : RiskEngine) (instrument : InstrumentId)

theorem netPosition_settleFill_spared {fill : Fill} (hSpares : fill.Spares account) :
    ((risk.settleFill fill).exposure account instrument).netPosition =
      (risk.exposure account instrument).netPosition := by
  have hFill : (risk.onFill fill).exposure account instrument =
      risk.exposure account instrument := by
    rw [onFill, exposure_applyFill, if_neg (fun h => hSpares.2 h.1.symm), exposure_applyFill,
      if_neg (fun h => hSpares.1 h.1.symm)]
  unfold settleFill
  split
  · rw [exposure_onOrderClosed, hFill]
  · rw [hFill]

theorem netPosition_settle_spared (target : InstrumentId) {fills : List Fill}
    (withdrawals : List Withdrawal) (hSpares : ∀ fill ∈ fills, fill.Spares account) :
    ((risk.settle target fills withdrawals).exposure account instrument).netPosition =
      (risk.exposure account instrument).netPosition := by
  rw [exposure_settle, netPosition_foldl_settleWithdrawal]
  induction fills generalizing risk with
  | nil => rfl
  | cons fill fills ih =>
    rw [foldl_cons, ih _ fun other hOther => hSpares other (mem_cons_of_mem fill hOther),
      netPosition_settleFill_spared risk instrument (hSpares fill (by simp))]

end RiskEngine

namespace MatchingEngine

variable {J : Type}

/-! ## What a command does to the positions -/

/-- The fills in the engine's buffer have been posted: a known account's position
moved by what they come to, and an account they spare kept its own. -/
structure Posts (engine engine' : MatchingEngine J) : Prop where
  net : ∀ account limits, engine.limitsFor account = some limits → ∀ instrument,
    Word64.toSigned (engine.netPosition account instrument) =
      engine.netPosition account instrument →
    engine'.netPosition account instrument =
      Word64.toSigned (engine.netPosition account instrument +
        netOf account instrument engine'.fills)
  spared : ∀ account, (∀ fill ∈ engine'.fills, fill.Spares account) → ∀ instrument,
    engine'.netPosition account instrument = engine.netPosition account instrument
  limits : ∀ account limits, engine.limitsFor account = some limits →
    engine'.limitsFor account = some limits

section Posting

variable {engine engine' after : MatchingEngine J}

/-- The settlement of an order that enters posts its fills. -/
theorem Settles.posts {target book : OrderBook} {order : Order}
    {release : Release order target.abs} {rested : Bool} {rest : Nat}
    (hSettles : Settles engine engine' release book rested rest)
    (hAttached : engine.risk.isSome) : Posts engine engine' := by
  obtain ⟨risk, hRisk⟩ := Option.isSome_iff_exists.mp hAttached
  have hRisk' := hSettles.risk
  rw [hRisk, Option.map_some] at hRisk'
  have hBefore : ∀ a i,
      engine.netPosition a i = ((release.prepare risk).exposure a i).netPosition := by
    intro a i
    rw [netPosition, exposure_of_risk hRisk, release.net]
  have hAfter : ∀ a i, engine'.netPosition a i = (((release.prepare risk).settle
      order.instrument engine'.fills engine'.withdrawals).exposure a i).netPosition := by
    intro a i
    rw [netPosition, exposure_of_risk hRisk', RiskEngine.netPosition_settleOrder_eq]
  refine ⟨fun a limits hKnown i hSigned => ?_, fun a hSpares i => ?_, fun a limits hKnown => ?_⟩
  · rw [limitsFor_of_risk hRisk] at hKnown
    rw [hBefore] at hSigned ⊢
    rw [hAfter]
    exact RiskEngine.netPosition_settle _ a i _ _ _ (release.limits risk a limits hKnown) hSigned
  · rw [hBefore, hAfter]
    exact RiskEngine.netPosition_settle_spared _ i _ _ hSpares
  · rw [limitsFor_of_risk hRisk] at hKnown
    rw [limitsFor_of_risk hRisk']
    exact RiskEngine.limitsFor_settleOrder _ _ _ _ _ (release.limits risk a limits hKnown)

/-- A command without fills that moves no position. -/
theorem posts_of_no_fills (hFills : engine'.fills = [])
    (hNet : ∀ a i, engine'.netPosition a i = engine.netPosition a i)
    (hLimits : ∀ a limits, engine.limitsFor a = some limits →
      engine'.limitsFor a = some limits) : Posts engine engine' := by
  refine ⟨fun a limits _ i hSigned => ?_, fun a _ i => hNet a i, hLimits⟩
  rw [hNet, hFills]
  exact (hSigned.symm.trans (by rw [show netOf a i [] = 0 from rfl, Int.add_zero]))

theorem Unmoved.posts (hUnmoved : Unmoved engine engine') (hFills : engine'.fills = []) :
    Posts engine engine' :=
  posts_of_no_fills hFills hUnmoved.quiet.netPosition hUnmoved.limits

theorem Unmoved.posts_trans (hUnmoved : Unmoved engine engine') (hPosts : Posts engine' after) :
    Posts engine after := by
  obtain ⟨hNet, hSpared, hLimits⟩ := hPosts
  simp only [hUnmoved.quiet.netPosition] at hNet hSpared
  exact ⟨fun a limits hKnown => hNet a limits (hUnmoved.limits a limits hKnown), hSpared,
    fun a limits hKnown => hLimits a limits (hUnmoved.limits a limits hKnown)⟩

variable [JournalSink J]

theorem posts_submit (hAudited : engine.Audited) (command : NewOrder) (now : Int) :
    Posts engine (engine.submit command now).1 := by
  rcases submit_settled hAudited.housed command now with ⟨hUnmoved, hFills⟩ | ⟨engine', target,
    book, rested, rest, hStill, -, -, hSettles⟩
  · exact hUnmoved.posts hFills
  · exact (Unmoved.of_still hStill).posts_trans
      (hSettles.posts (hStill.attached ▸ hAudited.attached))

theorem posts_cancel (hAudited : engine.Audited) (command : CancelOrder) (now : Int) :
    Posts engine (engine.cancel command now).1 := by
  rcases cancel_settled hAudited.housed command now with ⟨hUnmoved, hFills⟩ | ⟨engine', resting,
    target, release, book, hStill, -, -, -, -, -, hSettles⟩
  · exact hUnmoved.posts hFills
  · exact (Unmoved.of_still hStill).posts_trans
      (hSettles.posts (hStill.attached ▸ hAudited.attached))

theorem posts_replace (hAudited : engine.Audited) (command : ReplaceOrder) (now : Int) :
    Posts engine (engine.replace command now).1 := by
  rcases replace_settled hAudited.housed command now with ⟨hUnmoved, hFills, -⟩ | ⟨engine',
    target, previous, hStill, hTarget, hPrevious, -, -, hEffect⟩
  · exact hUnmoved.posts hFills
  refine (Unmoved.of_still hStill).posts_trans ?_
  rcases hEffect with ⟨-, order, release, book, rested, rest, -, -, -, -, -, -, hSettles⟩ |
    ⟨-, hReinstates⟩
  · exact hSettles.posts (hStill.attached ▸ hAudited.attached)
  have hRestated := hReinstates.restated (hAudited.housed.still hStill)
    (hStill.attached ▸ hAudited.attached) ((hStill.bookFor _).trans hTarget) hPrevious
  exact posts_of_no_fills hReinstates.fills hRestated.net hRestated.limits

end Posting

/-! ## Who is a party to a fill -/

section

variable (engine : MatchingEngine J)

/-- Risk has limits for the account. -/
def Known (account : AccountId) : Prop :=
  (engine.limitsFor account).isSome

instance (account : AccountId) : Decidable (engine.Known account) :=
  inferInstanceAs (Decidable (_ = true))

/-- Every account with a resting order is known. -/
def OwnersKnown : Prop :=
  ∀ id order, engine.Rests id order → engine.Known order.account

/-- An account that submits an order has been configured. -/
def ConfiguredFirst : Event → Prop
  | .submit command _ => engine.Known command.account
  | _ => True

instance (event : Event) : Decidable (engine.ConfiguredFirst event) := by
  rcases event with _ | _ <;> dsimp only [ConfiguredFirst] <;> infer_instance

end

/-- The fills an event prints.  Only commands print any; the other events leave
the buffer as the last command left it. -/
def printed [JournalSink J] (engine : MatchingEngine J) : Event → List Fill
  | .submit command now => (engine.submit command now).1.fills
  | .cancel command now => (engine.cancel command now).1.fills
  | .replace command now => (engine.replace command now).1.fills
  | _ => []

/-- All fills of a run, in order. -/
def fillStream [JournalSink J] (engine : MatchingEngine J) : List Event → List Fill
  | [] => []
  | event :: events => engine.printed event ++ (engine.apply event).fillStream events

section Parties

variable {engine engine' : MatchingEngine J} {id : InstrumentId} {target : OrderBook}
  {order : Order}

theorem OwnersKnown.of_mem (hOwners : engine.OwnersKnown)
    (hTarget : engine.bookFor id = some target) (hMem : order ∈ target.abs.orders) :
    engine.Known order.account :=
  hOwners id order ((rests_iff_of_bookFor hTarget order).mpr hMem)

/-- Both parties to a fill are known if the incoming order's account is. -/
theorem OwnersKnown.parties (hOwners : engine.OwnersKnown)
    (hTarget : engine.bookFor id = some target) {side : Side}
    {fill : Fill} (hBetween : Fill.Between target.instrument order (target.abs.queue side) fill)
    (hKnown : engine.Known order.account) :
    engine.Known fill.aggressorAccount ∧ engine.Known fill.restingAccount := by
  obtain ⟨o, ho, -, hAccount⟩ := hBetween.resting
  rw [hBetween.account, hAccount]
  exact ⟨hKnown, hOwners.of_mem hTarget (Book.mem_orders.mpr ⟨side, ho⟩)⟩

variable [JournalSink J] {event : Event}

/-- An account that is known stays known. -/
theorem known_apply (hAudited : engine.Audited) (hTicked : event.Ticked)
    (hKeeps : event.KeepsRisk) (hKnown : engine.Known account) :
    (engine.apply event).Known account := by
  obtain ⟨limits, hLimits⟩ := Option.isSome_iff_exists.mp hKnown
  by_cases hSame : event.KeepsLimits account
  · exact Option.isSome_iff_exists.mpr
      ⟨limits, limitsFor_apply hAudited hTicked hKeeps hSame hLimits⟩
  -- It is configured again, with other limits perhaps.
  cases event with
  | configure other newLimits =>
    obtain rfl : other = account := not_not.mp hSame
    obtain ⟨risk, hRisk⟩ := Option.isSome_iff_exists.mp hAudited.attached
    show ((engine.onRisk fun risk => risk.configure other newLimits).limitsFor other).isSome
    rw [limitsFor, onRisk, hRisk]
    show ((risk.configure other newLimits).limitsFor other).isSome
    rw [RiskEngine.configure, RiskEngine.limitsFor, RiskEngine.find_setState, if_pos rfl]
    rfl
  | _ => exact absurd trivial hSame

section

variable (hOwners : engine.OwnersKnown) (hAudited : engine.Audited)
  (hConfigured : engine.ConfiguredFirst event)
include hOwners hAudited hConfigured

/-- A resting order comes from one of a known account, or from a submission. -/
theorem OwnersKnown.apply (hTicked : event.Ticked) (hKeeps : event.KeepsRisk) :
    (engine.apply event).OwnersKnown := by
  intro id x hRests
  refine known_apply hAudited hTicked hKeeps ?_
  rcases hAudited.housed.origin hTicked hRests with ⟨o, ho, hLeft⟩ | ⟨order, hBrings, hLeft⟩
  · rw [hLeft.account_eq]
    exact hOwners id o ho
  rw [hLeft.account_eq]
  cases event with
  | submit command now =>
    rw [hBrings.1]
    exact hConfigured
  | replace command now =>
    -- The amended order keeps its account, and it was resting.
    obtain ⟨target, hTarget, previous, hPrevious, -, -, -, rfl⟩ := hBrings
    obtain ⟨hKept, -⟩ := hAudited.housed _ _ hTarget
    have hFind := hKept.find_abs hPrevious
    have hKnown := hOwners.of_mem hTarget (mem_of_find?_eq_some hFind)
    exact hKnown
  | _ => exact hBrings.elim

theorem OwnersKnown.printed {fill : Fill} (hFill : fill ∈ engine.printed event) :
    engine.Known fill.aggressorAccount ∧ engine.Known fill.restingAccount := by
  cases event with
  | submit command now =>
    change fill ∈ (engine.submit command now).1.fills at hFill
    rcases submit_booked hAudited.housed command now with ⟨-, hFills, -⟩ |
      ⟨target, outcome, hTarget, -, -, hOutcome, -, hBooked⟩
    · rw [hFills] at hFill
      cases hFill
    rw [hBooked.fills] at hFill
    exact hOwners.parties hTarget ((Book.insert_trail hOutcome).printed fill hFill) hConfigured
  | cancel command now =>
    change fill ∈ (engine.cancel command now).1.fills at hFill
    have hFills := hAudited.housed.fills_cancel command now
    rw [hFills] at hFill
    cases hFill
  | replace command now =>
    change fill ∈ (engine.replace command now).1.fills at hFill
    rcases replace_booked hAudited.housed command now with ⟨-, hFills, -⟩ |
      ⟨target, previous, outcome, hTarget, hPrevious, -, -, hOutcome, -, hBooked⟩
    · rw [hFills] at hFill
      cases hFill
    obtain ⟨hKept, -⟩ := hAudited.housed _ _ hTarget
    have hFind := hKept.find_abs hPrevious
    have hKnown := hOwners.of_mem hTarget (mem_of_find?_eq_some hFind)
    rw [hBooked.fills] at hFill
    exact hOwners.parties hTarget ((hKept.valid.replace_trail hFind hOutcome).printed fill hFill)
      hKnown
  | _ => cases hFill

end

end Parties

/-! ## Whole runs -/

/-- The positions on record are what the fills so far come to, as signed words. -/
structure Posted (engine : MatchingEngine J) (fills : List Fill) : Prop where
  owners : engine.OwnersKnown
  net : ∀ account instrument,
    engine.netPosition account instrument = Word64.toSigned (netOf account instrument fills)

section Run

variable {engine engine' : MatchingEngine J}

/-- A command that posts its fills, all of them between known accounts. -/
theorem Posted.command (hPosted : engine.Posted fills) (hPosts : Posts engine engine')
    (hOwners : engine'.OwnersKnown) (hParties : ∀ fill ∈ engine'.fills,
      engine.Known fill.aggressorAccount ∧ engine.Known fill.restingAccount) :
    engine'.Posted (fills ++ engine'.fills) := by
  refine ⟨hOwners, fun account instrument => ?_⟩
  rw [netOf_append]
  by_cases hKnown : engine.Known account
  · obtain ⟨limits, hLimits⟩ := Option.isSome_iff_exists.mp hKnown
    have hSigned : Word64.toSigned (engine.netPosition account instrument) =
        engine.netPosition account instrument := by
      rw [hPosted.net]
      exact Int.bmod_bmod
    rw [hPosts.net account limits hLimits instrument hSigned, hPosted.net,
      Word64.toSigned_toSigned_add]
  · -- A stranger is on no fill.
    have hSpares : ∀ fill ∈ engine'.fills, fill.Spares account := by
      intro fill hFill
      obtain ⟨hAggressor, hResting⟩ := hParties fill hFill
      exact ⟨fun h => hKnown (h ▸ hAggressor), fun h => hKnown (h ▸ hResting)⟩
    rw [hPosts.spared account hSpares, hPosted.net, netOf_spared instrument hSpares, Int.add_zero]

variable [JournalSink J]

theorem Posted.apply (hPosted : engine.Posted fills) (hAudited : engine.Audited) {event : Event}
    (hTicked : event.Ticked) (hKeeps : event.KeepsRisk)
    (hConfigured : engine.ConfiguredFirst event) :
    (engine.apply event).Posted (fills ++ engine.printed event) := by
  have hAfter := hPosted.owners.apply hAudited hConfigured hTicked hKeeps
  have hParties : ∀ fill ∈ engine.printed event, _ :=
    fun _ hFill => hPosted.owners.printed hAudited hConfigured hFill
  cases event with
  | submit command now =>
    exact hPosted.command (posts_submit hAudited command now) hAfter hParties
  | cancel command now =>
    exact hPosted.command (posts_cancel hAudited command now) hAfter hParties
  | replace command now =>
    exact hPosted.command (posts_replace hAudited command now) hAfter hParties
  | _ =>
    refine ⟨hAfter, fun account instrument => ?_⟩
    rw [(quiet_apply engine hTicked hKeeps not_false).netPosition, hPosted.net]
    exact congrArg (fun fills => Word64.toSigned (netOf account instrument fills))
      (append_nil fills).symm

theorem Posted.run (hPosted : engine.Posted fills) (hAudited : engine.Audited)
    {events : List Event} (hTicked : ∀ event ∈ events, event.Ticked)
    (hKeeps : ∀ event ∈ events, event.KeepsRisk)
    (hConfigured : Machine.Each MatchingEngine.apply ConfiguredFirst engine events) :
    (engine.run events).Posted (fills ++ engine.fillStream events) := by
  induction events generalizing engine fills with
  | nil =>
    rw [fillStream, append_nil]
    exact hPosted
  | cons event events ih =>
    have hTick := hTicked event (by simp)
    have hKeep := hKeeps event (by simp)
    have hNext := ih (hPosted.apply hAudited hTick hKeep hConfigured.1)
      (hAudited.apply hTick hKeep) (fun e he => hTicked e (by simp [he]))
      (fun e he => hKeeps e (by simp [he])) hConfigured.2
    rw [append_assoc] at hNext
    exact hNext

/-- Over every run with one risk engine that starts with nothing on record and in
which an account is configured before its first order: whenever what each account
has bought less what it has sold is in the signed range, it is the position on
record, and the positions in every instrument sum to zero. -/
theorem netPosition_eq_traded (journal : Option J) (kill : Option KillSwitch) {risk : RiskEngine}
    (hFresh : ∀ account instrument, risk.exposure account instrument = {}) (events : List Event)
    (hTicked : ∀ event ∈ events, event.Ticked) (hKeeps : ∀ event ∈ events, event.KeepsRisk)
    (hConfigured : Machine.Each apply ConfiguredFirst (start journal (some risk) kill) events)
    (hRange : ∀ account instrument, SignedWord
      (traded account instrument ((start journal (some risk) kill).fillStream events))) :
    let engine := (start journal (some risk) kill).run events
    let fills := (start journal (some risk) kill).fillStream events
    (∀ account instrument,
        engine.netPosition account instrument = traded account instrument fills) ∧
      ∀ instrument, (Function.support fun account => engine.netPosition account instrument).Finite ∧
        ∑ᶠ account, engine.netPosition account instrument = 0 := by
  intro engine fills
  have hStart : (start journal (some risk) kill).Posted [] := by
    refine ⟨?_, fun account instrument => ?_⟩
    · rintro id order ⟨book, hBook, -⟩
      cases hBook
    · show (risk.exposure account instrument).netPosition = _
      rw [hFresh]
      rfl
  have hAudited := audited_start journal kill hFresh
  have hPosted : engine.Posted fills := hStart.run hAudited hTicked hKeeps hConfigured
  have hNet : ∀ account instrument,
      engine.netPosition account instrument = netOf account instrument fills := by
    intro account instrument
    obtain ⟨hLow, hHigh⟩ := hRange account instrument
    rw [hPosted.net, netOf_eq_traded]
    exact Word64.toSigned_of_range hLow hHigh
  refine ⟨fun account instrument => (hNet account instrument).trans (netOf_eq_traded _ _ _),
    fun instrument => ?_⟩
  -- Only an account on some fill has a position.
  have hSupport : (Function.support fun account => engine.netPosition account instrument) ⊆
      (parties fills : Set AccountId) := by
    intro account hPosition
    by_contra hNot
    refine hPosition ?_
    show engine.netPosition account instrument = 0
    rw [hNet, netOf_spared instrument fun fill hFill => spares_of_not_mem fun hParty =>
      hNot (mem_parties.mpr ⟨fill, hFill, hParty⟩)]
  refine ⟨(parties fills).finite_toSet.subset hSupport, ?_⟩
  rw [finsum_eq_sum_of_support_subset _ hSupport]
  simp only [hNet]
  exact sum_netOf_eq_zero instrument fun fill hFill account hParty =>
    mem_parties.mpr ⟨fill, hFill, hParty⟩

end Run

/-- Two accounts are configured and trade, account 1 also with itself and by an
amendment. -/
def tradingEvents : List Event :=
  [.addInstrument (sampleListing .allow) 0, .configure ⟨1⟩ {},
    .submit (sampleNewOrder 1 1 .buy 1 5 false) 0,
    .configure ⟨2⟩ {},
    .submit (sampleNewOrder 2 2 .sell 1 3 false) 0,
    .submit (sampleNewOrder 3 1 .sell 1 1 false) 0,
    .submit (sampleNewOrder 4 2 .sell 2 4 false) 0,
    .replace (sampleReplace 1 1 2 6) 0]

theorem netPosition_eq_traded_sample :
    ((start (none : Option Empty) (some {}) none).run tradingEvents).netPosition ⟨1⟩ ⟨1⟩ = 5 ∧
      (∀ account instrument,
        ((start (none : Option Empty) (some {}) none).run tradingEvents).netPosition account
          instrument = traded account instrument
            ((start (none : Option Empty) (some {}) none).fillStream tradingEvents)) ∧
      ∑ᶠ account, ((start (none : Option Empty) (some {}) none).run tradingEvents).netPosition
        account ⟨1⟩ = 0 := by
  have hTotal : Fill.total
      ((start (none : Option Empty) (some {}) none).fillStream tradingEvents) < 2 ^ 63 := by
    decide +kernel
  have hAll := netPosition_eq_traded (none : Option Empty) none (fun _ _ => rfl) tradingEvents
    (by decide) (by decide) (by decide +kernel) fun account instrument =>
      signedWord_traded account instrument hTotal
  exact ⟨by decide +kernel, hAll.1, (hAll.2 ⟨1⟩).2⟩

end MatchingEngine
end ExchangeCore
