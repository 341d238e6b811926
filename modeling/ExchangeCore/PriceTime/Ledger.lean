import Mathlib.Algebra.BigOperators.Group.List.Basic
import ExchangeCore.PriceTime.Book

/-!
# Where every lot of a match goes

A match moves quantity and never makes or loses any.  What the incoming order
had is traded, withdrawn by prevention, or left; what an account had in the
other queue is still there, traded away, or withdrawn.  Fills and withdrawals
also name the parties they belong to.

The last section reads the same off whole book operations, as what each account
holds on each side before and after.
-/

namespace ExchangeCore

open List

/-- The quantity of a list of fills. -/
def Fill.total (fills : List Fill) : Nat := (fills.map Fill.quantity).sum

/-- The quantity traded away from the resting orders of an account. -/
def Fill.takenFrom (account : AccountId) (fills : List Fill) : Nat :=
  (fills.map fun fill => if fill.restingAccount = account then fill.quantity else 0).sum

/-- The quantity withdrawn from the resting orders of an account. -/
def Withdrawal.takenFrom (account : AccountId) (withdrawals : List Withdrawal) : Nat :=
  (withdrawals.map fun withdrawal =>
    if withdrawal.account = account then withdrawal.quantity else 0).sum

/-- What an account has in a queue. -/
def heldBy (account : AccountId) (queue : List Order) : Nat :=
  (queue.map fun order => if order.account = account then order.remaining else 0).sum

/-- A fill of an order arriving in the book of an instrument. -/
structure Fill.Of (instrument : Instrument) (order : Order) (fill : Fill) : Prop where
  instrument_eq : fill.instrument = instrument.id
  account_eq : fill.aggressorAccount = order.account
  side_eq : fill.aggressorSide = order.side
  pos : 0 < fill.quantity

/-- A withdrawal caused by an order arriving in the book of an instrument. -/
structure Withdrawal.Of (instrument : Instrument) (order : Order) (withdrawal : Withdrawal) :
    Prop where
  instrument_eq : withdrawal.instrument = instrument.id
  account_eq : withdrawal.account = order.account
  side_eq : withdrawal.side = order.side.opposite

section Sums

/-- A sum over nothing that counts. -/
theorem sum_ite_eq_zero {α : Type} {p : α → Prop} [DecidablePred p] {f : α → Nat} {l : List α}
    (hNone : ∀ a ∈ l, ¬ p a) : (l.map fun a => if p a then f a else 0).sum = 0 := by
  refine sum_eq_zero fun n hMem => ?_
  obtain ⟨a, ha, rfl⟩ := mem_map.mp hMem
  exact if_neg (hNone a ha)

variable (account : AccountId)

@[simp] theorem heldBy_nil : heldBy account [] = 0 := rfl

@[simp] theorem heldBy_cons (order : Order) (queue : List Order) :
    heldBy account (order :: queue) =
      (if order.account = account then order.remaining else 0) + heldBy account queue := by
  simp [heldBy]

theorem heldBy_perm {queue queue' : List Order} (hPerm : queue.Perm queue') :
    heldBy account queue = heldBy account queue' :=
  (hPerm.map _).sum_eq

/-- One order is part of what its account holds. -/
theorem remaining_le_heldBy {order : Order} {queue : List Order} (hMem : order ∈ queue) :
    order.remaining ≤ heldBy order.account queue := by
  induction queue with
  | nil => simp at hMem
  | cons head rest ih =>
    rw [heldBy_cons]
    rcases mem_cons.mp hMem with rfl | hRest
    · simp
    · have := ih hRest
      omega

@[simp] theorem Fill.total_nil : Fill.total [] = 0 := rfl

@[simp] theorem Fill.total_cons (fill : Fill) (fills : List Fill) :
    Fill.total (fill :: fills) = fill.quantity + Fill.total fills := by
  simp [Fill.total]

@[simp] theorem Fill.takenFrom_nil : Fill.takenFrom account [] = 0 := rfl

@[simp] theorem Fill.takenFrom_cons (fill : Fill) (fills : List Fill) :
    Fill.takenFrom account (fill :: fills) =
      (if fill.restingAccount = account then fill.quantity else 0) +
        Fill.takenFrom account fills := by
  simp [Fill.takenFrom]

@[simp] theorem Withdrawal.takenFrom_nil : Withdrawal.takenFrom account [] = 0 := rfl

@[simp] theorem Withdrawal.takenFrom_cons (withdrawal : Withdrawal)
    (withdrawals : List Withdrawal) :
    Withdrawal.takenFrom account (withdrawal :: withdrawals) =
      (if withdrawal.account = account then withdrawal.quantity else 0) +
        Withdrawal.takenFrom account withdrawals := by
  simp [Withdrawal.takenFrom]

@[simp] theorem Fill.total_append (fills fills' : List Fill) :
    Fill.total (fills ++ fills') = Fill.total fills + Fill.total fills' := by
  simp [Fill.total]

/-- Fills of positive quantity add up to something. -/
theorem Fill.total_eq_zero_iff {fills : List Fill} (hPos : ∀ fill ∈ fills, 0 < fill.quantity) :
    Fill.total fills = 0 ↔ fills = [] := by
  cases fills with
  | nil => simp [Fill.total]
  | cons fill fills =>
    have := hPos fill (by simp)
    simp only [Fill.total_cons, reduceCtorEq, iff_false]
    omega

end Sums

/-! ## Tallies -/

/-- A number for every resting order, of which fills and withdrawals take what the order
loses: a used-up order counts nothing. -/
structure Tally where
  ofOrder : Order → Nat
  ofFill : Fill → Nat
  ofWithdrawal : Withdrawal → Nat
  trade : ∀ instrument id price quantity incoming (resting : Order), quantity ≤ resting.remaining →
    (if (resting.take quantity).remaining = 0 then 0 else ofOrder (resting.take quantity)) +
        ofFill (Fill.between instrument id price quantity incoming (resting.take quantity)) =
      ofOrder resting
  cancel : ∀ instrument resting,
    ofWithdrawal (Withdrawal.ofResting instrument resting resting.remaining true) = ofOrder resting
  decrement : ∀ instrument quantity removed (resting : Order), quantity ≤ resting.remaining →
    removed = ((resting.shrink quantity).remaining == 0) →
    (if (resting.shrink quantity).remaining = 0 then 0 else ofOrder (resting.shrink quantity)) +
        ofWithdrawal (Withdrawal.ofResting instrument (resting.shrink quantity) quantity removed) =
      ofOrder resting

/-- What a match has in the queue and in its reports. -/
def Tally.of (tally : Tally) (m : PriceTime.Matching) : Nat :=
  (m.queue.map tally.ofOrder).sum + (m.fills.map tally.ofFill).sum +
    (m.withdrawals.map tally.ofWithdrawal).sum

/-- A name that resting orders share with the fills and withdrawals against them. -/
structure RestingKey (κ : Type) where
  ofOrder : Order → κ
  ofFill : Fill → κ
  ofWithdrawal : Withdrawal → κ
  ofOrder_congr : ∀ {a b : Order}, a.terms = b.terms → ofOrder a = ofOrder b
  ofFill_between : ∀ instrument id price quantity incoming resting,
    ofFill (Fill.between instrument id price quantity incoming resting) = ofOrder resting
  ofWithdrawal_ofResting : ∀ instrument resting quantity removed,
    ofWithdrawal (Withdrawal.ofResting instrument resting quantity removed) = ofOrder resting

namespace RestingKey

def account : RestingKey AccountId where
  ofOrder := Order.account
  ofFill := Fill.restingAccount
  ofWithdrawal := Withdrawal.account
  ofOrder_congr := fun hTerms => (Order.eq_of_terms_eq hTerms).2.1
  ofFill_between := fun _ _ _ _ _ _ => rfl
  ofWithdrawal_ofResting := fun _ _ _ _ => rfl

def orderId : RestingKey OrderId where
  ofOrder := Order.id
  ofFill := Fill.restingOrder
  ofWithdrawal := Withdrawal.order
  ofOrder_congr := fun hTerms => (Order.eq_of_terms_eq hTerms).1
  ofFill_between := fun _ _ _ _ _ _ => rfl
  ofWithdrawal_ofResting := fun _ _ _ _ => rfl

variable {κ : Type} (key : RestingKey κ) [DecidableEq κ] (k : κ)

/-- What rests under a name, and what was traded and withdrawn under it. -/
def held (queue : List Order) : Nat :=
  (queue.map fun order => if key.ofOrder order = k then order.remaining else 0).sum

def traded (fills : List Fill) : Nat :=
  (fills.map fun fill => if key.ofFill fill = k then fill.quantity else 0).sum

def withdrawn (withdrawals : List Withdrawal) : Nat :=
  (withdrawals.map fun withdrawal =>
    if key.ofWithdrawal withdrawal = k then withdrawal.quantity else 0).sum

theorem held_cons (order : Order) (queue : List Order) :
    key.held k (order :: queue) =
      (if key.ofOrder order = k then order.remaining else 0) + key.held k queue := by
  simp [held]

theorem ite_sub_add_ite {p : Prop} [Decidable p] {quantity remaining : Nat}
    (hLe : quantity ≤ remaining) :
    (if remaining - quantity = 0 then 0 else if p then remaining - quantity else 0) +
      (if p then quantity else 0) = if p then remaining else 0 := by
  split_ifs <;> omega

/-- What rests under a name is lost to the fills and withdrawals under it. -/
def tally : Tally where
  ofOrder order := if key.ofOrder order = k then order.remaining else 0
  ofFill fill := if key.ofFill fill = k then fill.quantity else 0
  ofWithdrawal withdrawal := if key.ofWithdrawal withdrawal = k then withdrawal.quantity else 0
  trade instrument id price quantity incoming resting hLe := by
    rw [key.ofFill_between, key.ofOrder_congr (Order.terms_take resting quantity)]
    exact ite_sub_add_ite hLe
  cancel instrument resting := by
    rw [key.ofWithdrawal_ofResting]
    rfl
  decrement instrument quantity removed resting hLe _ := by
    rw [key.ofWithdrawal_ofResting, key.ofOrder_congr (Order.terms_shrink resting quantity)]
    exact ite_sub_add_ite hLe

end RestingKey

namespace PriceTime
namespace Matching

variable {instrument : Instrument} {m m' : Matching}

theorem sum_settle (tally : Tally) (head : Order) (rest : List Order) :
    ((settle head rest).map tally.ofOrder).sum =
      (if head.remaining = 0 then 0 else tally.ofOrder head) + (rest.map tally.ofOrder).sum := by
  unfold settle
  split <;> simp

/-- One meeting moves what the queue counts into the fills and withdrawals. -/
theorem step_tally (tally : Tally) (hStep : m.step instrument = some m') :
    tally.of m' = tally.of m := by
  obtain ⟨head, rest, hQueue, -, -, hMeets⟩ := step_cases hStep
  have hLe : min m.incoming.remaining head.remaining ≤ head.remaining := Nat.min_le_right _ _
  unfold Tally.of
  cases hMeets with
  | trade =>
    have hTrade := tally.trade instrument m.nextTradeId
      (head.take (min m.incoming.remaining head.remaining)).price _
      (m.incoming.take (min m.incoming.remaining head.remaining)) head hLe
    simp only [trade, hQueue, sum_settle, map_append, sum_append, map_cons,
      sum_cons, map_nil, sum_nil]
    omega
  | cancelIncoming => rfl
  | cancelResting =>
    simp only [cancelResting, hQueue, map_append, sum_append, map_cons,
      sum_cons, map_nil, sum_nil, tally.cancel]
    omega
  | cancelBoth =>
    simp only [cancelBoth, cancelIncoming, cancelResting, hQueue, map_append,
      sum_append, map_cons, sum_cons, map_nil, sum_nil, tally.cancel]
    omega
  | decrementBoth =>
    have hDecrement := tally.decrement instrument _ _ head hLe rfl
    simp only [decrementBoth, hQueue, sum_settle, map_append, sum_append,
      map_cons, sum_cons, map_nil, sum_nil]
    omega

theorem Reaches.tally (hReaches : Reaches instrument m m') (tally : Tally) :
    tally.of m' = tally.of m := by
  induction hReaches with
  | refl => rfl
  | tail _ hNext ih => exact (step_tally tally hNext).trans ih

/-- One meeting takes from the incoming order what it trades or what prevention
cancels. -/
theorem step_incoming (hStep : m.step instrument = some m') :
    m'.incoming.remaining + Fill.total m'.fills + m'.stpCancelled =
      m.incoming.remaining + Fill.total m.fills + m.stpCancelled := by
  obtain ⟨head, rest, -, -, -, hMeets⟩ := step_cases hStep
  cases hMeets with
  | trade =>
    simp only [trade, Order.take, Fill.between, Fill.total_append, Fill.total_cons, Fill.total_nil]
    omega
  | cancelIncoming =>
    simp only [cancelIncoming]
    omega
  | cancelResting => rfl
  | cancelBoth =>
    simp only [cancelBoth, cancelResting, cancelIncoming]
    omega
  | decrementBoth =>
    simp only [decrementBoth, Order.shrink]
    omega

/-- A whole match accounts for every lot. -/
theorem Reaches.ledger (hReaches : Reaches instrument m m') :
    m'.incoming.remaining + Fill.total m'.fills + m'.stpCancelled =
        m.incoming.remaining + Fill.total m.fills + m.stpCancelled ∧
      ∀ account, heldBy account m'.queue + Fill.takenFrom account m'.fills +
          Withdrawal.takenFrom account m'.withdrawals =
        heldBy account m.queue + Fill.takenFrom account m.fills +
          Withdrawal.takenFrom account m.withdrawals := by
  refine ⟨?_, fun account => hReaches.tally (RestingKey.account.tally account)⟩
  induction hReaches with
  | refl => rfl
  | tail _ hNext ih => exact (step_incoming hNext).trans ih

/-- An order that reaches nothing but its own account's orders prints nothing. -/
theorem Reaches.fills_of_prevented (hReaches : Reaches instrument m m')
    (hOwn : ∀ resting ∈ m.queue, m.incoming.crosses resting.price = true →
      instrument.prevents m.incoming.account resting.account = true) : m'.fills = m.fills := by
  -- The hypothesis is about terms, which a meeting keeps, so it travels along.
  have hBoth : m'.fills = m.fills ∧ ∀ resting ∈ m'.queue, m'.incoming.crosses resting.price = true →
        instrument.prevents m'.incoming.account resting.account = true := by
    refine hReaches.invariant (P := fun x => x.fills = m.fills ∧ ∀ resting ∈ x.queue,
      x.incoming.crosses resting.price = true →
        instrument.prevents x.incoming.account resting.account = true) ?_ ⟨rfl, hOwn⟩
    intro x y hx hStep
    obtain ⟨hIncoming, hQueue⟩ := step_terms hStep
    refine ⟨?_, fun resting hMem hCrosses => ?_⟩
    · obtain ⟨head, rest, hHead, -, hCrosses, hMeets⟩ := step_cases hStep
      have hPrevented := hx.2 head (by simp [hHead]) hCrosses
      cases hMeets with
      | trade hFree =>
        rw [hPrevented] at hFree
        contradiction
      | cancelIncoming => exact hx.1
      | cancelResting => exact hx.1
      | cancelBoth => exact hx.1
      | decrementBoth => exact hx.1
    · obtain ⟨o, ho, hTerms⟩ := mem_map.mp (hQueue.subset (mem_map_of_mem hMem))
      obtain ⟨-, hAccount, -, hPrice, -⟩ := Order.eq_of_terms_eq hTerms
      obtain ⟨-, hIncomingAccount, -⟩ := Order.eq_of_terms_eq hIncoming
      rw [Order.crosses_congr hIncoming, ← hPrice] at hCrosses
      rw [hIncomingAccount, ← hAccount]
      exact hx.2 o ho hCrosses
  exact hBoth.1

/-- Prevention only applies to the aggressor's own orders. -/
theorem account_of_prevents {incoming resting : AccountId}
    (hOwn : instrument.prevents incoming resting = true) : resting = incoming := by
  simp only [Instrument.prevents, Bool.and_eq_true, decide_eq_true_eq] at hOwn
  exact hOwn.2

/-- Everything a match reports belongs to the order that started it. -/
theorem Reaches.parties (hReaches : Reaches instrument m m') {order : Order}
    (hOrder : m.incoming.terms = order.terms) (hLive : ∀ o ∈ m.queue, o.Live)
    (hSide : ∀ o ∈ m.queue, o.side = order.side.opposite)
    (hFills : ∀ fill ∈ m.fills, Fill.Of instrument order fill)
    (hWithdrawals : ∀ withdrawal ∈ m.withdrawals, Withdrawal.Of instrument order withdrawal) :
    (∀ fill ∈ m'.fills, Fill.Of instrument order fill) ∧
      ∀ withdrawal ∈ m'.withdrawals, Withdrawal.Of instrument order withdrawal := by
  induction hReaches with
  | refl => exact ⟨hFills, hWithdrawals⟩
  | @tail a b hPrefix hNext ih =>
    obtain ⟨ihFills, ihWithdrawals⟩ := ih
    have hIncoming := (Reaches.terms hPrefix).1.trans hOrder
    obtain ⟨-, hAccount, -, -, hOrderSide, -⟩ := Order.eq_of_terms_eq hIncoming
    obtain ⟨head, rest, hQueue, hLeft, -, hMeets⟩ := step_cases hNext
    have hHead : head.Live := Reaches.live hPrefix hLive head (by rw [hQueue]; simp)
    have hHeadSide : head.side = order.side.opposite := by
      obtain ⟨o, ho, hTerms⟩ := Book.exists_of_terms_sublist
        (Reaches.terms hPrefix).2.sublist (show head ∈ a.queue by rw [hQueue]; simp)
      rw [(Order.eq_of_terms_eq hTerms).2.2.2.2.1]
      exact hSide o ho
    -- Every withdrawal a meeting adds is one of the head's own quantity.
    have hWithdrawn : ∀ (o : Order) (quantity : Nat) (removed : Bool),
        o.account = head.account → o.side = head.side →
        instrument.prevents a.incoming.account head.account = true →
        ∀ withdrawal ∈ a.withdrawals ++ [Withdrawal.ofResting instrument o quantity removed],
          Withdrawal.Of instrument order withdrawal := by
      intro o quantity removed hSame hSameSide hOwn
      exact forall_mem_append.mpr ⟨ihWithdrawals, forall_mem_singleton.mpr
        ⟨rfl, (hSame.trans (account_of_prevents hOwn)).trans hAccount, hSameSide.trans hHeadSide⟩⟩
    cases hMeets with
    | trade =>
      exact ⟨forall_mem_append.mpr ⟨ihFills, forall_mem_singleton.mpr
        ⟨rfl, hAccount, hOrderSide, Nat.lt_min.mpr ⟨hLeft, hHead.1⟩⟩⟩, ihWithdrawals⟩
    | cancelIncoming => exact ⟨ihFills, ihWithdrawals⟩
    | cancelResting hOwn => exact ⟨ihFills, hWithdrawn head _ _ rfl rfl hOwn⟩
    | cancelBoth hOwn => exact ⟨ihFills, hWithdrawn head _ _ rfl rfl hOwn⟩
    | decrementBoth hOwn => exact ⟨ihFills, hWithdrawn (head.shrink _) _ _ rfl rfl hOwn⟩

end Matching

namespace Book

/-- What an account holds on one side of a book. -/
def holding (book : Book) (account : AccountId) (side : Side) : Nat :=
  heldBy account (book.queue side)

/-- What an order leaves when it enters a book: `rest` of it on its own side, and
on the other side whatever was neither traded nor withdrawn. -/
structure Ledger (book : Book) (order : Order) (after : Book) (fills : List Fill)
    (withdrawals : List Withdrawal) (rest : Nat) : Prop where
  own : ∀ account, after.holding account order.side =
    book.holding account order.side + if order.account = account then rest else 0
  other : ∀ account, after.holding account order.side.opposite +
      Fill.takenFrom account fills + Withdrawal.takenFrom account withdrawals =
    book.holding account order.side.opposite
  printed : ∀ fill ∈ fills, Fill.Of book.instrument order fill
  withdrawn : ∀ withdrawal ∈ withdrawals, Withdrawal.Of book.instrument order withdrawal
  bound : rest + Fill.total fills ≤ order.remaining

/-- What is found under the order's id afterwards: what rests of it, or nothing
when nothing does. -/
def Left (order : Order) (after : Book) (rested : Bool) (rest : Nat) : Prop :=
  if rested then
    ∃ resting, after.find order.id = some resting ∧ resting.account = order.account ∧
      resting.instrument = order.instrument ∧ resting.side = order.side ∧
      resting.remaining = rest
  else rest = 0 ∧ after.find order.id = none

section Ledger

variable {book : Book} {order : Order} {m : Matching}

/-- The part of the ledger that a match alone decides. -/
theorem Valid.match_ledger (hValid : book.Valid)
    (hMatch : (book.arrival order [] []).finish book.instrument = m) :
    m.incoming.remaining + Fill.total m.fills + m.stpCancelled = order.remaining ∧
      (∀ account, heldBy account m.queue + Fill.takenFrom account m.fills +
        Withdrawal.takenFrom account m.withdrawals = book.holding account order.side.opposite) ∧
      (∀ fill ∈ m.fills, Fill.Of book.instrument order fill) ∧
      ∀ withdrawal ∈ m.withdrawals, Withdrawal.Of book.instrument order withdrawal := by
  have hReaches := Matching.reaches_of_finish hMatch
  obtain ⟨hIncoming, hHeld⟩ := hReaches.ledger
  have hParties := hReaches.parties rfl
    (fun o ho => (hValid.rests _ o ho).live) (fun o ho => hValid.side_eq _ o ho)
    (fun fill hFill => by simp [arrival] at hFill)
    (fun withdrawal hMem => by simp [arrival] at hMem)
  exact ⟨by simpa [arrival] using hIncoming, fun account => by
    simpa [arrival, holding] using hHeld account, hParties⟩

theorem find_matched_none (hMatch : (book.arrival order [] []).finish book.instrument = m)
    (hFresh : book.find order.id = none) : (book.matched order m).find order.id = none := by
  rw [find_eq_none_iff] at hFresh ⊢
  intro o ho
  obtain ⟨o', ho', hTerms⟩ := mem_ids_matched hMatch ho
  rw [(Order.eq_of_terms_eq hTerms).1]
  exact hFresh o' ho'

/-- Inserting an order accounts for every lot of it and of the other side. -/
theorem Valid.insert_ledger (hValid : book.Valid) {fillable : Bool}
    (hLe : order.remaining ≤ order.quantity) (hVerdict : order.tif = .fillOrKill → fillable = true →
      ((book.arrival order [] []).finish book.instrument).incoming.remaining = 0)
    {outcome : Outcome Book SubmitResult} (hOutcome : book.insert fillable order [] [] = outcome)
    (hAccepted : outcome.result.reject = .none) :
    ∃ rest, Ledger book order outcome.book outcome.fills outcome.withdrawals rest ∧
      Left order outcome.book outcome.result.rested rest := by
  have hAfter : (book.insert fillable order [] []).book.Valid := hValid.insert hLe hVerdict
  have hCases := insert_cases book fillable order [] []
  rw [hOutcome] at hCases hAfter
  cases hCases with
  | refused reason hReason => exact absurd hAccepted hReason
  | entered m rested hMatch hAccepts hRested =>
    obtain ⟨hIncoming, hHeld, hFills, hWithdrawals⟩ := hValid.match_ledger hMatch
    obtain ⟨hOwn, hOther⟩ := queue_entered book order m rested
    have hTerms : m.incoming.terms = order.terms := (Matching.reaches_of_finish hMatch).terms.1
    obtain ⟨hId, hAccount, hInstrument, -, hSide, -⟩ := Order.eq_of_terms_eq hTerms
    refine ⟨if rested then m.incoming.remaining else 0, ?_, ?_⟩
    · refine
        { own := fun account => ?_
          other := fun account => ?_
          printed := hFills
          withdrawn := hWithdrawals
          bound := by dsimp only; split <;> omega }
      · dsimp only [holding]
        rw [hOwn]
        cases rested with
        | false => simp
        | true =>
          rw [if_pos rfl, heldBy_perm account (perm_enqueue _ _), heldBy_cons, hAccount, if_pos rfl]
          omega
      · dsimp only [holding]
        rw [hOther]
        exact hHeld account
    · cases rested with
      | false => exact ⟨rfl, find_matched_none hMatch (validate_eq_none_iff.mp hAccepts.1).2.2.2⟩
      | true =>
        refine ⟨m.incoming, ?_, hAccount, hInstrument, hSide, rfl⟩
        exact (find_eq_some_iff hAfter.ids).mpr
          ⟨mem_orders_entered.mpr (Or.inl ⟨rfl, rfl⟩), hId⟩

end Ledger

/-! ## Removing and amending -/

section Removing

variable {book : Book} {order : Order} {queue : List Order} {quantity remaining : Nat}

/-- A queue with distinct ids is one of its orders and the queue without it. -/
theorem perm_cons_filter_id (hIds : (queue.map Order.id).Nodup) (hMem : order ∈ queue) :
    queue.Perm (order :: queue.filter fun other => decide (other.id ≠ order.id)) := by
  induction queue with
  | nil => simp at hMem
  | cons head rest ih =>
    rw [map_cons, nodup_cons] at hIds
    by_cases hSame : head = order
    · subst hSame
      have hRest : rest.filter (fun other => decide (other.id ≠ head.id)) = rest := by
        rw [filter_eq_self]
        intro other hOther
        refine decide_eq_true fun hEq => hIds.1 ?_
        rw [← hEq]
        exact mem_map_of_mem hOther
      rw [filter_cons_of_neg (by simp), hRest]
    · have hRest : order ∈ rest := (mem_cons.mp hMem).resolve_left (Ne.symm hSame)
      have hNe : head.id ≠ order.id := by
        intro hEq
        apply hIds.1
        rw [hEq]
        exact mem_map_of_mem hRest
      rw [filter_cons_of_pos (by simpa using hNe)]
      exact ((ih hIds.2 hRest).cons head).trans (List.Perm.swap _ _ _)

/-- A sum over a queue with distinct ids, when one order is taken out of it. -/
theorem heldBy_filter_id (account : AccountId)
    (hIds : (queue.map Order.id).Nodup) (hMem : order ∈ queue) :
    heldBy account (queue.filter fun other => decide (other.id ≠ order.id)) +
        (if order.account = account then order.remaining else 0) = heldBy account queue := by
  rw [heldBy_perm account (perm_cons_filter_id hIds hMem), heldBy_cons]
  omega

theorem Valid.nodup_queue (hValid : book.Valid) (side : Side) :
    ((book.queue side).map Order.id).Nodup := by
  have hIds := hValid.ids
  rw [orders, map_append] at hIds
  cases side with
  | buy => exact hIds.of_append_left
  | sell => exact hIds.of_append_right

/-- Removing an order takes what it had off its account's holding. -/
theorem Valid.holding_remove (hValid : book.Valid) (hMem : order ∈ book.queue order.side)
    (account : AccountId) (side : Side) :
    (book.remove order).holding account side +
        (if order.account = account ∧ order.side = side then order.remaining else 0) =
      book.holding account side := by
  unfold holding Book.remove
  rcases queue_cases order.side side with rfl | rfl
  · rw [queue_setQueue]
    simpa using heldBy_filter_id account (hValid.nodup_queue _) hMem
  · rw [queue_setQueue_opposite]
    simp [(Side.opposite_ne order.side).symm]

/-- The id of a removed order is free again. -/
theorem Valid.find_remove (hValid : book.Valid) (hMem : order ∈ book.queue order.side) :
    (book.remove order).find order.id = none := by
  rw [find_eq_none_iff]
  intro other hOther
  rcases (mem_orders_setQueue _ _ _).mp hOther with hSide | hSide
  · simpa using (mem_filter.mp hSide).2
  intro hEq
  -- Ids are distinct across the two sides as well.
  have hSame : other = order := inj_on_of_nodup_map hValid.ids
    (mem_orders.mpr ⟨_, hSide⟩) (mem_orders.mpr ⟨_, hMem⟩) hEq
  have hOtherSide := hValid.side_eq _ other hSide
  rw [hSame] at hOtherSide
  exact Side.opposite_ne order.side hOtherSide.symm

theorem heldBy_map_id (account : AccountId)
    (hIds : (queue.map Order.id).Nodup) (hMem : order ∈ queue) :
    heldBy account (queue.map fun other =>
        if other.id = order.id then { other with quantity := quantity, remaining := remaining }
        else other) + (if order.account = account then order.remaining else 0) =
      heldBy account queue + if order.account = account then remaining else 0 := by
  have hPerm := perm_cons_filter_id hIds hMem
  rw [heldBy_perm account (hPerm.map _), heldBy_perm account hPerm, map_cons, if_pos rfl,
    heldBy_cons, heldBy_cons]
  -- the others are not touched
  have hOthers : (queue.filter fun other => decide (other.id ≠ order.id)).map (fun other =>
      if other.id = order.id then { other with quantity := quantity, remaining := remaining }
      else other) = queue.filter fun other => decide (other.id ≠ order.id) := by
    refine (map_congr_left fun other hOther => ?_).trans (map_id _)
    exact if_neg (of_decide_eq_true (mem_filter.mp hOther).2)
  rw [hOthers]
  dsimp only
  omega

/-- Amending in place changes its account's holding by the change in what
remains. -/
theorem Valid.holding_amendInPlace (hValid : book.Valid) (hMem : order ∈ book.queue order.side)
    (quantity remaining : Nat) (account : AccountId) (side : Side) :
    (book.amendInPlace order quantity remaining).holding account side +
        (if order.account = account ∧ order.side = side then order.remaining else 0) =
      book.holding account side +
        if order.account = account ∧ order.side = side then remaining else 0 := by
  unfold holding Book.amendInPlace
  rcases queue_cases order.side side with rfl | rfl
  · rw [queue_setQueue]
    simpa using heldBy_map_id account (hValid.nodup_queue _) hMem
  · rw [queue_setQueue_opposite]
    simp [(Side.opposite_ne order.side).symm]

theorem Valid.find_amendInPlace (hValid : book.Valid) (hMem : order ∈ book.queue order.side)
    (hPos : 0 < remaining) (hLe : remaining ≤ quantity) :
    (book.amendInPlace order quantity remaining).find order.id =
      some { order with quantity := quantity, remaining := remaining } := by
  refine (find_eq_some_iff (hValid.amendInPlace order hPos hLe).ids).mpr
    ⟨mem_orders.mpr ⟨order.side, ?_⟩, rfl⟩
  rw [Book.amendInPlace, queue_setQueue]
  exact mem_map.mpr ⟨order, hMem, if_pos rfl⟩

end Removing

section Amending

variable {book : Book} {id : OrderId} {newPrice : Int} {newQuantity : Nat} {previous : Order}
  {newSequence : Nat} {now : Int}

section

variable (hValid : book.Valid) (hFind : book.find id = some previous)
  (hPrice : book.instrument.isValidPrice newPrice = true)
  (hQuantity : book.instrument.isValidQuantity newQuantity = true)
include hValid hFind hPrice hQuantity

/-- An order that was resting is validated again on its way back, and passes. -/
theorem Valid.validate_amended (newSequence : Nat) (now : Int) :
    (book.remove previous).validate (amended previous newPrice newQuantity newSequence now) =
      .none := by
  have hMem := hValid.mem_queue_of_find hFind
  rw [validate_eq_none_iff, instrument_remove]
  exact ⟨(hValid.rests _ previous hMem).instrument_eq, hQuantity, fun _ => hPrice,
    hValid.find_remove hMem⟩

/-- The only thing that can refuse an order on its way back is that it is
post-only and would cross. -/
theorem Valid.insert_amended
    {outcome : Outcome Book SubmitResult} (hOutcome : (book.remove previous).insert true
      (amended previous newPrice newQuantity newSequence now) [] [] = outcome)
    (hRefused : outcome.result.reject ≠ .none) :
    outcome = ⟨book.remove previous, { reject := .postOnlyWouldCross }, [], []⟩ ∧
      previous.postOnly = true ∧
      (book.remove previous).wouldCross
        (amended previous newPrice newQuantity newSequence now) = true := by
  have hValidated := hValid.validate_amended hFind hPrice hQuantity newSequence now
  have hCases := insert_cases (book.remove previous) true
    (amended previous newPrice newQuantity newSequence now) [] []
  rw [hOutcome] at hCases
  cases hCases with
  | refused reason hReason hWhy =>
    rcases hWhy with hWhy | ⟨rfl, hPost, hCross⟩ | ⟨-, -, hVerdict⟩
    · exact absurd (hWhy.symm.trans hValidated) hReason
    · exact ⟨rfl, hPost, hCross⟩
    · contradiction
  | entered => exact absurd rfl hRefused

end

/-- An accepted amendment takes the order off and lets what is left of it enter
again, whichever of its three ways it went. -/
theorem Valid.replace_ledger (hValid : book.Valid) (hFind : book.find id = some previous)
    {outcome : Outcome Book ReplaceResult}
    (hOutcome : book.replace id newPrice newQuantity newSequence now [] [] = outcome)
    (hAccepted : outcome.result.reject = .none) :
    ∃ order rest, order.id = id ∧ order.account = previous.account ∧
      order.instrument = previous.instrument ∧ order.side = previous.side ∧
      order.remaining = newQuantity - previous.filled ∧
      Ledger (book.remove previous) order outcome.book outcome.fills outcome.withdrawals rest ∧
      Left order outcome.book outcome.result.rested rest := by
  have hMem := hValid.mem_queue_of_find hFind
  have hId : previous.id = id := ((find_eq_some_iff hValid.ids).mp hFind).2
  have hCases := replacement_of_eq hOutcome
  cases hCases with
  | unknown hNone => cases hAccepted
  | refused other reason hFind' hReason =>
    rcases hReason with ⟨rfl, -⟩ | ⟨rfl, -⟩ <;> cases hAccepted
  | closed other hFind' _ _ hFilled =>
    cases hFind.symm.trans hFind'
    refine ⟨{ previous with remaining := newQuantity - previous.filled }, 0, hId, rfl, rfl, rfl,
      rfl, ?_, rfl, ?_⟩
    · exact
        { own := fun account => by simp
          other := fun account => by simp
          printed := fun fill hFill => by simp at hFill
          withdrawn := fun withdrawal hWithdrawal => by simp at hWithdrawal
          bound := Nat.zero_le _ }
    · exact hValid.find_remove hMem
  | inPlace other hFind' _ _ hMore hShrinks =>
    cases hFind.symm.trans hFind'
    have hLe : newQuantity - previous.filled ≤ newQuantity := Nat.sub_le _ _
    refine ⟨{ previous with remaining := newQuantity - previous.filled },
      newQuantity - previous.filled, hId, rfl, rfl, rfl, rfl, ?_, _,
      hValid.find_amendInPlace hMem (by omega) hLe, rfl, rfl, rfl, rfl⟩
    refine
      { own := fun account => ?_
        other := fun account => ?_
        printed := fun fill hFill => by simp at hFill
        withdrawn := fun withdrawal hWithdrawal => by simp at hWithdrawal
        bound := by simp }
    · have hAmended := hValid.holding_amendInPlace hMem newQuantity
        (newQuantity - previous.filled) account previous.side
      have hRemoved := hValid.holding_remove hMem account previous.side
      simp only [and_true] at hAmended hRemoved
      by_cases hAccount : previous.account = account
      · simp only [hAccount, if_true] at hAmended hRemoved ⊢
        omega
      · simp only [hAccount, if_false] at hAmended hRemoved ⊢
        omega
    · have hAmended := hValid.holding_amendInPlace hMem newQuantity
        (newQuantity - previous.filled) account previous.side.opposite
      have hRemoved := hValid.holding_remove hMem account previous.side.opposite
      simp only [(Side.opposite_ne previous.side).symm, and_false, if_false] at hAmended hRemoved
      simp only [Fill.takenFrom_nil, Withdrawal.takenFrom_nil]
      omega
  | requeued other hFind' hPrice hQuantity hMore _ inserted hInserted =>
    cases hFind.symm.trans hFind'
    have hTif : (amended previous newPrice newQuantity newSequence now).tif ≠ .fillOrKill := by
      have hRests := (hValid.rests _ previous hMem).tif
      intro hKill
      have hSame : previous.tif = .fillOrKill := hKill
      rcases hRests with hDay | hGtc
      · rw [hDay] at hSame
        contradiction
      · rw [hGtc] at hSame
        contradiction
    obtain ⟨rest, hLedger, hLeft⟩ := (hValid.remove previous).insert_ledger
      (by simp [amended]) (fun hKill => absurd hKill hTif) hInserted.symm hAccepted
    exact ⟨amended previous newPrice newQuantity newSequence now, rest, hId, rfl, rfl, rfl, rfl,
      hLedger, hLeft⟩

/-- An amendment that reaches nothing but its own account's orders prints nothing. -/
theorem fills_replace (hFind : book.find id = some previous)
    (hOwn : previous.filled < newQuantity → ∀ resting ∈ book.queue previous.side.opposite,
      ({ previous with price := newPrice } : Order).crosses resting.price = true →
        book.instrument.prevents previous.account resting.account = true) :
    (book.replace id newPrice newQuantity newSequence now [] []).fills = [] := by
  have hCases := replace_cases book id newPrice newQuantity newSequence now [] []
  generalize book.replace id newPrice newQuantity newSequence now [] [] = outcome at hCases ⊢
  cases hCases with
  | unknown => rfl
  | refused => rfl
  | closed => rfl
  | inPlace => rfl
  | requeued other hFind' _ _ hMore _ inserted hInserted =>
    cases hFind.symm.trans hFind'
    have hQueue : (book.remove previous).queue previous.side.opposite =
        book.queue previous.side.opposite := queue_setQueue_opposite _ _ _
    cases insertion_of_eq hInserted.symm with
    | refused => rfl
    | entered m rested hMatch =>
      rw [instrument_remove] at hMatch
      refine (Matching.reaches_of_finish hMatch).fills_of_prevented ?_
      intro resting hMem hCrosses
      have hMem' : resting ∈ book.queue previous.side.opposite := hQueue ▸ hMem
      exact hOwn (Nat.lt_of_not_le hMore) resting hMem' hCrosses

end Amending

end Book
end PriceTime
end ExchangeCore
