import ExchangeCore.Core.OrderIds
import ExchangeCore.Core.Partition
import ExchangeCore.Core.StateDigest
import ExchangeCore.PriceTime.Probe

/-!
# What the digest says about the future

Three things that later commands depend on are not fed to the digest: a book's next
trade id, and of each resting order whether it is post-only and when it was accepted.
Two engines that feed the same stream answer every further run alike exactly when
they agree in these (`digestInput_decides_iff`).

One direction is a bisimulation: engines whose books stand for the same abstract
books answer alike and stay so.  For the other, a cancel shows the order it withdraws,
and two orders of strangers make a book print its next trade id.
-/

namespace ExchangeCore

open PriceTime List OrderBook

/-- What the digest leaves out of a book. -/
def OrderBook.undigested (book : OrderBook) : Nat × List (Bool × Int) :=
  (book.nextTradeId, book.restingOrders.map fun order => (order.postOnly, order.acceptedAt))

/-- The fed fields, the ones left out and the instrument make up an order. -/
theorem Order.eq_of_digested {order order' : Order} (hFed : order.digested = order'.digested)
    (hLeft : (order.postOnly, order.acceptedAt) = (order'.postOnly, order'.acceptedAt))
    (hInstrument : order.instrument = order'.instrument) : order = order' := by
  cases order
  cases order'
  simp only [Order.digested, Order.mk.injEq] at hFed
  obtain ⟨rfl, rfl, -, rfl, rfl, rfl, rfl, rfl, rfl, -, rfl, -⟩ := hFed
  obtain ⟨rfl, rfl⟩ := Prod.mk.inj hLeft
  obtain rfl := hInstrument
  rfl

/-- Lists with the same images have the same image at every place. -/
theorem apply_getElem_of_map {α β : Type} {f : α → β} {l l' : List α} (hMap : l.map f = l'.map f)
    {i : Nat} (hi : i < l.length) (hi' : i < l'.length) : f l[i] = f l'[i] := by
  rw [← getElem_map f (h := by rwa [length_map]),
    ← getElem_map f (h := by rwa [length_map])]
  exact getElem_of_eq hMap _

namespace OrderBook

/-- Ids and accounts of the resting orders are below the number. -/
def Below (book : OrderBook) (number : Nat) : Prop :=
  ∀ order ∈ book.restingOrders, order.id.value < number ∧ order.account.value < number

theorem exists_below (book : OrderBook) : ∃ number, 0 < number ∧ book.Below number := by
  refine ⟨(book.restingOrders.map fun order => order.id.value + order.account.value).sum + 1,
    Nat.succ_pos _, fun order hMem => ?_⟩
  have hLe := single_le_sum (fun _ _ => Nat.zero_le _) _ (mem_map_of_mem
    (f := fun order : Order => order.id.value + order.account.value) hMem)
  omega

variable {book book' : OrderBook} (hKept : book.Kept)
include hKept

theorem Kept.mem_restingOrders {order : Order} :
    order ∈ book.restingOrders ↔ book.find order.id = some order := by
  rw [hKept.sound.find_eq, Book.find_eq_some_iff hKept.valid.ids]
  exact (and_iff_left rfl).symm

theorem Kept.instrument_of_mem {order : Order}
    (hMem : order ∈ book.restingOrders) : order.instrument = book.instrument.id := by
  obtain ⟨side, hSide⟩ := Book.mem_orders.mp (show order ∈ book.abs.orders from hMem)
  exact (hKept.valid.rests side order hSide).instrument_eq

/-- Each side of a valid book is what rests on that side. -/
theorem Kept.sideOrders_eq_filter (side : Side) :
    book.sideOrders side =
      book.restingOrders.filter fun order => decide (order.side = side) := by
  have hOwn : ∀ s, (book.sideOrders s).filter (fun order => decide (order.side = s)) =
      book.sideOrders s := by
    intro s
    refine filter_eq_self.mpr fun order hMem => decide_eq_true ?_
    exact hKept.valid.side_eq s order (by rw [queue_abs]; exact hMem)
  have hOther : ∀ s t, s ≠ t →
      (book.sideOrders s).filter (fun order => decide (order.side = t)) = [] := by
    intro s t hNe
    refine filter_eq_nil_iff.mpr fun order hMem hSide => hNe ?_
    rw [← of_decide_eq_true hSide]
    exact (hKept.valid.side_eq s order (by rw [queue_abs]; exact hMem)).symm
  rw [restingOrders, filter_append]
  cases side with
  | buy => rw [hOwn, hOther .sell .buy (by decide), append_nil]
  | sell => rw [hOwn, hOther .buy .sell (by decide), nil_append]

/-- The instrument, the resting orders and the next trade id make up the abstract
book. -/
theorem Kept.abs_eq (hKept' : book'.Kept) (hInstrument : book.instrument = book'.instrument)
    (hOrders : book.restingOrders = book'.restingOrders)
    (hTradeId : book.nextTradeId = book'.nextTradeId) : book.abs = book'.abs := by
  unfold abs
  rw [hInstrument, hTradeId, hKept.sideOrders_eq_filter, hKept.sideOrders_eq_filter,
    hKept'.sideOrders_eq_filter, hKept'.sideOrders_eq_filter, hOrders]

theorem digestInput_of_abs (hKept' : book'.Kept)
    (hAbs : book'.abs = book.abs) : book'.digestInput = book.digestInput := by
  have hOrders : book'.restingOrders = book.restingOrders := congrArg Book.orders hAbs
  have hInstrument : book'.instrument = book.instrument := congrArg Book.instrument hAbs
  rw [digestInput, digestInput, hKept.sound.restingOrderCount, hKept'.sound.restingOrderCount,
    hOrders, hInstrument]

theorem restingOrders_of_undigested (hKept' : book'.Kept)
    (hInstrument : book.instrument = book'.instrument)
    (hFed : book.restingOrders.map Order.digested = book'.restingOrders.map Order.digested)
    (hLeft : book.undigested = book'.undigested) : book.restingOrders = book'.restingOrders := by
  have hLength : book.restingOrders.length = book'.restingOrders.length := by
    simpa using congrArg List.length hFed
  refine ext_getElem hLength fun i hi hi' => ?_
  refine Order.eq_of_digested (apply_getElem_of_map hFed hi hi')
    (apply_getElem_of_map (congrArg Prod.snd hLeft) hi hi') ?_
  rw [hKept.instrument_of_mem (getElem_mem hi),
    hKept'.instrument_of_mem (getElem_mem hi'), hInstrument]

/-- No command changes a book nothing can rest in. -/
theorem Kept.inert_apply (hInert : book.abs.Inert) (fills : List Fill)
    (withdrawals : List Withdrawal) (command : BookCommand) :
    (book.apply fills withdrawals command).book.abs.Inert := by
  intro hNever
  have hInstrument : (book.apply fills withdrawals command).book.abs.instrument =
      book.abs.instrument := hKept.instrument_apply fills withdrawals command
  rw [hInstrument] at hNever
  have hSame : (book.apply fills withdrawals command).book.abs = book.abs := by
    rw [(hKept.refines fills withdrawals command).book]
    cases command with
    | submit order => exact hInert.insert hNever (le_refl _) _ fills withdrawals
    | cancel id => simp only [Book.apply, Book.cancel, hInert.find hNever id]
    | replace id newPrice newQuantity newSequence now =>
      simp only [Book.apply, Book.replace, hInert.find hNever id]
  rw [hSame]
  exact hInert hNever

end OrderBook

theorem ClientReply.renumber_id (reply : ClientReply) : reply.renumber id = reply := by
  cases reply <;> rfl

namespace MatchingEngine

variable {J : Type} [JournalSink J]

/-! ## Twin engines -/

/-- Two engines that no command can tell apart. -/
structure Twins (engine engine' : MatchingEngine J) : Prop where
  unguarded : engine.Unguarded
  unguarded' : engine'.Unguarded
  housed : engine.Housed
  housed' : engine'.Housed
  sequence : engine'.sequence = engine.sequence
  order : engine'.instrumentOrder = engine.instrumentOrder
  book : ∀ id, engine'.absBook id = engine.absBook id

section Twins

variable {engine engine' : MatchingEngine J}

/-- They answer a command alike and remain twins. -/
theorem Twins.obey (hTwins : Twins engine engine') (now : Int) (command : ClientCommand) :
    (engine'.obey now command).2 = (engine.obey now command).2 ∧
      (engine'.obey now command).1.fills = (engine.obey now command).1.fills ∧
      Twins (engine.obey now command).1 (engine'.obey now command).1 := by
  have hObeyed := obey_cases hTwins.unguarded now command
  have hObeyed' := obey_cases hTwins.unguarded' now command
  have hRenumber : ∀ abstract : Option Book, abstract.map (Book.renumber id) = abstract := by
    intro abstract
    cases abstract with
    | none => rfl
    | some book => exact congrArg some book.renumber_id
  obtain ⟨hReply, hFills, hBook, hSequence⟩ := obey_renumbered hTwins.unguarded
    hTwins.unguarded' hTwins.housed hTwins.housed' (f := id) rfl now command
    (fun _ => congrArg (· + 1) hTwins.sequence.symm)
    ((hTwins.book command.instrument).trans (hRenumber _).symm)
  rw [ClientReply.renumber_id] at hReply
  rw [hRenumber] at hBook
  refine ⟨hReply, hFills,
    { unguarded := hTwins.unguarded.obey now command
      unguarded' := hTwins.unguarded'.obey now command
      housed := hObeyed.housed hTwins.housed
      housed' := hObeyed'.housed hTwins.housed'
      sequence := ?_
      order := ?_
      book := fun other => ?_ }⟩
  · have hSame := hTwins.sequence
    omega
  · rw [hObeyed'.instrumentOrder, hObeyed.instrumentOrder, hTwins.order]
  · by_cases hOther : other = command.instrument
    · rw [hOther]
      exact hBook
    have hKeep := hTwins.book other
    unfold absBook at hKeep ⊢
    rw [hObeyed'.bookFor_of_ne hOther, hObeyed.bookFor_of_ne hOther]
    exact hKeep

/-- So they do over every run. -/
theorem Twins.run (hTwins : Twins engine engine') (commands : List TimedCommand) :
    engine'.answers commands = engine.answers commands ∧
      Twins (engine.after commands) (engine'.after commands) := by
  induction commands generalizing engine engine' with
  | nil => exact ⟨rfl, hTwins⟩
  | cons entry commands ih =>
    obtain ⟨command, now⟩ := entry
    obtain ⟨hReply, hFills, hNext⟩ := hTwins.obey now command
    obtain ⟨hAnswers, hFinal⟩ := ih hNext
    refine ⟨?_, hFinal⟩
    rw [answers, answers, hReply, hFills, hAnswers]

theorem Twins.digestInput (hTwins : Twins engine engine') :
    engine'.digestInput = engine.digestInput := by
  have hBooks : ∀ id, engine'.bookInput id = engine.bookInput id := by
    intro id
    have hBook := hTwins.book id
    unfold absBook at hBook
    unfold bookInput
    cases hOwn : engine.bookFor id with
    | none =>
      rw [hOwn, Option.map_none, Option.map_eq_none_iff] at hBook
      rw [hBook]
    | some book =>
      rw [hOwn, Option.map_some, Option.map_eq_some_iff] at hBook
      obtain ⟨book', hOwn', hAbs⟩ := hBook
      rw [hOwn']
      exact digestInput_of_abs (hTwins.housed _ _ hOwn).1
        (hTwins.housed' _ _ hOwn').1 hAbs
  rw [MatchingEngine.digestInput, MatchingEngine.digestInput, hTwins.sequence, hTwins.order,
    funext hBooks]

end Twins

/-! ## Commands that tell engines apart -/

section Telling

variable {engine : MatchingEngine J} {id : InstrumentId} {book : OrderBook}

/-- A cancel shows the order it withdraws, whole. -/
theorem cancel_shows (hUnguarded : engine.Unguarded) (hHoused : engine.Housed)
    (hBook : engine.bookFor id = some book) {order : Order} (hMem : order ∈ book.restingOrders) :
    engine.answers [(.cancel { id := order.id, account := order.account, instrument := id }, 0)] =
      [(.cancelled ⟨{ order := order }, engine.sequence + 1⟩, [])] := by
  have hKept := (hHoused id book hBook).1
  have hFind := hKept.mem_restingOrders.mp hMem
  have hCancel : (book.cancel order.id).2 = { order := order } := by
    rw [(hKept.sound.cancel order.id).2.2, Book.cancel, ← hKept.sound.find_eq, hFind]
  have hAllowed : ClientCommand.disowned order.id order.account (engine.bookFor id) = none := by
    rw [hBook]
    simp [ClientCommand.disowned, hFind]
  have hCases := obey_cases hUnguarded 0
    (.cancel { id := order.id, account := order.account, instrument := id })
  rw [answers, answers]
  generalize engine.obey 0
    (.cancel { id := order.id, account := order.account, instrument := id }) = reply at hCases ⊢
  cases hCases with
  | turnedAway engine' reason hReason =>
    have hImpossible := hAllowed.symm.trans hReason
    contradiction
  | carriedOut engine' target outcome hTarget _ hOutcome _ _ _ _ hFills =>
    have hSame : target = book := Option.some.inj (hTarget.symm.trans hBook)
    rw [hFills, ← hOutcome, hSame]
    show [(ClientReply.cancelled ⟨(book.cancel order.id).2, engine.sequence + 1⟩, [])] = _
    rw [hCancel]

/-- A submission to an unguarded engine is one to the abstract book. -/
theorem submit_reaches (hUnguarded : engine.Unguarded) (hHoused : engine.Housed)
    (command : NewOrder) (hBook : engine.bookFor command.instrument = some book)
    (hAccount : command.account.valid = true) (now : Int) :
    ∃ (verdict : Bool) (after : OrderBook),
      (engine.obey now (.submit command)).1.bookFor command.instrument = some after ∧
      after.abs = (book.abs.insert verdict
        (Order.ofCommand command (engine.sequence + 1) now) [] []).book ∧
      (engine.obey now (.submit command)).1.fills = (book.abs.insert verdict
        (Order.ofCommand command (engine.sequence + 1) now) [] []).fills := by
  have hAllowed : (ClientCommand.submit command).refusal (engine.bookFor command.instrument) =
      none := by
    rw [hBook]
    simp [ClientCommand.refusal, hAccount]
  have hCases := obey_cases hUnguarded now (.submit command)
  have hRefines := (hHoused _ _ hBook).1.refines [] []
    (.submit (Order.ofCommand command (engine.sequence + 1) now))
  refine ⟨book.verdict (Order.ofCommand command (engine.sequence + 1) now), ?_⟩
  generalize engine.obey now (.submit command) = reply at hCases ⊢
  cases hCases with
  | turnedAway engine' reason hReason =>
    have hImpossible := hAllowed.symm.trans hReason
    contradiction
  | carriedOut engine' target outcome hTarget _ hOutcome _ _ _ hBooks hFills =>
    obtain rfl : target = book := Option.some.inj (hTarget.symm.trans hBook)
    rw [show target.apply [] [] (.submit (Order.ofCommand command (engine.sequence + 1) now)) =
      outcome from hOutcome] at hRefines
    refine ⟨outcome.book, ?_, hRefines.book, hFills.trans hRefines.fills⟩
    rw [bookFor_of_books hBooks]
    exact if_pos rfl

/-- A day order of a stranger. -/
def probeOrder (id : InstrumentId) (side : Side) (number : Nat) (price : Int) (quantity : Nat) :
    NewOrder :=
  { id := ⟨number⟩
    account := ⟨number⟩
    instrument := id
    side := side
    price := price
    quantity := quantity }

/-- A sale and a purchase by strangers. -/
def probeCommands (id : InstrumentId) (number : Nat) (price : Int) (quantity : Nat) :
    List TimedCommand :=
  [(.submit (probeOrder id .sell number price quantity), 0),
    (.submit (probeOrder id .buy (number + 1) price quantity), 0)]

/-- Two orders of strangers show the next trade id. -/
theorem probe_shows (hUnguarded : engine.Unguarded) (hHoused : engine.Housed)
    (hBook : engine.bookFor id = some book)
    {price : Int} {quantity : Nat} (hTerms : book.instrument.Tradable price quantity)
    {number : Nat} (hPositive : 0 < number) (hBelow : book.Below number) :
    ((engine.answers (probeCommands id number price quantity)).flatMap Prod.snd).head?.map
      Fill.id = some ⟨book.nextTradeId⟩ := by
  obtain ⟨hKept, hId⟩ := hHoused id book hBook
  have hProbes : ∀ (side : Side) (n sequence : Nat), number ≤ n →
      Book.Probes (Order.ofCommand (probeOrder id side n price quantity) sequence 0) book.abs := by
    intro side n sequence hn
    refine ⟨hTerms, hId.symm, rfl, rfl, rfl, rfl, fun resting hResting hSame => ?_,
      fun resting hResting hSame => ?_⟩
    · have hLess := (hBelow resting hResting).1
      have hValue : resting.id.value = n := congrArg Id.value hSame
      omega
    · have hLess := (hBelow resting hResting).2
      have hValue : resting.account.value = n := congrArg Id.value hSame
      omega
  have hAccount : ∀ side n, number ≤ n →
      (probeOrder id side n price quantity).account.valid = true := by
    intro side n hn
    exact bne_iff_ne.mpr (Nat.pos_iff_ne_zero.mp (hPositive.trans_le hn))
  obtain ⟨verdict, after, hAfter, hAbs, hFills⟩ := submit_reaches hUnguarded hHoused
    (probeOrder id .sell number price quantity) hBook (hAccount .sell number le_rfl) 0
  have hObeyed := obey_cases hUnguarded 0 (.submit (probeOrder id .sell number price quantity))
  obtain ⟨verdict', -, -, -, hFills'⟩ := submit_reaches (hUnguarded.obey 0 _)
    (hObeyed.housed hHoused) (probeOrder id .buy (number + 1) price quantity) hAfter
    (hAccount .buy (number + 1) (Nat.le_succ _)) 0
  have hPrint := hKept.valid.probe (hProbes .sell number (engine.sequence + 1) le_rfl)
    (hProbes .buy (number + 1)
      ((engine.obey 0 (.submit (probeOrder id .sell number price quantity))).1.sequence + 1)
      (Nat.le_succ _)) rfl rfl rfl
    (fun hSame => absurd (congrArg Id.value hSame) (Nat.succ_ne_self number).symm)
    (fun hSame => absurd (congrArg Id.value hSame) (Nat.succ_ne_self number).symm)
    verdict verdict'
  rw [probeCommands, answers, answers, answers, flatMap_cons, flatMap_cons,
    flatMap_nil, append_nil]
  dsimp only
  rw [hFills, hFills', hAbs]
  exact hPrint

end Telling

/-! ## Exactly when the digest's input decides the future -/

section Decides

variable {engine engine' : MatchingEngine J}

/-- Every book of a reachable engine is listed, and inert unless it can be traded. -/
theorem Reachable.inert (hReachable : engine.Reachable) :
    engine.EachBook fun book => book.abs.Inert := by
  refine hReachable.eachBook (fun instrument hTick => ?_)
    (fun book hKept hInert fills withdrawals command =>
      hKept.inert_apply hInert fills withdrawals command)
  rw [abs_create hTick]
  exact Book.inert_empty instrument

/-- What the digest leaves out makes twins of engines that agree in what it is fed. -/
theorem twins_of_undigested (hReachable : engine.Reachable) (hReachable' : engine'.Reachable)
    (hUnguarded : engine.Unguarded) (hUnguarded' : engine'.Unguarded)
    (hSame : SameInstruments engine engine') (hSequence : engine.sequence = engine'.sequence)
    (hFed : ∀ id ∈ engine.instrumentOrder, ∀ book book', engine.bookFor id = some book →
      engine'.bookFor id = some book' →
      book.restingOrders.map Order.digested = book'.restingOrders.map Order.digested)
    (hLeft : ∀ id, (engine.bookFor id).map undigested =
      (engine'.bookFor id).map undigested) : Twins engine engine' where
  unguarded := hUnguarded
  unguarded' := hUnguarded'
  housed := hReachable.housed
  housed' := hReachable'.housed
  sequence := hSequence.symm
  order := hSame.order.symm
  book := by
    intro id
    unfold absBook
    rcases hSame.cases id with ⟨hNone, hNone'⟩ | ⟨book, book', hBook, hBook', hInstrument⟩
    · rw [hNone, hNone']
    have hKept := (hReachable.housed id book hBook).1
    have hKept' := (hReachable'.housed id book' hBook').1
    have hLeftBook := hLeft id
    rw [hBook, hBook', Option.map_some, Option.map_some, Option.some.injEq] at hLeftBook
    have hOrders := restingOrders_of_undigested hKept hKept' hInstrument
      (hFed id (hReachable.inert id book hBook).2 book book' hBook hBook') hLeftBook
    rw [hBook, hBook', Option.map_some, Option.map_some,
      hKept.abs_eq hKept' hInstrument hOrders (congrArg Prod.fst hLeftBook)]

variable {id : InstrumentId} {book book' : OrderBook}

/-- Engines that answer alike have the same orders in their books. -/
theorem restingOrders_of_answers (hHoused : engine.Housed) (hHoused' : engine'.Housed)
    (hUnguarded : engine.Unguarded) (hUnguarded' : engine'.Unguarded)
    (hAnswers : ∀ commands, engine.answers commands = engine'.answers commands)
    (hBook : engine.bookFor id = some book) (hBook' : engine'.bookFor id = some book')
    (hFed : book.restingOrders.map Order.digested = book'.restingOrders.map Order.digested) :
    book.restingOrders = book'.restingOrders := by
  have hLength : book.restingOrders.length = book'.restingOrders.length := by
    simpa using congrArg List.length hFed
  refine ext_getElem hLength fun i hi hi' => ?_
  -- The digest pairs the orders up, and one cancel withdraws either of a pair.
  have hFedAt := apply_getElem_of_map hFed hi hi'
  have hId := congrArg Order.id hFedAt
  have hAccount := congrArg Order.account hFedAt
  change book.restingOrders[i].id = book'.restingOrders[i].id at hId
  change book.restingOrders[i].account = book'.restingOrders[i].account at hAccount
  have hShown := cancel_shows hUnguarded hHoused hBook (getElem_mem hi)
  have hShown' := cancel_shows hUnguarded' hHoused' hBook' (getElem_mem hi')
  rw [hAnswers, hId, hAccount, hShown', List.cons.injEq, Prod.mk.injEq] at hShown
  injection hShown.1.1 with hOutcome
  exact (congrArg (fun outcome => outcome.result.order) hOutcome).symm

/-- And the same next trade ids. -/
theorem nextTradeId_of_answers (hReachable : engine.Reachable)
    (hReachable' : engine'.Reachable) (hUnguarded : engine.Unguarded)
    (hUnguarded' : engine'.Unguarded)
    (hAnswers : ∀ commands, engine.answers commands = engine'.answers commands)
    (hBook : engine.bookFor id = some book)
    (hBook' : engine'.bookFor id = some book') (hInstrument : book.instrument = book'.instrument)
    (hOrders : book.restingOrders = book'.restingOrders) :
    book.nextTradeId = book'.nextTradeId := by
  by_cases hTradable : ∃ price quantity, book.instrument.Tradable price quantity
  · obtain ⟨price, quantity, hTerms⟩ := hTradable
    obtain ⟨number, hPositive, hBelow⟩ := book.exists_below
    have hBelow' : book'.Below number := by
      unfold OrderBook.Below at hBelow ⊢
      rw [← hOrders]
      exact hBelow
    have hShown := probe_shows hUnguarded hReachable.housed hBook hTerms hPositive hBelow
    have hShown' := probe_shows hUnguarded' hReachable'.housed hBook' (hInstrument ▸ hTerms)
      hPositive hBelow'
    rw [hAnswers, hShown', Option.some.injEq] at hShown
    exact (congrArg Id.value hShown).symm
  · -- Neither book has ever printed.
    have hNever : ∀ price quantity, ¬ book.instrument.Tradable price quantity :=
      fun price quantity hTerms => hTradable ⟨price, quantity, hTerms⟩
    have hFirst : book.nextTradeId = 1 := ((hReachable.inert id book hBook).1 hNever).2
    have hFirst' : book'.nextTradeId = 1 :=
      ((hReachable'.inert id book' hBook').1 (by
        show ∀ price quantity, ¬ book'.instrument.Tradable price quantity
        rw [← hInstrument]
        exact hNever)).2
    rw [hFirst, hFirst']

/-- For every two reachable engines with the same instruments that feed the digest the
same bytes: every further run of commands gets the same replies and fills and feeds the
same bytes again exactly if, book by book, they also agree in the next trade id and in
the post-only flag and acceptance time of every resting order. -/
theorem digestInput_decides_iff (hReachable : engine.Reachable) (hReachable' : engine'.Reachable)
    (hUnguarded : engine.Unguarded) (hUnguarded' : engine'.Unguarded)
    (hFits : engine.FitsWords) (hFits' : engine'.FitsWords) (hSame : SameInstruments engine engine')
    (hInput : engine.digestInput = engine'.digestInput) :
    (∀ commands, engine.answers commands = engine'.answers commands ∧
        (engine.after commands).digestInput = (engine'.after commands).digestInput) ↔
      ∀ id, (engine.bookFor id).map OrderBook.undigested =
        (engine'.bookFor id).map OrderBook.undigested := by
  obtain ⟨hSequence, hFed⟩ := readBack hReachable.housed hReachable'.housed hFits hFits' hSame
    hInput
  constructor
  · intro hAlike id
    have hAnswers := fun commands => (hAlike commands).1
    rcases hSame.cases id with ⟨hNone, hNone'⟩ | ⟨book, book', hBook, hBook', hInstrument⟩
    · rw [hNone, hNone']
    have hOrders := restingOrders_of_answers hReachable.housed hReachable'.housed hUnguarded
      hUnguarded' hAnswers hBook hBook'
      (hFed id (hReachable.inert id book hBook).2 book book' hBook hBook')
    have hTradeId := nextTradeId_of_answers hReachable hReachable' hUnguarded hUnguarded'
      hAnswers hBook hBook' hInstrument hOrders
    rw [hBook, hBook', Option.map_some, Option.map_some, OrderBook.undigested,
      OrderBook.undigested, hOrders, hTradeId]
  · intro hLeft commands
    obtain ⟨hAnswers, hFinal⟩ := (twins_of_undigested hReachable hReachable' hUnguarded
      hUnguarded' hSame hSequence hFed hLeft).run commands
    exact ⟨hAnswers.symm, hFinal.digestInput.symm⟩

end Decides

/-! ## Two engines the digest cannot tell apart -/

/-- A resting bid, post-only or not. -/
def flaggedBid (postOnly : Bool) : MatchingEngine Empty :=
  ((listing [(sampleListing .allow, 0)]).obey 10 (.submit (sampleNewOrder 1 1 .buy 2 5 postOnly))).1

/-- An offer above the bid, and an amendment of the bid that reaches it. -/
def amendUp : List TimedCommand :=
  [(.submit (sampleNewOrder 2 2 .sell 3 5 false), 11), (.replace (sampleReplace 1 1 3 5), 12)]

theorem ticked_sample : ∀ entry ∈ [(sampleListing .allow, (0 : Int))], 0 < entry.1.tickSize := by
  decide

theorem reachable_flaggedBid (postOnly : Bool) : (flaggedBid postOnly).Reachable := by
  refine ⟨none, none, none, [.addInstrument (sampleListing .allow) 0,
    .submit (sampleNewOrder 1 1 .buy 2 5 postOnly) 10], fun event hEvent => ?_, rfl⟩
  rcases mem_cons.mp hEvent with rfl | hEvent
  · exact ticked_sample _ (mem_singleton.mpr rfl)
  · rw [mem_singleton.mp hEvent]
    trivial

theorem unguarded_flaggedBid (postOnly : Bool) : (flaggedBid postOnly).Unguarded :=
  (untraded_listing ticked_sample).unguarded.obey 10 _

theorem sameInstruments_flaggedBid : SameInstruments (flaggedBid true) (flaggedBid false) := by
  have hHoused := housed_listing (J := Empty) ticked_sample
  have hUnguarded := (untraded_listing (J := Empty) ticked_sample).unguarded
  have hObeyed := fun postOnly =>
    obey_cases hUnguarded 10 (.submit (sampleNewOrder 1 1 .buy 2 5 postOnly))
  refine ⟨(hObeyed true).instrumentOrder.trans (hObeyed false).instrumentOrder.symm, fun id => ?_⟩
  exact ((hObeyed true).findInstrument hHoused id).trans
    ((hObeyed false).findInstrument hHoused id).symm

theorem flaggedBids_decided :
    ((∀ commands, (flaggedBid true).answers commands = (flaggedBid false).answers commands ∧
        ((flaggedBid true).after commands).digestInput =
          ((flaggedBid false).after commands).digestInput) ↔
      ∀ id, ((flaggedBid true).bookFor id).map OrderBook.undigested =
        ((flaggedBid false).bookFor id).map OrderBook.undigested) :=
  digestInput_decides_iff (reachable_flaggedBid true) (reachable_flaggedBid false)
    (unguarded_flaggedBid true) (unguarded_flaggedBid false) (by decide +kernel)
    (by decide +kernel) sameInstruments_flaggedBid (by decide +kernel)

/-- The digest's input does not tell a post-only bid from another, and an amendment
that crosses is refused to one and trades for the other. -/
theorem digestInput_blind_to_postOnly :
    (flaggedBid true).Reachable ∧ (flaggedBid false).Reachable ∧
      (flaggedBid true).Unguarded ∧ (flaggedBid false).Unguarded ∧
      SameInstruments (flaggedBid true) (flaggedBid false) ∧
      (flaggedBid true).digestInput = (flaggedBid false).digestInput ∧
      ((flaggedBid true).answers amendUp).map (List.length ∘ Prod.snd) = [0, 0] ∧
      ((flaggedBid false).answers amendUp).map (List.length ∘ Prod.snd) = [0, 1] ∧
      ((flaggedBid true).after amendUp).digestInput ≠
        ((flaggedBid false).after amendUp).digestInput ∧
      ¬ ∀ commands, (flaggedBid true).answers commands = (flaggedBid false).answers commands ∧
        ((flaggedBid true).after commands).digestInput =
          ((flaggedBid false).after commands).digestInput := by
  have hNone : ((flaggedBid true).answers amendUp).map (List.length ∘ Prod.snd) = [0, 0] := by
    decide +kernel
  have hOne : ((flaggedBid false).answers amendUp).map (List.length ∘ Prod.snd) = [0, 1] := by
    decide +kernel
  refine ⟨reachable_flaggedBid true, reachable_flaggedBid false, unguarded_flaggedBid true,
    unguarded_flaggedBid false, sameInstruments_flaggedBid, by decide +kernel, hNone, hOne,
    by decide +kernel, fun hAlike => ?_⟩
  rw [(hAlike amendUp).1, hOne] at hNone
  contradiction

end MatchingEngine
end ExchangeCore
