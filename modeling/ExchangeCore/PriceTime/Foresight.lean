import ExchangeCore.PriceTime.Fillable
import ExchangeCore.PriceTime.Trail

/-!
# What a book is about to do

Whether a book takes an order in, trades with it, or loses an order that is being
amended is decided by the queues as they stand before the command.  The predicates
of this module read that off the book, and the theorems say that the operations
agree with them.
-/

namespace ExchangeCore
namespace PriceTime
namespace Book

/-- The instrument allows an order on these terms. -/
def AllowsTerms (book : Book) (newPrice : Int) (newQuantity : Nat) : Prop :=
  book.instrument.isValidPrice newPrice = true ∧ book.instrument.isValidQuantity newQuantity = true

instance (book : Book) (newPrice : Int) (newQuantity : Nat) :
    Decidable (book.AllowsTerms newPrice newQuantity) :=
  inferInstanceAs (Decidable (_ ∧ _))

section

variable (book : Book) (previous : Order) (newPrice : Int) (newQuantity : Nat)

/-- Amending the order to these terms sends it back to the tail of its queue: it is
neither used up by what it has traded nor shrunk where it stands. -/
def Requeues : Prop :=
  book.AllowsTerms newPrice newQuantity ∧ previous.filled < newQuantity ∧
    ¬ (newPrice = previous.price ∧ newQuantity < previous.quantity)

instance : Decidable (book.Requeues previous newPrice newQuantity) :=
  inferInstanceAs (Decidable (_ ∧ _))

/-- Amending the order takes it off its queue and does not put it back: it is
post-only and would cross at the new price. -/
def Forfeits : Prop :=
  book.Requeues previous newPrice newQuantity ∧ previous.postOnly = true ∧
    book.wouldCross { previous with price := newPrice } = true

instance : Decidable (book.Forfeits previous newPrice newQuantity) :=
  inferInstanceAs (Decidable (_ ∧ _))

/-- Amending the order makes it trade: what comes back finds something to fill. -/
def TradesAmended : Prop :=
  book.Requeues previous newPrice newQuantity ∧ previous.postOnly = false ∧
    0 < book.fillableQuantity
      { previous with price := newPrice, remaining := newQuantity - previous.filled }

instance : Decidable (book.TradesAmended previous newPrice newQuantity) :=
  inferInstanceAs (Decidable (_ ∧ _))

end

/-! ## Inserting -/

section Inserting

variable {book : Book} {fillable : Bool} {order : Order}

theorem reject_insert_iff : (book.insert fillable order [] []).result.reject = .none ↔
    book.Accepts fillable order := by
  have hCases := insert_cases book fillable order [] []
  generalize book.insert fillable order [] [] = outcome at hCases ⊢
  cases hCases with
  | refused reason hReason hWhy =>
    refine iff_of_false hReason ?_
    rintro ⟨hValidated, hPost, hFill⟩
    rcases hWhy with rfl | ⟨-, hPostOnly, hCross⟩ | ⟨-, hKill, hVerdict⟩
    · exact hReason hValidated
    · rw [hPost hPostOnly] at hCross
      contradiction
    · rw [hFill hKill] at hVerdict
      contradiction
  | entered m rested _ hAccepts => exact iff_of_true rfl hAccepts

/-- An order that is refused changes and prints nothing. -/
theorem insert_of_refused {outcome : Outcome Book SubmitResult}
    (hOutcome : book.insert fillable order [] [] = outcome)
    (hRefused : outcome.result.reject ≠ .none) : outcome.book = book ∧ outcome.fills = [] := by
  cases insertion_of_eq hOutcome with
  | refused => exact ⟨rfl, rfl⟩
  | entered => exact absurd rfl hRefused

/-- A match prints nothing exactly when there is nothing to fill. -/
theorem Valid.fills_match_iff (hValid : book.Valid) {m : Matching}
    (hMatch : (book.arrival order [] []).finish book.instrument = m) :
    m.fills = [] ↔ book.fillableQuantity order = 0 := by
  obtain ⟨hSum, -, hPrinted, -⟩ := hValid.match_ledger hMatch
  have hFilled := filledBy_eq book order [] []
  rw [hMatch, filledBy] at hFilled
  rw [← Fill.total_eq_zero_iff fun fill hFill => (hPrinted fill hFill).pos, ← hFilled]
  omega

theorem Valid.fills_insert_iff (hValid : book.Valid) (hAccepts : book.Accepts fillable order) :
    (book.insert fillable order [] []).fills = [] ↔ book.fillableQuantity order = 0 := by
  have hAccepted := reject_insert_iff.mpr hAccepts
  have hCases := insert_cases book fillable order [] []
  generalize book.insert fillable order [] [] = outcome at hCases hAccepted ⊢
  cases hCases with
  | refused reason hReason => exact absurd hAccepted hReason
  | entered m rested hMatch => exact hValid.fills_match_iff hMatch

end Inserting

/-! ## Amending -/

section Amending

variable {book : Book} {id : OrderId} {previous : Order} {newPrice : Int}
  {newQuantity newSequence : Nat} {now : Int}

/-- The order that comes back meets the same opposite queue. -/
theorem wouldCross_amended :
    (book.remove previous).wouldCross (amended previous newPrice newQuantity newSequence now) =
      book.wouldCross { previous with price := newPrice } := by
  have hQueue : (book.remove previous).queue previous.side.opposite =
      book.queue previous.side.opposite := queue_setQueue_opposite _ _ _
  unfold wouldCross
  dsimp only [amended]
  rw [hQueue]
  rfl

theorem fillableQuantity_amended :
    (book.remove previous).fillableQuantity
        (amended previous newPrice newQuantity newSequence now) =
      book.fillableQuantity
        { previous with price := newPrice, remaining := newQuantity - previous.filled } := by
  have hQueue : (book.remove previous).queue previous.side.opposite =
      book.queue previous.side.opposite := queue_setQueue_opposite _ _ _
  unfold fillableQuantity preventionActive
  rw [instrument_remove]
  dsimp only [amended]
  rw [hQueue]
  rfl

/-- The order that comes back is accepted unless it is post-only and would cross. -/
theorem Valid.accepts_amended_iff (hValid : book.Valid) (hFind : book.find id = some previous)
    (hTerms : book.AllowsTerms newPrice newQuantity) (newSequence : Nat) (now : Int) :
    (book.remove previous).Accepts true (amended previous newPrice newQuantity newSequence now) ↔
      (previous.postOnly = true → book.wouldCross { previous with price := newPrice } = false) := by
  have hValidated := hValid.validate_amended hFind hTerms.1 hTerms.2 newSequence now
  unfold Accepts
  rw [wouldCross_amended]
  exact ⟨fun h => h.2.1, fun h => ⟨hValidated, h, fun _ => rfl⟩⟩

variable {outcome : Outcome Book ReplaceResult}

/-- What an amendment is answered, and whether it prints, read off the book. -/
theorem Valid.replace_foreseen (hValid : book.Valid) (hFind : book.find id = some previous)
    (hOutcome : book.replace id newPrice newQuantity newSequence now [] [] = outcome) :
    (outcome.result.reject = .postOnlyWouldCross ↔
        book.Forfeits previous newPrice newQuantity) ∧
      (outcome.result.reject = .none ↔ book.AllowsTerms newPrice newQuantity ∧
        ¬ book.Forfeits previous newPrice newQuantity) ∧
      (outcome.fills = [] ↔ ¬ book.TradesAmended previous newPrice newQuantity) := by
  cases replacement_of_eq hOutcome with
  | unknown hNone =>
    rw [hNone] at hFind
    contradiction
  | refused other reason hOther hReason =>
    have hTerms : ¬ book.AllowsTerms newPrice newQuantity := by
      rintro ⟨hPrice, hQuantity⟩
      rcases hReason with ⟨-, hBad⟩ | ⟨-, -, hBad⟩
      · rw [hPrice] at hBad
        contradiction
      · rw [hQuantity] at hBad
        contradiction
    have hNeither : reason ≠ .postOnlyWouldCross ∧ reason ≠ .none := by
      rcases hReason with ⟨rfl, -⟩ | ⟨rfl, -⟩ <;> decide
    exact ⟨iff_of_false hNeither.1 fun h => hTerms h.1.1,
      iff_of_false hNeither.2 fun h => hTerms h.1, iff_of_true rfl fun h => hTerms h.1.1⟩
  | closed other hOther hPrice hQuantity hFilled =>
    cases hFind.symm.trans hOther
    have hStays : ¬ book.Requeues previous newPrice newQuantity :=
      fun h => absurd h.2.1 (Nat.not_lt.mpr hFilled)
    exact ⟨iff_of_false nofun fun h => hStays h.1,
      iff_of_true rfl ⟨⟨hPrice, hQuantity⟩, fun h => hStays h.1⟩,
      iff_of_true rfl fun h => hStays h.1⟩
  | inPlace other hOther hPrice hQuantity _ hShrinks =>
    cases hFind.symm.trans hOther
    have hStays : ¬ book.Requeues previous newPrice newQuantity := fun h => h.2.2 hShrinks
    exact ⟨iff_of_false nofun fun h => hStays h.1,
      iff_of_true rfl ⟨⟨hPrice, hQuantity⟩, fun h => hStays h.1⟩,
      iff_of_true rfl fun h => hStays h.1⟩
  | requeued other hOther hPrice hQuantity hMore hMoves inserted hInserted =>
    cases hFind.symm.trans hOther
    have hTerms : book.AllowsTerms newPrice newQuantity := ⟨hPrice, hQuantity⟩
    have hRequeues : book.Requeues previous newPrice newQuantity :=
      ⟨hTerms, Nat.lt_of_not_le hMore, hMoves⟩
    have hAccepts := hValid.accepts_amended_iff hFind hTerms newSequence now
    dsimp only
    by_cases hAccepted : inserted.result.reject = .none
    · rw [hInserted, reject_insert_iff] at hAccepted
      have hClear := hAccepts.mp hAccepted
      have hKept : ¬ book.Forfeits previous newPrice newQuantity := by
        rintro ⟨-, hPost, hCross⟩
        rw [hClear hPost] at hCross
        contradiction
      have hFills := (hValid.remove previous).fills_insert_iff hAccepted
      rw [fillableQuantity_amended, ← hInserted] at hFills
      rw [← reject_insert_iff, ← hInserted] at hAccepted
      rw [hAccepted]
      refine ⟨iff_of_false nofun hKept, iff_of_true rfl ⟨hTerms, hKept⟩, ?_⟩
      rw [hFills]
      constructor
      · rintro hNothing ⟨-, -, hSome⟩
        omega
      · intro hQuiet
        by_contra hSome
        -- A post-only order that was taken in crosses nobody.
        cases hPost : previous.postOnly with
        | false => exact hQuiet ⟨hRequeues, hPost, Nat.pos_of_ne_zero hSome⟩
        | true => exact hSome (hFills.mp (insert_postOnly hInserted.symm hPost).1)
    · obtain ⟨rfl, hPost, hCross⟩ :=
        hValid.insert_amended hFind hPrice hQuantity hInserted.symm hAccepted
      rw [wouldCross_amended] at hCross
      have hForfeits : book.Forfeits previous newPrice newQuantity :=
        ⟨hRequeues, hPost, hCross⟩
      refine ⟨iff_of_true rfl hForfeits, iff_of_false nofun fun h => h.2 hForfeits,
        iff_of_true rfl ?_⟩
      rintro ⟨-, hNot, -⟩
      rw [hPost] at hNot
      contradiction

/-- What rests away from where it stood was sent back to the tail. -/
theorem requeues_of_moved (hFind : book.find id = some previous)
    (hOutcome : book.replace id newPrice newQuantity newSequence now [] [] = outcome)
    (hRested : outcome.result.rested = true) (hMoved : outcome.result.priorityRetained = false) :
    book.Requeues previous newPrice newQuantity := by
  cases replacement_of_eq hOutcome with
  | unknown => cases hRested
  | refused => cases hRested
  | closed => cases hRested
  | inPlace => cases hMoved
  | requeued other hOther hPrice hQuantity hMore hMoves =>
    cases hFind.symm.trans hOther
    exact ⟨⟨hPrice, hQuantity⟩, Nat.lt_of_not_le hMore, hMoves⟩

end Amending

end Book
end PriceTime
end ExchangeCore
