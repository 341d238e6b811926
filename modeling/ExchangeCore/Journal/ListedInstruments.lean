import ExchangeCore.Journal.AppendLog
import ExchangeCore.Journal.Canonical

/-!
# Instruments and their records

Registering an instrument offers the journal one record.  The engine asks of a symbol
only that it is not empty, while the record's length field for it has sixteen bits:
exactly the instruments whose symbol that field can measure come back from their record
(`listed_instrument_recovers_iff`).
-/

namespace ExchangeCore

/-- In the range of its fields' types, whatever the length of its symbol. -/
def Instrument.Typed (instrument : Instrument) : Prop :=
  { instrument with symbol := [] }.Fits

/-- The same id, symbol, terms and policy. -/
def Instrument.SameTerms (instrument other : Instrument) : Prop :=
  instrument.id = other.id ∧ instrument.symbol = other.symbol ∧
    instrument.tickSize = other.tickSize ∧ instrument.lotSize = other.lotSize ∧
    instrument.minQuantity = other.minQuantity ∧ instrument.minPrice = other.minPrice ∧
    instrument.maxPrice = other.maxPrice ∧
    instrument.displayExponent = other.displayExponent ∧
    instrument.selfTradePolicy = other.selfTradePolicy

/-- The record decodes to the instrument. -/
def Record.Recovers (record : Record) (instrument : Instrument) : Prop :=
  (decode (encode record)).status = .ok ∧
    (decode (encode record)).record.type = .instrumentDefined ∧
    (decode (encode record)).record.instrument.SameTerms instrument

theorem Record.recovers_of_short (record : Record) (hType : record.type = .instrumentDefined)
    (hSequence : record.sequence < 2 ^ 64) (hTime : SignedWord record.timestamp)
    (hTyped : record.instrument.Typed) (hShort : record.instrument.symbol.length < 2 ^ 16) :
    record.Recovers record.instrument := by
  obtain ⟨hId, -, hRest⟩ := hTyped
  have hPayload : record.PayloadFits := by
    unfold PayloadFits
    rw [hType]
    exact ⟨hTime, hId, hShort, hRest⟩
  have hDecoded := decode_encode ⟨hSequence, hPayload⟩ []
  rw [List.append_nil] at hDecoded
  have hWritten : record.written =
      { type := .instrumentDefined
        sequence := record.sequence
        timestamp := record.timestamp
        instrument := { record.instrument with
          expectedRestingOrders := ({} : Record).instrument.expectedRestingOrders } } := by
    unfold written
    rw [hType]
  unfold Recovers
  rw [hDecoded, hWritten]
  exact ⟨rfl, rfl, rfl, rfl, rfl, rfl, rfl, rfl, rfl, rfl, rfl⟩

/-- No record decodes to an instrument with a symbol that its length field cannot
measure. -/
theorem Record.not_recovers_of_long {instrument : Instrument}
    (hLong : 2 ^ 16 ≤ instrument.symbol.length) (record : Record) :
    ¬ record.Recovers instrument := by
  rintro ⟨hOk, hType, -, hSymbol, -⟩
  obtain ⟨⟨-, hPayload⟩, -⟩ := (decode_plain hOk).1
  -- All that counts of the decoded record is its type and that it fits.
  generalize (decode (encode record)).record = decoded at hType hSymbol hPayload
  unfold PayloadFits at hPayload
  rw [hType] at hPayload
  obtain ⟨-, -, hMeasured, -⟩ := hPayload
  rw [hSymbol] at hMeasured
  omega

namespace MatchingEngine

variable {J : Type} [JournalSink J]

/-- The record of an instrument that is registered. -/
def definition (engine : MatchingEngine (Logged J)) (instrument : Instrument) (now : Int) :
    Record where
  type := .instrumentDefined
  sequence := engine.sequence + 1
  timestamp := now
  instrument := instrument

/-- A registration with a journal has appended its record. -/
theorem journal_addInstrument {engine : MatchingEngine (Logged J)} {log : Logged J}
    (hJournal : engine.journal = some log) {instrument : Instrument} {now : Int}
    (hAdded : (engine.addInstrument instrument now).2 = true) :
    ∃ log', (engine.addInstrument instrument now).1.journal = some log' ∧
      log'.offers = log.offers ++ [⟨engine.definition instrument now, true⟩] := by
  unfold addInstrument at hAdded ⊢
  split at hAdded
  · contradiction
  next hValid =>
  split at hAdded
  · contradiction
  next hFree =>
  rw [if_neg hValid, if_neg hFree]
  dsimp only at hAdded ⊢
  rw [append_fst, append_snd] at hAdded ⊢
  simp only [hJournal, Option.map_some, Option.getD_some] at hAdded ⊢
  -- The journal's answer is what lets the registration go through.
  split at hAdded
  · next hTaken =>
      rw [if_pos hTaken]
      refine ⟨_, rfl, ?_⟩
      have hAnswer : (JournalSink.append log.journal (engine.definition instrument now) now).2 =
          true := hTaken
      show log.offers ++ [(⟨engine.definition instrument now,
        (JournalSink.append log.journal (engine.definition instrument now) now).2⟩ : Offer)] = _
      rw [hAnswer]
  · contradiction

/-- For every instrument that an engine with a journal registers: the record it appended
decodes to the instrument exactly if the symbol is shorter than `2 ^ 16` bytes. -/
theorem listed_instrument_recovers_iff (engine : MatchingEngine (Logged J)) (log : Logged J)
    (hJournal : engine.journal = some log) (hSequence : engine.sequence + 1 < 2 ^ 64)
    (instrument : Instrument) (hTyped : instrument.Typed) (now : Int) (hNow : SignedWord now)
    (hAdded : (engine.addInstrument instrument now).2 = true) :
    ∃ record log', (engine.addInstrument instrument now).1.journal = some log' ∧
      log'.offers = log.offers ++ [⟨record, true⟩] ∧
      (record.Recovers instrument ↔ instrument.symbol.length < 2 ^ 16) := by
  obtain ⟨log', hJournal', hOffers⟩ := journal_addInstrument hJournal hAdded
  refine ⟨engine.definition instrument now, log', hJournal', hOffers, ?_⟩
  constructor
  · intro hRecovers
    by_contra hLong
    exact Record.not_recovers_of_long (not_lt.mp hLong) _ hRecovers
  · intro hShort
    exact Record.recovers_of_short (engine.definition instrument now) rfl hSequence hNow hTyped
      hShort

/-- An engine whose journal takes everything. -/
def recordingEngine : MatchingEngine (Logged Unit) := { journal := some ⟨(), []⟩ }

/-- An instrument with a symbol of so many bytes. -/
def longNamed (length : Nat) : Instrument := { id := ⟨1⟩, symbol := List.replicate length 88 }

theorem listed_instrument_recovers_three :
    (recordingEngine.addInstrument (longNamed 3) 5).2 = true ∧
      ∃ record log', (recordingEngine.addInstrument (longNamed 3) 5).1.journal = some log' ∧
        log'.offers = [⟨record, true⟩] ∧
        (record.Recovers (longNamed 3) ↔ (longNamed 3).symbol.length < 2 ^ 16) := by
  have hAdded : (recordingEngine.addInstrument (longNamed 3) 5).2 = true := by decide
  have hTyped : (longNamed 3).Typed := by
    refine ⟨?_, ?_, ?_, ?_, ?_, ?_, ?_, ?_⟩ <;> decide
  exact ⟨hAdded, listed_instrument_recovers_iff recordingEngine ⟨(), []⟩ rfl (by decide)
    (longNamed 3) hTyped 5 (by decide) hAdded⟩

/-- A symbol of `2 ^ 16` bytes is registered, and its record does not decode to it. -/
theorem long_symbol_lost :
    (recordingEngine.addInstrument (longNamed 65536) 5).2 = true ∧
      ∃ record log', (recordingEngine.addInstrument (longNamed 65536) 5).1.journal = some log' ∧
        log'.offers = [⟨record, true⟩] ∧ ¬ record.Recovers (longNamed 65536) := by
  have hAdded : (recordingEngine.addInstrument (longNamed 65536) 5).2 = true := rfl
  have hJournal : recordingEngine.journal = some ⟨(), []⟩ := rfl
  obtain ⟨log', hJournal', hOffers⟩ := journal_addInstrument hJournal hAdded
  have hLength : (longNamed 65536).symbol.length = 65536 := List.length_replicate
  exact ⟨hAdded, _, log', hJournal', hOffers, Record.not_recovers_of_long (by omega) _⟩

end MatchingEngine
end ExchangeCore
