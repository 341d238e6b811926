import ExchangeCore.Journal.RoundTrip

/-!
# The record format is canonical

`decode_encode` and `decode_cut` say what becomes of bytes that were written.
Here are bytes of any origin: if they decode, they begin with the encoding of the
record that comes out (`exists_encode_of_decode`).  So a record has one encoding,
and nothing else is taken for it.
-/

namespace ExchangeCore

open StickyParser

section Written

variable (record : Record)

@[simp] theorem Record.type_written : record.written.type = record.type := by
  unfold Record.written
  cases record.type <;> rfl

@[simp] theorem Record.sequence_written : record.written.sequence = record.sequence := by
  unfold Record.written
  cases record.type <;> rfl

/-- What is left out of a record does not reach its payload. -/
@[simp] theorem encodePayload_written : encodePayload record.written = encodePayload record := by
  obtain ⟨type, sequence, timestamp, instrument, newOrder, cancelOrder, replaceOrder⟩ := record
  cases type <;> rfl

@[simp] theorem encode_written : encode record.written = encode record := by
  simp only [encode, covered, encodePayload_written, Record.sequence_written, Record.type_written]

@[simp] theorem Record.written_written : record.written.written = record.written := by
  obtain ⟨type, sequence, timestamp, instrument, newOrder, cancelOrder, replaceOrder⟩ := record
  cases type <;> rfl

theorem Record.Fits.written {record : Record} (hFits : record.Fits) : record.written.Fits := by
  obtain ⟨type, sequence, timestamp, instrument, newOrder, cancelOrder, replaceOrder⟩ := record
  cases type <;> exact hFits

/-- The record holds nothing but what is written of it. -/
def Record.Plain (record : Record) : Prop := record.Fits ∧ record.written = record

theorem map_written_of_plain {records : List Record} (hPlain : ∀ record ∈ records, record.Plain) :
    records.map Record.written = records :=
  (List.map_congr_left fun record hRecord => (hPlain record hRecord).2).trans (List.map_id records)

end Written

variable {data : List UInt8}

/-- Whatever decodes begins with the encoding of a record, which comes out as far as
it was written. -/
theorem exists_encode_of_decode (hOk : (decode data).status = .ok) :
    ∃ record rest, record.Fits ∧ data = encode record ++ rest := by
  by_cases hShort : data.length < RecordHeader.kSize
  · rw [decode, if_pos hShort] at hOk
    cases hOk
  obtain ⟨header, body, hFits, rfl⟩ := exists_header hShort
  rw [decode_bytes hFits] at hOk
  split at hOk
  · cases hOk
  next type hKnown =>
  split at hOk
  · cases hOk
  next hAccepted =>
  split at hOk
  · cases hOk
  next hLong =>
  split at hOk
  · cases hOk
  next hChecksum =>
  simp only [Bool.or_eq_true, decide_eq_true_eq, not_or, not_not, ne_eq] at hAccepted hChecksum
  obtain ⟨⟨hVersion, hReserved⟩, -⟩ := hAccepted
  -- The payload is used up, so it is the payload of a record.
  have hUnderstood : (decodePayload type (body.take header.payloadLength)
      { type := type, sequence := header.sequence }).2 = true := by
    by_contra hNot
    rw [Bool.not_eq_true] at hNot
    simp only [hNot, Bool.not_false, if_true] at hOk
    cases hOk
  obtain ⟨record, rfl, hSequence, hPayloadFits, -, hPayload⟩ : ∃ record, ReadAs type _ record _ :=
    ⟨_, ((parses_payload type header.sequence).fullyConsumed_iff _).mp hUnderstood⟩
  -- Its header says what the header of that record would say.
  have hLength : (encodePayload record).length = header.payloadLength := by
    rw [← hPayload, List.length_take]
    omega
  have hSame : encodedHeader record = header := by
    have hCovered : (encodedHeader record).coveredBytes = header.coveredBytes := by
      simp only [HeaderFields.coveredBytes, encodedHeader, hSequence, hVersion, hReserved,
        RecordType.code_of_ofCode hKnown]
    have hCrc : (crc32c (covered record) 0#32).toNat = header.checksum := by
      rw [covered_eq, hCovered, ← hPayload]
      exact hChecksum
    obtain ⟨payloadLength, checksum, sequence, code, version, reserved⟩ := header
    simp only [encodedHeader, HeaderFields.mk.injEq]
    exact ⟨hLength, hCrc, hSequence, (RecordType.code_of_ofCode hKnown).symm, hVersion.symm,
      hReserved.symm⟩
  refine ⟨record, body.drop header.payloadLength, ⟨?_, hPayloadFits⟩, ?_⟩
  · rw [hSequence]
    exact hFits.2.2.1
  · rw [encode_eq, hSame, ← hPayload, List.append_assoc, List.take_append_drop]

/-- A decoded record is plain, and what was used of the bytes is its encoding. -/
theorem decode_plain (hOk : (decode data).status = .ok) :
    (decode data).record.Plain ∧
      (decode data).consumed = (encode (decode data).record).length ∧
      data = encode (decode data).record ++ data.drop (decode data).consumed := by
  obtain ⟨record, rest, hFits, rfl⟩ := exists_encode_of_decode hOk
  rw [decode_encode hFits]
  dsimp only
  rw [encode_written, List.drop_left]
  exact ⟨⟨hFits.written, record.written_written⟩, rfl, rfl⟩

/-- Encoding and decoding are inverse to each other.  A record followed by anything
comes back as far as it is written; cut short it is incomplete; and bytes that
decode are, as far as they are used, the encoding of what comes out. -/
theorem codec_bijective (record : Record) (hFits : record.Fits) :
    (∀ rest, decode (encode record ++ rest) =
      { status := .ok, consumed := (encode record).length, record := record.written }) ∧
    (∀ part, part <+: encode record → part ≠ encode record → (decode part).status = .incomplete) ∧
    ∀ data, (decode data).status = .ok → (decode data).consumed ≤ data.length ∧
        encode (decode data).record = data.take (decode data).consumed := by
  refine ⟨decode_encode hFits, ?_, ?_⟩
  · rintro part ⟨missing, hMissing⟩ hPart
    refine decode_cut hFits ?_ hMissing.symm
    rintro rfl
    exact hPart (by rw [← hMissing, List.append_nil])
  · intro data hOk
    obtain ⟨found, rest, hFound, hData⟩ := exists_encode_of_decode hOk
    rw [hData, decode_encode hFound]
    dsimp only
    rw [List.take_left, encode_written, List.length_append]
    exact ⟨Nat.le_add_right _ _, rfl⟩

/-- A listing with a one-letter symbol. -/
def sampleDefinition : Record where
  type := .instrumentDefined
  sequence := 7
  timestamp := -1
  instrument := { id := ⟨3⟩, symbol := [88], selfTradePolicy := .decrementBoth }

theorem codec_bijective_definition :
    sampleDefinition.Fits ∧
      decode (encode sampleDefinition ++ [1, 2]) =
        { status := .ok
          consumed := (encode sampleDefinition).length
          record := sampleDefinition } ∧
      (decode ((encode sampleDefinition).take 40)).status = .incomplete := by
  have hFits : sampleDefinition.Fits := by decide
  obtain ⟨hWhole, hCut, -⟩ := codec_bijective sampleDefinition hFits
  refine ⟨hFits, hWhole [1, 2], hCut _ (List.take_prefix _ _) fun hSame => ?_⟩
  have hLength := congrArg List.length hSame
  rw [List.length_take, length_encode] at hLength
  revert hLength
  decide

end ExchangeCore
