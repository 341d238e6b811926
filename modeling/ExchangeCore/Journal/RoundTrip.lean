import ExchangeCore.Journal.RecordCodec
import ExchangeCore.Protocol.WireCodec

/-!
# Records survive the journal's format

Reading a payload inverts writing one (`parses_payload`), for every type of
record, as long as its fields are in the range of their types and a symbol is at
most 65535 bytes long.  So a record that is followed by anything at all decodes
to what was written of it (`decode_encode`).

`decode_bytes` says what decoding does once the header is read, for whatever
header and body; the damage results start from it.
-/

namespace ExchangeCore

open ByteWriter List HeaderFields RecordHeader

/-! ## What fits the format -/

def Instrument.Fits (instrument : Instrument) : Prop :=
  instrument.id.value < 2 ^ 64 ∧ instrument.symbol.length < 2 ^ 16 ∧
    SignedWord instrument.tickSize ∧ instrument.lotSize < 2 ^ 64 ∧
    instrument.minQuantity < 2 ^ 64 ∧ SignedWord instrument.minPrice ∧
    SignedWord instrument.maxPrice ∧ instrument.displayExponent < 2 ^ 8

namespace Record

/-- The part of a record that counts is in the range of its fields' types, and a
symbol is no longer than its length field can say. -/
def PayloadFits (record : Record) : Prop :=
  SignedWord record.timestamp ∧
    match record.type with
    | .instrumentDefined => record.instrument.Fits
    | .newOrder => record.newOrder.Fits
    | .cancelOrder => record.cancelOrder.Fits
    | .replaceOrder => record.replaceOrder.Fits

def Fits (record : Record) : Prop := record.sequence < 2 ^ 64 ∧ record.PayloadFits

instance : DecidablePred Fits := fun record => by
  unfold Fits PayloadFits Instrument.Fits NewOrder.Fits CancelOrder.Fits ReplaceOrder.Fits
  cases record.type <;> infer_instance

/-- What is written of a record. -/
def written (record : Record) : Record :=
  let blank : Record :=
    { type := record.type, sequence := record.sequence, timestamp := record.timestamp }
  match record.type with
  | .instrumentDefined =>
    { blank with instrument := { record.instrument with
        expectedRestingOrders := blank.instrument.expectedRestingOrders } }
  | .newOrder => { blank with newOrder := record.newOrder }
  | .cancelOrder => { blank with cancelOrder := record.cancelOrder }
  | .replaceOrder => { blank with replaceOrder := record.replaceOrder }

end Record

/-! ## Reading a payload -/

open StickyParser ByteReader

/-- The record holds nothing but a payload of its type, and this is the payload. -/
def ReadAs (type : RecordType) (sequence : Nat) (record : Record) (used : List UInt8) : Prop :=
  record.type = type ∧ record.sequence = sequence ∧ record.PayloadFits ∧
    record.written = record ∧ used = encodePayload record

/-- What is written of a record is read as such. -/
theorem readAs_written {record : Record} (hFits : record.PayloadFits) :
    ReadAs record.type record.sequence record.written (encodePayload record) := by
  obtain ⟨type⟩ := record
  cases type <;> exact ⟨rfl, rfl, hFits, rfl, rfl⟩

/-- A command is stored as it is sent, behind a timestamp. -/
theorem parses_stamped {α : Type} {read : ByteReader α} {Fits : α → Prop} {write : α → List UInt8}
    (hRead : Parses read fun command used => Fits command ∧ used = write command)
    {type : RecordType} {sequence : Nat} (build : Int → α → Record) (part : Record → α)
    (hBuild : ∀ timestamp command, (build timestamp command).type = type ∧
      (build timestamp command).sequence = sequence ∧
      (build timestamp command).timestamp = timestamp ∧ part (build timestamp command) = command)
    (hPart : ∀ record : Record, record.type = type → record.sequence = sequence →
      (record.PayloadFits ↔ SignedWord record.timestamp ∧ Fits (part record)) ∧
        record.written = build record.timestamp (part record) ∧
        encodePayload record = i64 record.timestamp ++ write (part record)) :
    Parses (do let timestamp ← i64; let command ← read; return build timestamp command)
      (ReadAs type sequence) := by
  refine (parses_i64.bind fun timestamp => hRead.bind fun command => Parses.pure _).congr
    fun result used => ?_
  constructor
  · rintro ⟨timestamp, _, _, ⟨hTimestamp, rfl⟩, hNext, rfl⟩
    obtain ⟨command, _, _, ⟨hCommand, rfl⟩, ⟨rfl, rfl⟩, rfl⟩ := hNext
    obtain ⟨hType, hSequence, hStamp, hCommandIs⟩ := hBuild timestamp command
    obtain ⟨hFits, hWritten, hBytes⟩ := hPart _ hType hSequence
    rw [hStamp, hCommandIs] at hFits hWritten hBytes
    rw [append_nil, ← hBytes]
    exact ⟨hType, hSequence, hFits.mpr ⟨hTimestamp, hCommand⟩, hWritten, rfl⟩
  · rintro ⟨hType, hSequence, hFits, hPlain, rfl⟩
    obtain ⟨hFitsIff, hWritten, hBytes⟩ := hPart result hType hSequence
    obtain ⟨hTimestamp, hCommand⟩ := hFitsIff.mp hFits
    rw [hBytes, ← append_nil (write (part result))]
    exact .intro ⟨hTimestamp, rfl⟩ (.intro ⟨hCommand, rfl⟩ ⟨hPlain.symm.trans hWritten, rfl⟩)

variable (type : RecordType) (sequence : Nat)

theorem parses_cancelOrder :
    Parses (readPayload .cancelOrder { type := .cancelOrder, sequence := sequence })
      (ReadAs .cancelOrder sequence) := by
  refine parses_stamped Protocol.parses_cancel (fun timestamp command =>
    { type := .cancelOrder, sequence := sequence, timestamp := timestamp, cancelOrder := command })
    Record.cancelOrder (fun _ _ => ⟨rfl, rfl, rfl, rfl⟩) ?_
  rintro ⟨⟩ rfl rfl
  refine ⟨Iff.rfl, rfl, ?_⟩
  simp only [encodePayload, Protocol.writeCancel, append_assoc]

theorem parses_replaceOrder :
    Parses (readPayload .replaceOrder { type := .replaceOrder, sequence := sequence })
      (ReadAs .replaceOrder sequence) := by
  refine parses_stamped Protocol.parses_replace (fun timestamp command =>
      { type := .replaceOrder
        sequence := sequence
        timestamp := timestamp
        replaceOrder := command })
    Record.replaceOrder (fun _ _ => ⟨rfl, rfl, rfl, rfl⟩) ?_
  rintro ⟨⟩ rfl rfl
  refine ⟨Iff.rfl, rfl, ?_⟩
  simp only [encodePayload, Protocol.writeReplace, append_assoc]

theorem parses_newOrder :
    Parses (readPayload .newOrder { type := .newOrder, sequence := sequence })
      (ReadAs .newOrder sequence) := by
  have hParses := parses_stamped Protocol.parses_newOrder (fun timestamp command =>
    { type := .newOrder, sequence := sequence, timestamp := timestamp, newOrder := command })
    Record.newOrder (fun _ _ => ⟨rfl, rfl, rfl, rfl⟩) ?_
  · simp only [Protocol.readNewOrder, bind_assoc, pure_bind] at hParses
    exact hParses
  rintro ⟨⟩ rfl rfl
  refine ⟨Iff.rfl, rfl, ?_⟩
  simp only [encodePayload, Protocol.writeNewOrder, append_assoc]

/-- Read field by field: the record holds nothing else, and its exponent is a byte. -/
theorem parses_instrumentDefined :
    Parses (readPayload .instrumentDefined { type := .instrumentDefined, sequence := sequence })
      (ReadAs .instrumentDefined sequence) := by
  refine (parses_i64.field (K := fun record => record.written = record ∧
      record.type = .instrumentDefined ∧ record.sequence = sequence ∧
      record.instrument.displayExponent < 2 ^ 8) Record.timestamp fun timestamp =>
    parses_u64.field (Record.instrument · |>.id.value) fun id =>
    parses_string.field (Record.instrument · |>.symbol) fun symbol =>
    parses_i64.field (Record.instrument · |>.tickSize) fun tickSize =>
    parses_u64.field (Record.instrument · |>.lotSize) fun lotSize =>
    parses_u64.field (Record.instrument · |>.minQuantity) fun minQuantity =>
    parses_i64.field (Record.instrument · |>.minPrice) fun minPrice =>
    parses_i64.field (Record.instrument · |>.maxPrice) fun maxPrice =>
    parses_u8.anyField (UInt8.ofNat <| Record.instrument · |>.displayExponent) fun exponent =>
    (parses_enumeration SelfTradePolicy).anyField (Record.instrument · |>.selfTradePolicy)
      fun policy => Parses.done fun record => ?_).congr fun record used => ?_
  · constructor
    · rintro ⟨⟨⟨⟨⟨⟨⟨⟨⟨⟨⟨hPlain, hType, hSequence, hExponent⟩, rfl⟩, rfl⟩, rfl⟩, rfl⟩, rfl⟩, rfl⟩,
        rfl⟩, rfl⟩, rfl⟩, rfl⟩
      have hByte : (UInt8.ofNat record.instrument.displayExponent).toNat =
          record.instrument.displayExponent := by
        rw [UInt8.toNat_ofNat']
        exact Nat.mod_eq_of_lt hExponent
      rw [hByte]
      obtain ⟨⟩ := record
      obtain rfl := hType
      obtain rfl := hSequence
      exact hPlain.symm
    · rintro rfl
      simp [Record.written, exponent.toNat_lt]
  · obtain ⟨type⟩ := record
    cases type with
    | instrumentDefined =>
      simp only [ReadAs, Record.PayloadFits, Instrument.Fits, encodePayload, append_assoc,
        append_nil]
      tauto
    | _ => simp [ReadAs]

/-- `readPayload` reads exactly the payloads that are written. -/
theorem parses_payload :
    Parses (readPayload type { type := type, sequence := sequence }) (ReadAs type sequence) := by
  cases type with
  | instrumentDefined => exact parses_instrumentDefined sequence
  | newOrder => exact parses_newOrder sequence
  | cancelOrder => exact parses_cancelOrder sequence
  | replaceOrder => exact parses_replaceOrder sequence

/-! ## Reading a record -/

namespace HeaderFields

variable (header : HeaderFields)

/-- The part of the header that the checksum covers. -/
def coveredBytes : List UInt8 :=
  u64 header.sequence ++ (u8 header.type ++
    (u8 header.version ++ u16 header.reserved))

def bytes : List UInt8 :=
  u32 header.payloadLength ++ (u32 header.checksum ++ header.coveredBytes)

def Fits : Prop :=
  header.payloadLength < 2 ^ 32 ∧ header.checksum < 2 ^ 32 ∧ header.sequence < 2 ^ 64 ∧
    header.reserved < 2 ^ 16

@[simp] theorem length_coveredBytes : header.coveredBytes.length = 12 := by
  simp [coveredBytes, ByteWriter.u64, ByteWriter.u16, ByteWriter.u8]

@[simp] theorem length_bytes : header.bytes.length = RecordHeader.kSize := by
  simp [bytes, ByteWriter.u32, RecordHeader.kSize]

end HeaderFields

theorem parses_header :
    Parses readHeader (fun header used => header.Fits ∧ used = header.bytes) := by
  refine (parses_u32.field (K := fun _ => True) payloadLength fun payloadLength =>
    parses_u32.field checksum fun checksum =>
    parses_u64.field sequence fun sequence =>
    parses_u8.anyField type fun type =>
    parses_u8.anyField version fun version =>
    parses_u16.field reserved fun reserved => Parses.done fun header => ?_).congr
      fun header used => ?_
  · obtain ⟨_⟩ := header
    simp [and_assoc]
  · simp [HeaderFields.Fits, bytes, coveredBytes]

/-- Any twelve bytes can stand where the covered part of a header stands. -/
theorem exists_coveredBytes (payloadLength checksum : Nat) {bytes : List UInt8}
    (hLength : bytes.length = 12) :
    ∃ header : HeaderFields, header.payloadLength = payloadLength ∧
      header.checksum = checksum ∧ header.sequence < 2 ^ 64 ∧ header.reserved < 2 ^ 16 ∧
      header.coveredBytes = bytes := by
  obtain ⟨sequence, hSequence, hFirst⟩ := ByteWriter.exists_eq_put (bytes.take 8)
  obtain ⟨reserved, hReserved, hLast⟩ := ByteWriter.exists_eq_put (bytes.drop 10)
  have hEight : (bytes.take 8).length = 8 := by rw [List.length_take]; omega
  have hTwo : (bytes.drop 10).length = 2 := by rw [List.length_drop]; omega
  rw [hEight] at hSequence hFirst
  rw [hTwo] at hReserved hLast
  refine ⟨⟨payloadLength, checksum, sequence, bytes.get ⟨8, by omega⟩, bytes.get ⟨9, by omega⟩,
    reserved⟩, rfl, rfl, hSequence, hReserved, ?_⟩
  have hMiddle : bytes.drop 8 =
      bytes.get ⟨8, by omega⟩ :: bytes.get ⟨9, by omega⟩ :: bytes.drop 10 := by
    rw [List.drop_eq_getElem_cons (by omega), List.drop_eq_getElem_cons (by omega)]
    rfl
  calc ByteWriter.u64 sequence ++ (ByteWriter.u8 _ ++ (ByteWriter.u8 _ ++ ByteWriter.u16 reserved))
      = bytes.take 8 ++ (bytes.get ⟨8, by omega⟩ :: bytes.get ⟨9, by omega⟩ :: bytes.drop 10) := by
        rw [hFirst, hLast]
        rfl
    _ = bytes := by rw [← hMiddle, List.take_append_drop]

/-- Twenty bytes or more begin with a header. -/
theorem exists_header {data : List UInt8} (hLong : ¬ data.length < kSize) :
    ∃ (header : HeaderFields) (body : List UInt8), header.Fits ∧ header.bytes ++ body = data := by
  have hTakes : Takes readHeader kSize :=
    (takes_take 4).bind fun _ => (takes_take 4).bind fun _ => (takes_take 8).bind fun _ =>
      takes_u8.bind fun _ => takes_u8.bind fun _ => (takes_take 2).bind fun _ => takes_pure _
  obtain ⟨header, _, body, ⟨hFits, rfl⟩, hData⟩ :=
    hTakes.exists_value parses_header (Nat.le_of_not_lt hLong)
  exact ⟨header, body, hFits, hData⟩

/-- Decoding, once the header has been read. -/
theorem decode_bytes {header : HeaderFields} (hFits : header.Fits) (body : List UInt8) :
    decode (header.bytes ++ body) =
      match RecordType.ofCode header.type with
      | none => { status := .unreadable }
      | some type =>
        if header.version ≠ kRecordVersion || header.reserved ≠ 0 ||
            decide (header.payloadLength > RecordHeader.kMaxPayload) then
          { status := .unreadable }
        else if body.length < header.payloadLength then
          { status := .incomplete }
        else if (crc32c (header.coveredBytes ++ body.take header.payloadLength) 0#32).toNat ≠
            header.checksum then
          { status := .corrupt }
        else
          let (record, understood) := decodePayload type (body.take header.payloadLength)
            { type := type, sequence := header.sequence }
          if !understood then { status := .unreadable, record := record }
          else
            { status := .ok
              consumed := RecordHeader.kSize + header.payloadLength
              record := record } := by
  obtain ⟨hLength, hHeader, hBody⟩ := parses_header.front hFits header.length_bytes body
  have hCovered : ((header.bytes ++ body).take (RecordHeader.kSize + header.payloadLength)).drop 8 =
      header.coveredBytes ++ body.take header.payloadLength := by
    rw [← header.length_bytes, List.take_length_add_append, HeaderFields.bytes,
      ← List.append_assoc, List.append_assoc]
    exact List.drop_left' (by simp [ByteWriter.u32])
  unfold decode
  rw [if_neg (by omega), hHeader]
  dsimp only
  rw [hLength, hBody, hCovered]
  cases RecordType.ofCode header.type with
  | none => rfl
  | some type => simp only [Nat.add_lt_add_iff_left]

/-! ## Records that were written -/

section Written

variable (record : Record)

/-- The header of an encoded record. -/
def encodedHeader : HeaderFields where
  payloadLength := (encodePayload record).length
  checksum := (crc32c (covered record) 0#32).toNat
  sequence := record.sequence
  type := record.type.code
  version := kRecordVersion
  reserved := 0

theorem covered_eq :
    covered record = (encodedHeader record).coveredBytes ++ encodePayload record := by
  have hReserved : ByteWriter.u16 0 = [0, 0] := by decide
  simp only [covered, HeaderFields.coveredBytes, encodedHeader, ByteWriter.u64, ByteWriter.u8,
    hReserved, List.append_assoc, List.cons_append, List.nil_append]

theorem encode_eq : encode record = (encodedHeader record).bytes ++ encodePayload record := by
  have hChecksum : (encodedHeader record).checksum = (crc32c (covered record) 0#32).toNat := rfl
  rw [bytes, hChecksum, append_assoc, append_assoc, ← covered_eq, encode,
    append_assoc]
  rfl

@[simp] theorem length_encode :
    (encode record).length = kSize + (encodePayload record).length := by
  rw [encode_eq, length_append, length_bytes]

variable {record}

theorem length_encodePayload_le (hFits : record.PayloadFits) :
    (encodePayload record).length ≤ 65595 := by
  obtain ⟨-, hFits⟩ := hFits
  unfold encodePayload
  cases hType : record.type with
  | instrumentDefined =>
    rw [hType] at hFits
    have hSymbol : record.instrument.symbol.length < 2 ^ 16 := hFits.2.1
    simp [ByteWriter.i64, ByteWriter.u64, ByteWriter.u16, ByteWriter.u8, ByteWriter.string,
      ByteWriter.enumeration]
    omega
  | _ =>
    simp [ByteWriter.i64, ByteWriter.u64, ByteWriter.u8, ByteWriter.boolean, ByteWriter.enumeration]

theorem encodedHeader_fits (hFits : record.Fits) : (encodedHeader record).Fits := by
  have hLength := length_encodePayload_le hFits.2
  refine ⟨?_, BitVec.isLt _, hFits.1, Nat.two_pow_pos 16⟩
  show (encodePayload record).length < 2 ^ 32
  omega

theorem decodePayload_eq (hFits : record.PayloadFits) :
    decodePayload record.type (encodePayload record)
      { type := record.type, sequence := record.sequence } = (record.written, true) := by
  have hRun := (parses_payload record.type record.sequence).reads (readAs_written hFits) []
  rw [append_nil] at hRun
  unfold decodePayload
  rw [hRun]
  rfl

/-- Decoding gives back what was written, whatever follows it. -/
theorem decode_encode (hFits : record.Fits) (rest : List UInt8) :
    decode (encode record ++ rest) =
      { status := .ok, consumed := (encode record).length, record := record.written } := by
  have hLength := length_encodePayload_le hFits.2
  have hTake : (encodePayload record ++ rest).take (encodedHeader record).payloadLength =
      encodePayload record := take_left
  rw [encode_eq, append_assoc, decode_bytes (encodedHeader_fits hFits), hTake, ← covered_eq]
  simp only [encodedHeader, RecordType.ofCode_code, decodePayload_eq hFits.2, length_append]
  rw [if_neg, if_neg (by omega), if_neg (by simp)]
  · simp
  · simp [kMaxPayload]
    omega

/-- The beginning of an encoded record is an incomplete record. -/
theorem decode_cut (hFits : record.Fits) {torn missing : List UInt8} (hMissing : missing ≠ [])
    (hEncode : encode record = torn ++ missing) : (decode torn).status = .incomplete := by
  by_cases hShort : torn.length < kSize
  · unfold decode
    rw [if_pos hShort]
  rw [encode_eq] at hEncode
  have hLength := length_bytes (encodedHeader record)
  -- The header is all there, and part of the payload.
  obtain ⟨body, hTorn, hBody⟩ : ∃ body, torn = (encodedHeader record).bytes ++ body ∧
      encodePayload record = body ++ missing := by
    rcases append_eq_append_iff.mp hEncode with ⟨body, hTorn, hBody⟩ | ⟨excess, hExcess, hRest⟩
    · exact ⟨body, hTorn, hBody⟩
    have hExcessLength := congrArg List.length hExcess
    rw [length_append] at hExcessLength
    obtain rfl : excess = [] := length_eq_zero_iff.mp (by omega)
    exact ⟨[], by rw [hExcess, append_nil, append_nil], hRest.symm⟩
  have hPayload := length_encodePayload_le hFits.2
  have hCut : body.length < (encodePayload record).length := by
    rw [hBody, length_append]
    exact Nat.lt_add_of_pos_right (length_pos_iff.mpr hMissing)
  have hSmall : ¬ (encodePayload record).length > kMaxPayload := by
    rw [kMaxPayload]
    omega
  rw [hTorn, decode_bytes (encodedHeader_fits hFits)]
  simp [encodedHeader, RecordType.ofCode_code, hSmall, hCut]

end Written

end ExchangeCore
