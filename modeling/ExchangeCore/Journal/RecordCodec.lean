import ExchangeCore.Util.ByteCodec
import ExchangeCore.Util.Crc32c

/-!
# The journal's records and their format

One record for each event that takes a sequence number.  A record carries room for
every kind of event and its type says which part counts; the engine reuses one record
for all its commands, so the parts that do not count hold whatever was there before.

`src/journal/record.cpp`: a header of twenty bytes and a payload that depends on
the type of the record.  The checksum covers everything from the sequence number
on; the length in front of it is only checked against bounds.

Of a record only the part that its type says counts is written, and of an
instrument not the expected number of resting orders; `Record.written` is what
comes back.
-/

namespace ExchangeCore

inductive RecordType
  | instrumentDefined
  | newOrder
  | cancelOrder
  | replaceOrder
  deriving DecidableEq, Inhabited

structure Record where
  type : RecordType := .newOrder
  sequence : Nat := 0
  timestamp : Int := 0
  instrument : Instrument := {}
  newOrder : NewOrder := {}
  cancelOrder : CancelOrder := {}
  replaceOrder : ReplaceOrder := {}
  deriving DecidableEq, Inhabited

/-- Something the engine can append records to.  Appending answers whether the
record was taken. -/
class JournalSink (J : Type) where
  append : J → Record → Int → J × Bool

/-- The type of a journal that is never attached. -/
instance : JournalSink Empty where
  append journal _ _ := journal.elim

def RecordType.code : RecordType → UInt8
  | .instrumentDefined => 1
  | .newOrder => 2
  | .cancelOrder => 3
  | .replaceOrder => 4

/-- The record type with this code, if it is a known one. -/
def RecordType.ofCode (code : UInt8) : Option RecordType :=
  if code = 1 then some .instrumentDefined
  else if code = 2 then some .newOrder
  else if code = 3 then some .cancelOrder
  else if code = 4 then some .replaceOrder
  else none

@[simp] theorem RecordType.ofCode_code (type : RecordType) : ofCode type.code = some type := by
  cases type <;> rfl

theorem RecordType.code_of_ofCode {code : UInt8} {type : RecordType}
    (hKnown : ofCode code = some type) : code = type.code := by
  unfold ofCode at hKnown
  repeat' split at hKnown
  all_goals cases hKnown
  all_goals assumption

def kRecordVersion : UInt8 := 2

/-- Bytes in a record's header. -/
def RecordHeader.kSize : Nat := 20

def RecordHeader.kMaxPayload : Nat := 2 ^ 20

/-! ## Encoding -/

section Encoding

open ByteWriter

def encodePayload (record : Record) : List UInt8 :=
  i64 record.timestamp ++
    match record.type with
    | .instrumentDefined =>
      let instrument := record.instrument
      u64 instrument.id.value ++ string instrument.symbol ++ i64 instrument.tickSize ++
        u64 instrument.lotSize ++ u64 instrument.minQuantity ++ i64 instrument.minPrice ++
        i64 instrument.maxPrice ++ u8 (UInt8.ofNat instrument.displayExponent) ++
        enumeration instrument.selfTradePolicy
    | .newOrder =>
      let command := record.newOrder
      u64 command.id.value ++ u64 command.account.value ++ u64 command.instrument.value ++
        enumeration command.side ++ enumeration command.type ++ enumeration command.tif ++
        boolean command.postOnly ++ i64 command.price ++ u64 command.quantity
    | .cancelOrder =>
      let command := record.cancelOrder
      u64 command.id.value ++ u64 command.account.value ++ u64 command.instrument.value
    | .replaceOrder =>
      let command := record.replaceOrder
      u64 command.id.value ++ u64 command.account.value ++ u64 command.instrument.value ++
        i64 command.newPrice ++ u64 command.newQuantity

/-- What the checksum covers: the header from the sequence number on, and the
payload. -/
def covered (record : Record) : List UInt8 :=
  put record.sequence 8 ++ [record.type.code, kRecordVersion, 0, 0] ++ encodePayload record

/-- The bytes appended for a record. -/
def encode (record : Record) : List UInt8 :=
  put (encodePayload record).length 4 ++ put (crc32c (covered record) 0#32).toNat 4 ++
    covered record

end Encoding

/-! ## Decoding -/

inductive DecodeStatus
  | ok
  /-- Fewer bytes are there than the record needs. -/
  | incomplete
  /-- The contents do not match their checksum. -/
  | corrupt
  /-- Not something this build can interpret. -/
  | unreadable
  deriving DecidableEq

structure DecodeResult where
  status : DecodeStatus := .incomplete
  consumed : Nat := 0
  record : Record := {}
  deriving DecidableEq

section Decoding

open ByteReader

/-- The fields of a payload, read into a record.  All reads are made whatever
happens; the cursor knows whether one has failed. -/
def readPayload (type : RecordType) (record : Record) : ByteReader Record := do
  let timestamp ← i64
  match type with
  | .instrumentDefined =>
    let id ← u64
    let symbol ← string
    let tickSize ← i64
    let lotSize ← u64
    let minQuantity ← u64
    let minPrice ← i64
    let maxPrice ← i64
    let displayExponent ← u8
    let selfTradePolicy ← enumeration SelfTradePolicy
    return { record with
      timestamp := timestamp
      instrument := { record.instrument with
        id := ⟨id⟩
        symbol := symbol
        tickSize := tickSize
        lotSize := lotSize
        minQuantity := minQuantity
        minPrice := minPrice
        maxPrice := maxPrice
        displayExponent := displayExponent.toNat
        selfTradePolicy := selfTradePolicy } }
  | .newOrder =>
    let id ← u64
    let account ← u64
    let instrument ← u64
    let side ← enumeration Side
    let type ← enumeration OrderType
    let tif ← enumeration TimeInForce
    let postOnly ← boolean
    let price ← i64
    let quantity ← u64
    return { record with
      timestamp := timestamp
      newOrder :=
        { id := ⟨id⟩
          account := ⟨account⟩
          instrument := ⟨instrument⟩
          side := side
          type := type
          tif := tif
          postOnly := postOnly
          price := price
          quantity := quantity } }
  | .cancelOrder =>
    let id ← u64
    let account ← u64
    let instrument ← u64
    return { record with
      timestamp := timestamp
      cancelOrder := { id := ⟨id⟩, account := ⟨account⟩, instrument := ⟨instrument⟩ } }
  | .replaceOrder =>
    let id ← u64
    let account ← u64
    let instrument ← u64
    let newPrice ← i64
    let newQuantity ← u64
    return { record with
      timestamp := timestamp
      replaceOrder :=
        { id := ⟨id⟩
          account := ⟨account⟩
          instrument := ⟨instrument⟩
          newPrice := newPrice
          newQuantity := newQuantity } }

/-- Read a payload that has to be used up by it. -/
def decodePayload (type : RecordType) (payload : List UInt8) (record : Record) : Record × Bool :=
  let (record, reader) := readPayload type record ⟨payload, false⟩
  (record, reader.fullyConsumed)

/-- The header as it stands in the bytes. -/
structure HeaderFields where
  payloadLength : Nat
  checksum : Nat
  sequence : Nat
  type : UInt8
  version : UInt8
  reserved : Nat
  deriving DecidableEq

def readHeader : ByteReader HeaderFields := do
  let payloadLength ← u32
  let checksum ← u32
  let sequence ← u64
  let type ← u8
  let version ← u8
  let reserved ← u16
  return ⟨payloadLength, checksum, sequence, type, version, reserved⟩

/-- Decode the record at the start of the data. -/
def decode (data : List UInt8) : DecodeResult :=
  if data.length < RecordHeader.kSize then
    { status := .incomplete }
  else
    let (header, _) := readHeader ⟨data.take RecordHeader.kSize, false⟩
    match RecordType.ofCode header.type with
    | none => { status := .unreadable }
    | some type =>
      if header.version ≠ kRecordVersion || header.reserved ≠ 0 ||
          decide (header.payloadLength > RecordHeader.kMaxPayload) then
        { status := .unreadable }
      else
        let total := RecordHeader.kSize + header.payloadLength
        if data.length < total then
          { status := .incomplete }
        else if (crc32c ((data.take total).drop 8) 0#32).toNat ≠ header.checksum then
          { status := .corrupt }
        else
          let payload := (data.drop RecordHeader.kSize).take header.payloadLength
          let (record, understood) :=
            decodePayload type payload { type := type, sequence := header.sequence }
          if !understood then { status := .unreadable, record := record }
          else { status := .ok, consumed := total, record := record }

end Decoding

end ExchangeCore
