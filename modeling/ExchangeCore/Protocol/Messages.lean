import ExchangeCore.Util.ByteCodec

/-!
# Wire messages

`src/protocol/messages.cpp`: every message is a header of twelve bytes and a payload
that depends on its type.  Encoding and decoding go by the type; a payload has to be
used up by the fields of its type, and the counts of a depth snapshot are checked
before anything is read for them.

An encoder is the bytes it appends.  The length in the header is filled in when the
payload is known, cut to sixteen bits.
-/

namespace ExchangeCore
namespace Protocol

def kProtocolVersion : UInt8 := 1

inductive MessageType
  | newOrder
  | cancelOrder
  | replaceOrder
  | orderAccepted
  | orderRejected
  | orderCancelled
  | orderReplaced
  | execution
  | trade
  | topOfBook
  | depthSnapshot
  | heartbeat
  deriving DecidableEq, Inhabited

def MessageType.code : MessageType → UInt8
  | .newOrder => 1
  | .cancelOrder => 2
  | .replaceOrder => 3
  | .orderAccepted => 16
  | .orderRejected => 17
  | .orderCancelled => 18
  | .orderReplaced => 19
  | .execution => 20
  | .trade => 32
  | .topOfBook => 33
  | .depthSnapshot => 34
  | .heartbeat => 48

/-- The message type with this code, if it is a known one. -/
def MessageType.ofCode (code : UInt8) : Option MessageType :=
  [.newOrder, .cancelOrder, .replaceOrder, .orderAccepted, .orderRejected, .orderCancelled,
    .orderReplaced, .execution, .trade, .topOfBook, .depthSnapshot, .heartbeat].find?
      fun type => type.code == code

/-- Bytes in a message's header. -/
def FrameHeader.kSize : Nat := 12

def FrameHeader.kMaxPayload : Nat := 8192

/-- Bound on levels per side in a depth snapshot. -/
def kMaxDepthLevels : Nat := 256

/-- Reported to the client that sent a command. -/
structure OrderAck where
  order : OrderId := {}
  account : AccountId := {}
  instrument : InstrumentId := {}
  filled : Nat := 0
  remaining : Nat := 0
  timestamp : Int := 0
  deriving DecidableEq

structure OrderReject where
  order : OrderId := {}
  account : AccountId := {}
  reason : RejectReason := .none
  timestamp : Int := 0
  deriving DecidableEq

/-- A fill nobody has written anything to yet. -/
def unsetFill : Fill where
  id := {}
  instrument := {}
  price := noPrice
  quantity := 0
  aggressorOrder := {}
  restingOrder := {}
  aggressorAccount := {}
  restingAccount := {}
  aggressorSide := .buy
  restingFilled := false
  timestamp := 0

/-- A decoded message, with room for every payload; its type says which one
counts. -/
structure Message where
  type : MessageType := .heartbeat
  sequence : Nat := 0
  newOrder : NewOrder := {}
  cancelOrder : CancelOrder := {}
  replaceOrder : ReplaceOrder := {}
  ack : OrderAck := {}
  reject : OrderReject := {}
  fill : Fill := unsetFill
  topOfBook : TopOfBook := {}
  depth : DepthSnapshot := {}
  deriving DecidableEq

/-! ## Encoding -/

section Encoding

open ByteWriter

/-- `begin_frame` and `end_frame` around a payload. -/
def frame (type : MessageType) (sequence : Nat) (payload : List UInt8) : List UInt8 :=
  put payload.length 2 ++ (u8 type.code ++ (u8 kProtocolVersion ++ (u64 sequence ++ payload)))

def writeNewOrder (command : NewOrder) : List UInt8 :=
  u64 command.id.value ++ u64 command.account.value ++ u64 command.instrument.value ++
    enumeration command.side ++ enumeration command.type ++ enumeration command.tif ++
    boolean command.postOnly ++ i64 command.price ++ u64 command.quantity

def writeCancel (command : CancelOrder) : List UInt8 :=
  u64 command.id.value ++ u64 command.account.value ++ u64 command.instrument.value

def writeReplace (command : ReplaceOrder) : List UInt8 :=
  u64 command.id.value ++ u64 command.account.value ++ u64 command.instrument.value ++
    i64 command.newPrice ++ u64 command.newQuantity

def writeAck (ack : OrderAck) : List UInt8 :=
  u64 ack.order.value ++ u64 ack.account.value ++ u64 ack.instrument.value ++ u64 ack.filled ++
    u64 ack.remaining ++ i64 ack.timestamp

def writeReject (reject : OrderReject) : List UInt8 :=
  u64 reject.order.value ++ u64 reject.account.value ++ enumeration reject.reason ++
    i64 reject.timestamp

def writeFill (fill : Fill) : List UInt8 :=
  u64 fill.id.value ++ u64 fill.instrument.value ++ i64 fill.price ++ u64 fill.quantity ++
    u64 fill.aggressorOrder.value ++ u64 fill.restingOrder.value ++
    u64 fill.aggressorAccount.value ++ u64 fill.restingAccount.value ++
    enumeration fill.aggressorSide ++ boolean fill.restingFilled ++ i64 fill.timestamp

def writeTopOfBook (top : TopOfBook) : List UInt8 :=
  u64 top.instrument.value ++ i64 top.bidPrice ++ u64 top.bidQuantity ++ i64 top.askPrice ++
    u64 top.askQuantity

def writeLevel (level : DepthLevel) : List UInt8 :=
  i64 level.price ++ u64 level.quantity ++ u32 level.orderCount

/-- No more levels than the format allows are written. -/
def writeSide (levels : List DepthLevel) : List UInt8 :=
  let count := min levels.length kMaxDepthLevels
  u16 count ++ (levels.take count).flatMap writeLevel

def writeDepth (depth : DepthSnapshot) : List UInt8 :=
  u64 depth.instrument.value ++ writeSide depth.bids ++ writeSide depth.asks

variable (sequence : Nat)

def encodeNewOrder (command : NewOrder) : List UInt8 :=
  frame .newOrder sequence (writeNewOrder command)

def encodeCancel (command : CancelOrder) : List UInt8 :=
  frame .cancelOrder sequence (writeCancel command)

def encodeReplace (command : ReplaceOrder) : List UInt8 :=
  frame .replaceOrder sequence (writeReplace command)

def encodeAckAs (type : MessageType) (ack : OrderAck) : List UInt8 :=
  frame type sequence (writeAck ack)

def encodeAccepted (ack : OrderAck) : List UInt8 :=
  encodeAckAs sequence .orderAccepted ack

def encodeCancelled (ack : OrderAck) : List UInt8 :=
  encodeAckAs sequence .orderCancelled ack

def encodeReplaced (ack : OrderAck) : List UInt8 :=
  encodeAckAs sequence .orderReplaced ack

def encodeRejected (reject : OrderReject) : List UInt8 :=
  frame .orderRejected sequence (writeReject reject)

def encodeExecution (fill : Fill) : List UInt8 :=
  frame .execution sequence (writeFill fill)

def encodeTrade (fill : Fill) : List UInt8 :=
  frame .trade sequence (writeFill fill)

def encodeTopOfBook (top : TopOfBook) : List UInt8 :=
  frame .topOfBook sequence (writeTopOfBook top)

def encodeDepth (depth : DepthSnapshot) : List UInt8 :=
  frame .depthSnapshot sequence (writeDepth depth)

def encodeHeartbeat : List UInt8 := frame .heartbeat sequence []

end Encoding

/-! ## Decoding -/

inductive DecodeStatus
  | ok
  /-- Not all of the message has arrived. -/
  | incomplete
  /-- Not a message this build understands. -/
  | unreadable
  deriving DecidableEq

structure DecodeResult where
  status : DecodeStatus := .incomplete
  consumed : Nat := 0
  message : Message := {}
  deriving DecidableEq

section Decoding

open ByteReader

/-- The header as it stands in the bytes. -/
structure HeaderFields where
  payloadLength : Nat
  type : UInt8
  version : UInt8
  sequence : Nat
  deriving DecidableEq

def readHeader : ByteReader HeaderFields := do
  let payloadLength ← u16
  let type ← u8
  let version ← u8
  let sequence ← u64
  return ⟨payloadLength, type, version, sequence⟩

def readNewOrder : ByteReader NewOrder := do
  let id ← u64
  let account ← u64
  let instrument ← u64
  let side ← enumeration Side
  let type ← enumeration OrderType
  let tif ← enumeration TimeInForce
  let postOnly ← boolean
  let price ← i64
  let quantity ← u64
  return {
    id := ⟨id⟩
    account := ⟨account⟩
    instrument := ⟨instrument⟩
    side := side
    type := type
    tif := tif
    postOnly := postOnly
    price := price
    quantity := quantity }

def readCancel : ByteReader CancelOrder := do
  let id ← u64
  let account ← u64
  let instrument ← u64
  return { id := ⟨id⟩, account := ⟨account⟩, instrument := ⟨instrument⟩ }

def readReplace : ByteReader ReplaceOrder := do
  let id ← u64
  let account ← u64
  let instrument ← u64
  let newPrice ← i64
  let newQuantity ← u64
  return {
    id := ⟨id⟩
    account := ⟨account⟩
    instrument := ⟨instrument⟩
    newPrice := newPrice
    newQuantity := newQuantity }

def readAck : ByteReader OrderAck := do
  let order ← u64
  let account ← u64
  let instrument ← u64
  let filled ← u64
  let remaining ← u64
  let timestamp ← i64
  return {
    order := ⟨order⟩
    account := ⟨account⟩
    instrument := ⟨instrument⟩
    filled := filled
    remaining := remaining
    timestamp := timestamp }

def readReject : ByteReader OrderReject := do
  let order ← u64
  let account ← u64
  let reason ← enumeration RejectReason
  let timestamp ← i64
  return { order := ⟨order⟩, account := ⟨account⟩, reason := reason, timestamp := timestamp }

def readFill : ByteReader Fill := do
  let id ← u64
  let instrument ← u64
  let price ← i64
  let quantity ← u64
  let aggressorOrder ← u64
  let restingOrder ← u64
  let aggressorAccount ← u64
  let restingAccount ← u64
  let aggressorSide ← enumeration Side
  let restingFilled ← boolean
  let timestamp ← i64
  return {
    id := ⟨id⟩
    instrument := ⟨instrument⟩
    price := price
    quantity := quantity
    aggressorOrder := ⟨aggressorOrder⟩
    restingOrder := ⟨restingOrder⟩
    aggressorAccount := ⟨aggressorAccount⟩
    restingAccount := ⟨restingAccount⟩
    aggressorSide := aggressorSide
    restingFilled := restingFilled
    timestamp := timestamp }

/-- The snapshot takes its sequence number from the header. -/
def readTopOfBook (sequence : Nat) : ByteReader TopOfBook := do
  let instrument ← u64
  let bidPrice ← i64
  let bidQuantity ← u64
  let askPrice ← i64
  let askQuantity ← u64
  return {
    instrument := ⟨instrument⟩
    sequence := sequence
    bidPrice := bidPrice
    askPrice := askPrice
    bidQuantity := bidQuantity
    askQuantity := askQuantity }

def readLevel : ByteReader DepthLevel := do
  let price ← i64
  let quantity ← u64
  let orderCount ← u32
  return { price := price, quantity := quantity, orderCount := orderCount }

def readLevels : Nat → ByteReader (List DepthLevel)
  | 0 => return []
  | count + 1 => do
    let level ← readLevel
    let levels ← readLevels count
    return level :: levels

/-- One side of a depth snapshot, or nothing if its count cannot be right. -/
def readSide : ByteReader (Option (List DepthLevel)) := do
  let count ← u16
  if !(← ok) || count > kMaxDepthLevels then
    return none
  else if (← remaining) < count * 20 then
    return none
  else
    let levels ← readLevels count
    return some levels

def readDepth (sequence : Nat) : ByteReader (Option DepthSnapshot) := do
  let instrument ← u64
  match ← readSide with
  | none => return none
  | some bids =>
    match ← readSide with
    | none => return none
    | some asks =>
      return some
        { instrument := ⟨instrument⟩, sequence := sequence, bids := bids, asks := asks }

/-- The payload of a message, or nothing where the source gives up at once. -/
def readPayload (type : MessageType) (sequence : Nat) : ByteReader (Option Message) :=
  let message : Message := { type := type, sequence := sequence }
  match type with
  | .newOrder => do
    let command ← readNewOrder
    return some { message with newOrder := command }
  | .cancelOrder => do
    let command ← readCancel
    return some { message with cancelOrder := command }
  | .replaceOrder => do
    let command ← readReplace
    return some { message with replaceOrder := command }
  | .orderAccepted | .orderCancelled | .orderReplaced => do
    let ack ← readAck
    return some { message with ack := ack }
  | .orderRejected => do
    let reject ← readReject
    return some { message with reject := reject }
  | .execution | .trade => do
    let fill ← readFill
    return some { message with fill := fill }
  | .topOfBook => do
    let top ← readTopOfBook sequence
    return some { message with topOfBook := top }
  | .depthSnapshot => do
    match ← readDepth sequence with
    | none => return none
    | some depth => return some { message with depth := depth }
  | .heartbeat => return some message

/-- What a payload decodes to that is all there.  A payload that ran short, or that
carried more than the fields of its type, is not safe to act on. -/
def decodePayload (type : MessageType) (sequence : Nat) (payload : List UInt8) : DecodeResult :=
  match readPayload type sequence ⟨payload, false⟩ with
  | (none, _) => { status := .unreadable }
  | (some message, reader) =>
    if !reader.fullyConsumed then { status := .unreadable, message := message }
    else
      { status := .ok, consumed := FrameHeader.kSize + payload.length, message := message }

/-- Decode the message at the start of the data. -/
def decode (data : List UInt8) : DecodeResult :=
  if data.length < FrameHeader.kSize then
    { status := .incomplete }
  else
    let (header, _) := readHeader ⟨data.take FrameHeader.kSize, false⟩
    match MessageType.ofCode header.type with
    | none => { status := .unreadable }
    | some type =>
      if header.version ≠ kProtocolVersion ||
          decide (header.payloadLength > FrameHeader.kMaxPayload) then
        { status := .unreadable }
      else if data.length < FrameHeader.kSize + header.payloadLength then
        { status := .incomplete }
      else
        decodePayload type header.sequence ((data.drop FrameHeader.kSize).take header.payloadLength)

end Decoding

end Protocol
end ExchangeCore
