import ExchangeCore.Protocol.Messages

/-!
# The wire format is canonical

Each payload is read by the inverse of what writes it, in the sense of `Parses`.
A depth snapshot also refuses counts that cannot be right, so its reader may come to
nothing (`ParsesSome`).  From the payloads (`parses_payload`) both directions follow:
an encoded message decodes to what was written of it, whatever comes behind
(`decode_encodeMessage`), and whatever decodes is what the encoder of its type
writes (`decode_canonical`).

The verdict on a message does not change when more bytes arrive (`decode_append`),
which is all that a reader of a stream has to know.
-/

namespace ExchangeCore

open List ByteWriter

namespace Protocol

/-! ## What fits the format -/

def OrderAck.Fits (ack : OrderAck) : Prop :=
  ack.order.value < 2 ^ 64 ∧ ack.account.value < 2 ^ 64 ∧ ack.instrument.value < 2 ^ 64 ∧
    ack.filled < 2 ^ 64 ∧ ack.remaining < 2 ^ 64 ∧ SignedWord ack.timestamp

def OrderReject.Fits (reject : OrderReject) : Prop :=
  reject.order.value < 2 ^ 64 ∧ reject.account.value < 2 ^ 64 ∧ SignedWord reject.timestamp

def FillFits (fill : Fill) : Prop :=
  fill.id.value < 2 ^ 64 ∧ fill.instrument.value < 2 ^ 64 ∧ SignedWord fill.price ∧
    fill.quantity < 2 ^ 64 ∧ fill.aggressorOrder.value < 2 ^ 64 ∧
    fill.restingOrder.value < 2 ^ 64 ∧ fill.aggressorAccount.value < 2 ^ 64 ∧
    fill.restingAccount.value < 2 ^ 64 ∧ SignedWord fill.timestamp

def TopOfBookFits (top : TopOfBook) : Prop :=
  top.instrument.value < 2 ^ 64 ∧ SignedWord top.bidPrice ∧ top.bidQuantity < 2 ^ 64 ∧
    SignedWord top.askPrice ∧ top.askQuantity < 2 ^ 64

def LevelFits (level : DepthLevel) : Prop :=
  SignedWord level.price ∧ level.quantity < 2 ^ 64 ∧ level.orderCount < 2 ^ 32

/-- One side of a snapshot can be sent as it is. -/
def SideFits (levels : List DepthLevel) : Prop :=
  levels.length ≤ kMaxDepthLevels ∧ ∀ level ∈ levels, LevelFits level

def DepthFits (depth : DepthSnapshot) : Prop :=
  depth.instrument.value < 2 ^ 64 ∧ SideFits depth.bids ∧ SideFits depth.asks

instance : DecidablePred LevelFits := fun level =>
  inferInstanceAs (Decidable (SignedWord level.price ∧ level.quantity < 2 ^ 64 ∧
    level.orderCount < 2 ^ 32))

variable (message : Message)

namespace Message

/-- The payload that counts is in the range of its fields' types, and a snapshot has
no more levels than are sent. -/
def PayloadFits : Prop :=
  match message.type with
  | .newOrder => message.newOrder.Fits
  | .cancelOrder => message.cancelOrder.Fits
  | .replaceOrder => message.replaceOrder.Fits
  | .orderAccepted | .orderCancelled | .orderReplaced => message.ack.Fits
  | .orderRejected => message.reject.Fits
  | .execution | .trade => FillFits message.fill
  | .topOfBook => TopOfBookFits message.topOfBook
  | .depthSnapshot => DepthFits message.depth
  | .heartbeat => True

/-- What is sent of a message: its own payload, with the numbers of snapshots taken
from the frame. -/
def written : Message :=
  let blank : Message := { type := message.type, sequence := message.sequence }
  match message.type with
  | .newOrder => { blank with newOrder := message.newOrder }
  | .cancelOrder => { blank with cancelOrder := message.cancelOrder }
  | .replaceOrder => { blank with replaceOrder := message.replaceOrder }
  | .orderAccepted | .orderCancelled | .orderReplaced => { blank with ack := message.ack }
  | .orderRejected => { blank with reject := message.reject }
  | .execution | .trade => { blank with fill := message.fill }
  | .topOfBook =>
    { blank with topOfBook := { message.topOfBook with sequence := message.sequence } }
  | .depthSnapshot => { blank with depth := { message.depth with sequence := message.sequence } }
  | .heartbeat => blank

end Message

def writePayload : List UInt8 :=
  match message.type with
  | .newOrder => writeNewOrder message.newOrder
  | .cancelOrder => writeCancel message.cancelOrder
  | .replaceOrder => writeReplace message.replaceOrder
  | .orderAccepted | .orderCancelled | .orderReplaced => writeAck message.ack
  | .orderRejected => writeReject message.reject
  | .execution | .trade => writeFill message.fill
  | .topOfBook => writeTopOfBook message.topOfBook
  | .depthSnapshot => writeDepth message.depth
  | .heartbeat => []

/-- The message as the encoder of its type writes it. -/
def encodeMessage : List UInt8 :=
  match message.type with
  | .newOrder => encodeNewOrder message.sequence message.newOrder
  | .cancelOrder => encodeCancel message.sequence message.cancelOrder
  | .replaceOrder => encodeReplace message.sequence message.replaceOrder
  | .orderAccepted => encodeAccepted message.sequence message.ack
  | .orderRejected => encodeRejected message.sequence message.reject
  | .orderCancelled => encodeCancelled message.sequence message.ack
  | .orderReplaced => encodeReplaced message.sequence message.ack
  | .execution => encodeExecution message.sequence message.fill
  | .trade => encodeTrade message.sequence message.fill
  | .topOfBook => encodeTopOfBook message.sequence message.topOfBook
  | .depthSnapshot => encodeDepth message.sequence message.depth
  | .heartbeat => encodeHeartbeat message.sequence

/-! ## Reading a payload -/

section Payload

open StickyParser ByteReader

theorem parses_newOrder :
    Parses readNewOrder (fun command used => command.Fits ∧ used = writeNewOrder command) := by
  refine (parses_u64.field (K := fun _ => True) (NewOrder.id · |>.value) fun id =>
    parses_u64.field (NewOrder.account · |>.value) fun account =>
    parses_u64.field (NewOrder.instrument · |>.value) fun instrument =>
    (parses_enumeration Side).anyField NewOrder.side fun side =>
    (parses_enumeration OrderType).anyField NewOrder.type fun type =>
    (parses_enumeration TimeInForce).anyField NewOrder.tif fun tif =>
    parses_boolean.anyField NewOrder.postOnly fun postOnly =>
    parses_i64.field NewOrder.price fun price => parses_u64.field NewOrder.quantity fun quantity =>
      Parses.done fun command => ?_).congr fun command used => ?_
  · obtain ⟨⟨_⟩, ⟨_⟩, ⟨_⟩⟩ := command
    simp [and_assoc]
    tauto
  · simp [NewOrder.Fits, writeNewOrder]

theorem parses_cancel :
    Parses readCancel (fun command used => command.Fits ∧ used = writeCancel command) := by
  refine (parses_u64.field (K := fun _ => True) (CancelOrder.id · |>.value) fun id =>
    parses_u64.field (CancelOrder.account · |>.value) fun account =>
    parses_u64.field (CancelOrder.instrument · |>.value) fun instrument =>
      Parses.done fun command => ?_).congr fun command used => ?_
  · obtain ⟨⟨_⟩, ⟨_⟩, ⟨_⟩⟩ := command
    simp [and_assoc]
  · simp [CancelOrder.Fits, writeCancel]

theorem parses_replace :
    Parses readReplace (fun command used => command.Fits ∧ used = writeReplace command) := by
  refine (parses_u64.field (K := fun _ => True) (ReplaceOrder.id · |>.value) fun id =>
    parses_u64.field (ReplaceOrder.account · |>.value) fun account =>
    parses_u64.field (ReplaceOrder.instrument · |>.value) fun instrument =>
    parses_i64.field ReplaceOrder.newPrice fun newPrice =>
    parses_u64.field ReplaceOrder.newQuantity fun newQuantity =>
      Parses.done fun command => ?_).congr fun command used => ?_
  · obtain ⟨⟨_⟩, ⟨_⟩, ⟨_⟩⟩ := command
    simp [and_assoc]
  · simp [ReplaceOrder.Fits, writeReplace]

theorem parses_ack : Parses readAck (fun ack used => ack.Fits ∧ used = writeAck ack) := by
  refine (parses_u64.field (K := fun _ => True) (OrderAck.order · |>.value) fun order =>
    parses_u64.field (OrderAck.account · |>.value) fun account =>
    parses_u64.field (OrderAck.instrument · |>.value) fun instrument =>
    parses_u64.field OrderAck.filled fun filled =>
    parses_u64.field OrderAck.remaining fun remaining =>
    parses_i64.field OrderAck.timestamp fun timestamp => Parses.done fun ack => ?_).congr
      fun ack used => ?_
  · obtain ⟨⟨_⟩, ⟨_⟩, ⟨_⟩⟩ := ack
    simp [and_assoc]
  · simp [OrderAck.Fits, writeAck]

theorem parses_reject :
    Parses readReject (fun reject used => reject.Fits ∧ used = writeReject reject) := by
  refine (parses_u64.field (K := fun _ => True) (OrderReject.order · |>.value) fun order =>
    parses_u64.field (OrderReject.account · |>.value) fun account =>
    (parses_enumeration RejectReason).anyField OrderReject.reason fun reason =>
    parses_i64.field OrderReject.timestamp fun timestamp => Parses.done fun reject => ?_).congr
      fun reject used => ?_
  · obtain ⟨⟨_⟩, ⟨_⟩⟩ := reject
    simp [and_assoc]
  · simp [OrderReject.Fits, writeReject]

theorem parses_fill : Parses readFill (fun fill used => FillFits fill ∧ used = writeFill fill) := by
  refine (parses_u64.field (K := fun _ => True) (Fill.id · |>.value) fun id =>
    parses_u64.field (Fill.instrument · |>.value) fun instrument =>
    parses_i64.field Fill.price fun price => parses_u64.field Fill.quantity fun quantity =>
    parses_u64.field (Fill.aggressorOrder · |>.value) fun aggressorOrder =>
    parses_u64.field (Fill.restingOrder · |>.value) fun restingOrder =>
    parses_u64.field (Fill.aggressorAccount · |>.value) fun aggressorAccount =>
    parses_u64.field (Fill.restingAccount · |>.value) fun restingAccount =>
    (parses_enumeration Side).anyField Fill.aggressorSide fun aggressorSide =>
    parses_boolean.anyField Fill.restingFilled fun restingFilled =>
    parses_i64.field Fill.timestamp fun timestamp => Parses.done fun fill => ?_).congr
      fun fill used => ?_
  · obtain ⟨⟨_⟩, ⟨_⟩, _, _, ⟨_⟩, ⟨_⟩, ⟨_⟩, ⟨_⟩⟩ := fill
    simp [and_assoc]
  · simp [FillFits, writeFill]

theorem parses_topOfBook (sequence : Nat) :
    Parses (readTopOfBook sequence)
      (fun top used => (TopOfBookFits top ∧ top.sequence = sequence) ∧
        used = writeTopOfBook top) := by
  refine (parses_u64.field (K := fun top => top.sequence = sequence)
      (TopOfBook.instrument · |>.value) fun instrument =>
    parses_i64.field TopOfBook.bidPrice fun bidPrice =>
    parses_u64.field TopOfBook.bidQuantity fun bidQuantity =>
    parses_i64.field TopOfBook.askPrice fun askPrice =>
    parses_u64.field TopOfBook.askQuantity fun askQuantity => Parses.done fun top => ?_).congr
      fun top used => ?_
  · obtain ⟨⟨_⟩⟩ := top
    simp [and_assoc, and_left_comm]
  · simp only [TopOfBookFits, writeTopOfBook, append_assoc, append_nil]
    tauto

/-! ### Depth -/

theorem parses_level :
    Parses readLevel (fun level used => LevelFits level ∧ used = writeLevel level) := by
  refine (parses_i64.field (K := fun _ => True) DepthLevel.price fun price =>
    parses_u64.field DepthLevel.quantity fun quantity =>
    parses_u32.field DepthLevel.orderCount fun orderCount => Parses.done fun level => ?_).congr
      fun level used => ?_
  · obtain ⟨_⟩ := level
    simp [and_assoc]
  · simp [LevelFits, writeLevel]

theorem parses_levels (count : Nat) :
    Parses (readLevels count) (fun levels used =>
      (levels.length = count ∧ ∀ level ∈ levels, LevelFits level) ∧
        used = levels.flatMap writeLevel) := by
  induction count with
  | zero =>
    refine (Parses.pure []).congr fun levels used => ?_
    constructor
    · rintro ⟨rfl, rfl⟩
      exact ⟨⟨rfl, fun level hLevel => absurd hLevel not_mem_nil⟩, rfl⟩
    · rintro ⟨⟨hLength, -⟩, rfl⟩
      obtain rfl := length_eq_zero_iff.mp hLength
      exact ⟨rfl, rfl⟩
  | succ count ih =>
    refine (parses_level.bind fun level => ih.bind fun levels => Parses.pure _).congr
      fun levels used => ?_
    constructor
    · rintro ⟨level, _, _, ⟨hLevel, rfl⟩, hNext, rfl⟩
      obtain ⟨levels, _, _, ⟨⟨hLength, hLevels⟩, rfl⟩, ⟨rfl, rfl⟩, rfl⟩ := hNext
      refine ⟨⟨by rw [length_cons, hLength], forall_mem_cons.mpr ⟨hLevel, hLevels⟩⟩, ?_⟩
      rw [flatMap_cons, append_nil]
    · rintro ⟨⟨hLength, hLevels⟩, rfl⟩
      obtain ⟨level, levels, rfl⟩ := exists_cons_of_length_eq_add_one hLength
      obtain ⟨hLevel, hLevels⟩ := forall_mem_cons.mp hLevels
      rw [flatMap_cons, ← append_nil (levels.flatMap writeLevel)]
      exact .intro ⟨hLevel, rfl⟩ (.intro ⟨⟨Nat.succ.inj hLength, hLevels⟩, rfl⟩ ⟨rfl, rfl⟩)

@[simp] theorem length_writeLevel (level : DepthLevel) : (writeLevel level).length = 20 := by
  simp [writeLevel, ByteWriter.i64, ByteWriter.u64, ByteWriter.u32]

theorem length_flatMap_writeLevel (levels : List DepthLevel) :
    (levels.flatMap writeLevel).length = levels.length * 20 := by
  induction levels with
  | nil => rfl
  | cons level levels ih =>
    rw [flatMap_cons, length_append, length_writeLevel, ih, length_cons]
    omega

/-- What is read of a side once its count is known. -/
theorem parses_counted (count : Nat) :
    ParsesSome (do
        if !(← ok) || count > kMaxDepthLevels then
          return none
        else if (← remaining) < count * 20 then
          return none
        else
          let levels ← readLevels count
          return some levels : ByteReader (Option (List DepthLevel)))
      (fun levels used => (levels.length = count ∧ SideFits levels) ∧
        used = levels.flatMap writeLevel) where
  reads := by
    rintro levels used ⟨⟨rfl, hFew, hLevels⟩, rfl⟩ rest
    have hRun := (parses_levels levels.length).reads ⟨⟨rfl, hLevels⟩, rfl⟩ rest
    have hEnough : ¬ (levels.flatMap writeLevel ++ rest).length < levels.length * 20 := by
      rw [length_append, length_flatMap_writeLevel]
      omega
    simp only [bind_apply, ok, remaining, Bool.not_false, Bool.not_true, Bool.false_or,
      decide_eq_true_eq, Nat.not_lt.mpr hFew, if_false, Bool.false_eq_true, hEnough, hRun,
      pure_apply]
  sound := by
    intro input levels rest hRun
    simp only [bind_apply, ok, Bool.not_false, Bool.not_true, Bool.false_or, decide_eq_true_eq,
      gt_iff_lt] at hRun
    split at hRun
    · cases hRun
    next hFew =>
    rw [bind_apply] at hRun
    split at hRun
    · cases hRun
    rw [bind_apply, pure_apply] at hRun
    obtain ⟨hLevels, hCursor⟩ : some (readLevels count ⟨input, false⟩).1 = some levels ∧
        (readLevels count ⟨input, false⟩).2 = ⟨rest, false⟩ := Prod.mk.inj hRun
    have hUsed := (parses_levels count).sound input (by rw [hCursor])
    rw [hCursor, Option.some.inj hLevels] at hUsed
    obtain ⟨used, ⟨⟨hLength, hAll⟩, hUsed⟩, hInput⟩ := hUsed
    exact ⟨used, ⟨⟨hLength, by rw [hLength]; omega, hAll⟩, hUsed⟩, hInput⟩
  sticky := by
    intro input
    simp only [bind_apply, ok, Bool.not_true, Bool.not_false, Bool.true_or, if_true]
    rfl

theorem writeSide_of_few {levels : List DepthLevel} (hFew : levels.length ≤ kMaxDepthLevels) :
    writeSide levels = u16 levels.length ++ levels.flatMap writeLevel := by
  unfold writeSide
  dsimp only
  rw [Nat.min_eq_left hFew, take_length]

/-- The bytes of one side of a snapshot. -/
def SideAs (levels : List DepthLevel) (used : List UInt8) : Prop :=
  SideFits levels ∧ used = writeSide levels

theorem parses_side : ParsesSome readSide SideAs := by
  refine (ParsesSome.bind parses_u16 parses_counted).congr fun levels used => ?_
  constructor
  · rintro ⟨count, _, _, ⟨hCount, rfl⟩, ⟨⟨rfl, hFits⟩, rfl⟩, rfl⟩
    exact ⟨hFits, (writeSide_of_few hFits.1).symm⟩
  · rintro ⟨hFits, rfl⟩
    rw [writeSide_of_few hFits.1]
    refine .intro ⟨?_, rfl⟩ ⟨⟨rfl, hFits⟩, rfl⟩
    exact Nat.lt_of_le_of_lt hFits.1 (by decide)

theorem parses_depth (sequence : Nat) :
    ParsesSome (readDepth sequence)
      (fun depth used => (DepthFits depth ∧ depth.sequence = sequence) ∧
        used = writeDepth depth) := by
  have hReads : ParsesSome (readDepth sequence)
      (Then (fun instrument used => instrument < 2 ^ 64 ∧ used = ByteWriter.u64 instrument)
        fun instrument => Then SideAs fun bids => Then SideAs fun asks depth used =>
          depth = ⟨⟨instrument⟩, sequence, bids, asks⟩ ∧ used = []) := by
    refine ParsesSome.bind parses_u64 fun instrument => ?_
    refine parses_side.bindSome ?_ fun bids => ?_
    · rfl
    refine parses_side.bindSome ?_ fun asks => ?_
    · rfl
    exact ParsesSome.pure _
  refine hReads.congr fun depth used => ?_
  constructor
  · rintro ⟨instrument, _, _, ⟨hInstrument, rfl⟩, hNext, rfl⟩
    obtain ⟨bids, _, _, ⟨hBids, rfl⟩, hNext, rfl⟩ := hNext
    obtain ⟨asks, _, _, ⟨hAsks, rfl⟩, ⟨rfl, rfl⟩, rfl⟩ := hNext
    refine ⟨⟨⟨hInstrument, hBids, hAsks⟩, rfl⟩, ?_⟩
    simp only [writeDepth, List.append_nil, List.append_assoc]
  · rintro ⟨⟨⟨hInstrument, hBids, hAsks⟩, rfl⟩, rfl⟩
    simp only [writeDepth, List.append_assoc]
    rw [← List.append_nil (writeSide depth.asks)]
    exact .intro ⟨hInstrument, rfl⟩ (.intro ⟨hBids, rfl⟩ (.intro ⟨hAsks, rfl⟩ ⟨rfl, rfl⟩))

/-! ### Every type -/

/-- The message holds nothing but a payload of its type, and this is the payload. -/
def ReadAs (type : MessageType) (sequence : Nat) (message : Message) (used : List UInt8) : Prop :=
  message.type = type ∧ message.sequence = sequence ∧ message.written = message ∧
    message.PayloadFits ∧ used = writePayload message

/-- A payload is read as a message where its part is the only one filled in. -/
theorem parses_part {α : Type} {read : ByteReader α} {fits : α → Prop}
    {write : α → List UInt8} {type : MessageType} {sequence : Nat}
    (hParses : Parses read (fun value used => fits value ∧ used = write value))
    (fill : α → Message) (part : Message → α)
    (hFill : ∀ value, fits value → ReadAs type sequence (fill value) (write value))
    (hPart : ∀ message, message.type = type → message.sequence = sequence →
      message.written = message → message.PayloadFits →
        fits (part message) ∧ writePayload message = write (part message) ∧
          message = fill (part message)) :
    ParsesSome (do let value ← read; return some (fill value)) (ReadAs type sequence) := by
  refine (ParsesSome.map hParses fill).congr fun message used => ?_
  constructor
  · rintro ⟨value, ⟨hFits, rfl⟩, rfl⟩
    exact hFill value hFits
  · rintro ⟨hType, hSequence, hPlain, hFits, rfl⟩
    obtain ⟨hFits, hWrite, hMessage⟩ := hPart message hType hSequence hPlain hFits
    exact ⟨part message, ⟨hFits, hWrite⟩, hMessage⟩

theorem parses_payload (type : MessageType) (sequence : Nat) :
    ParsesSome (readPayload type sequence) (ReadAs type sequence) := by
  cases type with
  | newOrder =>
    refine parses_part parses_newOrder _ Message.newOrder
      (fun command hFits => ⟨rfl, rfl, rfl, hFits, rfl⟩) ?_
    rintro ⟨⟩ rfl rfl hPlain hFits
    exact ⟨hFits, rfl, hPlain.symm⟩
  | cancelOrder =>
    refine parses_part parses_cancel _ Message.cancelOrder
      (fun command hFits => ⟨rfl, rfl, rfl, hFits, rfl⟩) ?_
    rintro ⟨⟩ rfl rfl hPlain hFits
    exact ⟨hFits, rfl, hPlain.symm⟩
  | replaceOrder =>
    refine parses_part parses_replace _ Message.replaceOrder
      (fun command hFits => ⟨rfl, rfl, rfl, hFits, rfl⟩) ?_
    rintro ⟨⟩ rfl rfl hPlain hFits
    exact ⟨hFits, rfl, hPlain.symm⟩
  | orderAccepted | orderCancelled | orderReplaced =>
    refine parses_part parses_ack _ Message.ack (fun ack hFits => ⟨rfl, rfl, rfl, hFits, rfl⟩) ?_
    rintro ⟨⟩ rfl rfl hPlain hFits
    exact ⟨hFits, rfl, hPlain.symm⟩
  | orderRejected =>
    refine parses_part parses_reject _ Message.reject
      (fun reject hFits => ⟨rfl, rfl, rfl, hFits, rfl⟩) ?_
    rintro ⟨⟩ rfl rfl hPlain hFits
    exact ⟨hFits, rfl, hPlain.symm⟩
  | execution | trade =>
    refine parses_part parses_fill _ Message.fill (fun fill hFits => ⟨rfl, rfl, rfl, hFits, rfl⟩) ?_
    rintro ⟨⟩ rfl rfl hPlain hFits
    exact ⟨hFits, rfl, hPlain.symm⟩
  | topOfBook =>
    refine parses_part (parses_topOfBook sequence) _ Message.topOfBook ?_ ?_
    · rintro top ⟨hFits, rfl⟩
      exact ⟨rfl, rfl, rfl, hFits, rfl⟩
    · rintro ⟨⟩ rfl rfl hPlain hFits
      refine ⟨⟨hFits, ?_⟩, rfl, ?_⟩
      · exact (congrArg (fun message => message.topOfBook.sequence) hPlain).symm
      · rw [← hPlain]
        rfl
  | depthSnapshot =>
    have hReads : ParsesSome (readPayload .depthSnapshot sequence)
        (Then (fun depth used => (DepthFits depth ∧ depth.sequence = sequence) ∧
          used = writeDepth depth) fun depth message used =>
            message = { type := .depthSnapshot, sequence := sequence, depth := depth } ∧
              used = []) := by
      refine (parses_depth sequence).bindSome ?_ fun depth => ?_
      · rfl
      exact ParsesSome.pure _
    refine hReads.congr fun message used => ?_
    constructor
    · rintro ⟨depth, _, _, ⟨⟨hFits, rfl⟩, rfl⟩, ⟨rfl, rfl⟩, rfl⟩
      exact ⟨rfl, rfl, rfl, hFits, append_nil _⟩
    · rintro ⟨hType, hSequence, hPlain, hFits, rfl⟩
      obtain ⟨⟩ := message
      obtain rfl := hType
      obtain rfl := hSequence
      refine ⟨_, _, [], ⟨⟨hFits, ?_⟩, rfl⟩, ⟨?_, rfl⟩, (append_nil _).symm⟩
      · exact (congrArg (fun message => message.depth.sequence) hPlain).symm
      · rw [← hPlain]
        rfl
  | heartbeat =>
    refine (ParsesSome.pure _).congr fun message used => ?_
    constructor
    · rintro ⟨rfl, rfl⟩
      exact ⟨rfl, rfl, rfl, trivial, rfl⟩
    · rintro ⟨hType, hSequence, hPlain, -, rfl⟩
      obtain ⟨⟩ := message
      obtain rfl := hType
      obtain rfl := hSequence
      exact ⟨hPlain.symm, rfl⟩

end Payload

/-! ## Reading a message -/

@[simp] theorem MessageType.ofCode_code (type : MessageType) : ofCode type.code = some type := by
  cases type <;> rfl

variable {type : MessageType} {data payload : List UInt8}

theorem MessageType.code_of_ofCode {code : UInt8}
    (hKnown : ofCode code = some type) : code = type.code := by
  have hFound := List.find?_some hKnown
  exact (beq_iff_eq.mp hFound).symm

namespace HeaderFields

variable (header : HeaderFields)

def bytes : List UInt8 :=
  u16 header.payloadLength ++ (u8 header.type ++
    (u8 header.version ++ u64 header.sequence))

def Fits : Prop :=
  header.payloadLength < 2 ^ 16 ∧ header.sequence < 2 ^ 64

@[simp] theorem length_bytes : header.bytes.length = FrameHeader.kSize := by
  simp [bytes, u16, u8, u64, FrameHeader.kSize]

end HeaderFields

open StickyParser ByteReader in
theorem parses_header :
    Parses readHeader (fun header used => header.Fits ∧ used = header.bytes) := by
  refine (parses_u16.field (K := fun _ => True) HeaderFields.payloadLength fun payloadLength =>
    parses_u8.anyField HeaderFields.type fun type =>
    parses_u8.anyField HeaderFields.version fun version =>
    parses_u64.field HeaderFields.sequence fun sequence => Parses.done fun header => ?_).congr
      fun header used => ?_
  · obtain ⟨_⟩ := header
    simp [and_assoc]
  · simp [HeaderFields.Fits, HeaderFields.bytes]

open StickyParser ByteReader in
/-- Twelve bytes or more begin with a header. -/
theorem exists_header (hLong : ¬ data.length < FrameHeader.kSize) :
    ∃ (header : HeaderFields) (body : List UInt8), header.Fits ∧ header.bytes ++ body = data := by
  have hTakes : Takes readHeader FrameHeader.kSize :=
    (takes_take 2).bind fun _ => takes_u8.bind fun _ => takes_u8.bind fun _ =>
      (takes_take 8).bind fun _ => takes_pure _
  obtain ⟨header, _, body, ⟨hFits, rfl⟩, hData⟩ :=
    hTakes.exists_value parses_header (Nat.le_of_not_lt hLong)
  exact ⟨header, body, hFits, hData⟩

/-- Decoding, once the header has been read. -/
theorem decode_bytes {header : HeaderFields} (hFits : header.Fits) (body : List UInt8) :
    decode (header.bytes ++ body) =
      match MessageType.ofCode header.type with
      | none => { status := .unreadable }
      | some type =>
        if header.version ≠ kProtocolVersion ||
            decide (header.payloadLength > FrameHeader.kMaxPayload) then
          { status := .unreadable }
        else if body.length < header.payloadLength then { status := .incomplete }
        else decodePayload type header.sequence (body.take header.payloadLength) := by
  obtain ⟨hLength, hHeader, hBody⟩ := parses_header.front hFits header.length_bytes body
  unfold decode
  rw [if_neg (by omega), hHeader]
  dsimp only
  rw [hLength, hBody]
  cases MessageType.ofCode header.type with
  | none => rfl
  | some type => simp only [Nat.add_lt_add_iff_left]

/-- The payload of a message decodes to it. -/
theorem decodePayload_of_readAs {sequence : Nat}
    {message : Message} (hReads : ReadAs type sequence message payload) :
    decodePayload type sequence payload =
      { status := .ok, consumed := FrameHeader.kSize + payload.length, message := message } := by
  obtain ⟨cursor, hRun, hDone⟩ :=
    ((parses_payload type sequence).fullyConsumed_iff payload message).mpr hReads
  rw [decodePayload, hRun]
  simp [hDone]

/-- Nothing else decodes. -/
theorem readAs_of_ok {sequence : Nat} (hOk : (decodePayload type sequence payload).status = .ok) :
    ∃ message, ReadAs type sequence message payload := by
  obtain ⟨found, cursor, hRun⟩ : ∃ found cursor,
    readPayload type sequence ⟨payload, false⟩ = (found, cursor) := ⟨_, _, rfl⟩
  rw [decodePayload, hRun] at hOk
  cases found with
  | none => cases hOk
  | some message =>
    have hDone : cursor.fullyConsumed = true := by
      by_contra hNot
      rw [Bool.not_eq_true] at hNot
      simp [hNot] at hOk
    exact ⟨message, ((parses_payload type sequence).fullyConsumed_iff payload message).mp
      ⟨cursor, hRun, hDone⟩⟩

/-- Bytes behind a message that can be judged do not change the verdict. -/
theorem decode_append (hJudged : (decode data).status ≠ .incomplete)
    (more : List UInt8) : decode (data ++ more) = decode data := by
  by_cases hShort : data.length < FrameHeader.kSize
  · refine absurd ?_ hJudged
    rw [decode, if_pos hShort]
  obtain ⟨header, body, hFits, rfl⟩ := exists_header hShort
  rw [decode_bytes hFits] at hJudged
  rw [append_assoc, decode_bytes hFits, decode_bytes hFits]
  cases hKnown : MessageType.ofCode header.type with
  | none => rfl
  | some type =>
    rw [hKnown] at hJudged
    dsimp only at hJudged ⊢
    split
    · rfl
    next hAccepted =>
    rw [if_neg hAccepted] at hJudged
    have hWhole : ¬ body.length < header.payloadLength := by
      intro hPartial
      rw [if_pos hPartial] at hJudged
      exact hJudged rfl
    have hStill : ¬ (body ++ more).length < header.payloadLength := by
      rw [length_append]
      omega
    rw [if_neg hWhole, if_neg hStill, take_append_of_le_length (by omega)]

/-! ## Messages and their bytes -/

section Written

/-- The header of an encoded message. -/
def encodedHeader : HeaderFields where
  payloadLength := (writePayload message).length
  type := message.type.code
  version := kProtocolVersion
  sequence := message.sequence

theorem encodeMessage_eq :
    encodeMessage message = (encodedHeader message).bytes ++ writePayload message := by
  have hFrame : encodeMessage message =
      frame message.type message.sequence (writePayload message) := by
    obtain ⟨type⟩ := message
    cases type <;> rfl
  rw [hFrame, frame, HeaderFields.bytes, append_assoc, append_assoc, append_assoc]
  rfl

theorem length_encodeMessage :
    (encodeMessage message).length = FrameHeader.kSize + (writePayload message).length := by
  rw [encodeMessage_eq, length_append, HeaderFields.length_bytes]

@[simp] theorem encodeMessage_written : encodeMessage message.written = encodeMessage message := by
  obtain ⟨type⟩ := message
  cases type <;> rfl

/-- What is sent of a message is read as such. -/
theorem readAs_written (hFits : message.PayloadFits) :
    ReadAs message.type message.sequence message.written (writePayload message) := by
  obtain ⟨type⟩ := message
  cases type <;> exact ⟨rfl, rfl, rfl, hFits, rfl⟩

/-- The message can be sent as it is. -/
def Message.Fits : Prop :=
  message.sequence < 2 ^ 64 ∧ message.PayloadFits ∧
    (writePayload message).length ≤ FrameHeader.kMaxPayload

/-- All payloads but that of a depth snapshot are short. -/
theorem length_writePayload_le (hFixed : message.type ≠ .depthSnapshot) :
    (writePayload message).length ≤ FrameHeader.kMaxPayload := by
  obtain ⟨type⟩ := message
  cases type with
  | depthSnapshot => exact absurd rfl hFixed
  | _ =>
    simp [writePayload, writeNewOrder, writeCancel, writeReplace, writeAck, writeReject,
      writeFill, writeTopOfBook, u64, i64, u8,
      boolean, enumeration, FrameHeader.kMaxPayload]

variable {message}

/-- Decoding gives back what was sent, whatever follows it. -/
theorem decode_encodeMessage (hFits : message.Fits) (rest : List UInt8) :
    decode (encodeMessage message ++ rest) =
      { status := .ok
        consumed := (encodeMessage message).length
        message := message.written } := by
  obtain ⟨hSequence, hPayload, hShort⟩ := hFits
  have hMax : FrameHeader.kMaxPayload = 8192 := rfl
  have hHeader : (encodedHeader message).Fits := by
    refine ⟨?_, hSequence⟩
    show (writePayload message).length < 2 ^ 16
    omega
  have hTake : (writePayload message ++ rest).take (encodedHeader message).payloadLength =
      writePayload message := take_left
  have hType : MessageType.ofCode (encodedHeader message).type = some message.type :=
    message.type.ofCode_code
  have hAccepted : ¬ ((encodedHeader message).version ≠ kProtocolVersion ||
      decide ((encodedHeader message).payloadLength > FrameHeader.kMaxPayload)) = true := by
    simp [encodedHeader, hShort]
  have hWhole :
      ¬ (writePayload message ++ rest).length < (encodedHeader message).payloadLength := by
    simp [encodedHeader]
  rw [length_encodeMessage, encodeMessage_eq, append_assoc, decode_bytes hHeader, hType]
  dsimp only
  rw [if_neg hAccepted, if_neg hWhole, hTake]
  exact decodePayload_of_readAs (readAs_written message hPayload)

end Written

/-- Whatever decodes begins with the encoding of a message. -/
theorem exists_encodeMessage_of_decode (hOk : (decode data).status = .ok) :
    ∃ message rest, message.Fits ∧ data = encodeMessage message ++ rest := by
  by_cases hShort : data.length < FrameHeader.kSize
  · rw [decode, if_pos hShort] at hOk
    cases hOk
  obtain ⟨header, body, hFits, rfl⟩ := exists_header hShort
  rw [decode_bytes hFits] at hOk
  split at hOk
  · cases hOk
  next type hKnown =>
  split at hOk
  · cases hOk
  next hAccepted =>
  split at hOk
  · cases hOk
  next hWhole =>
  simp only [Bool.or_eq_true, decide_eq_true_eq, not_or, not_not, ne_eq, Nat.not_lt,
    gt_iff_lt] at hAccepted hWhole
  obtain ⟨hVersion, hMax⟩ := hAccepted
  obtain ⟨message, hType, hSequence, -, hPayloadFits, hPayload⟩ := readAs_of_ok hOk
  have hLength : (writePayload message).length = header.payloadLength := by
    rw [← hPayload, length_take]
    omega
  -- Its header says what the header of that message would say.
  have hSame : encodedHeader message = header := by
    obtain ⟨payloadLength, code, version, sequence⟩ := header
    simp only [encodedHeader, HeaderFields.mk.injEq]
    exact ⟨hLength, by rw [hType]; exact (MessageType.code_of_ofCode hKnown).symm, hVersion.symm,
      hSequence⟩
  refine ⟨message, body.drop header.payloadLength, ⟨?_, hPayloadFits, ?_⟩, ?_⟩
  · rw [hSequence]
    exact hFits.2
  · rw [hLength]
    exact hMax
  · rw [encodeMessage_eq, hSame, ← hPayload, append_assoc, take_append_drop]

/-- What decodes is, as far as it is used, the encoding of what comes out. -/
theorem decode_canonical (hOk : (decode data).status = .ok) :
    FrameHeader.kSize ≤ (decode data).consumed ∧ (decode data).consumed ≤ data.length ∧
      encodeMessage (decode data).message = data.take (decode data).consumed := by
  obtain ⟨found, rest, hFound, hData⟩ := exists_encodeMessage_of_decode hOk
  rw [hData, decode_encodeMessage hFound]
  dsimp only
  rw [take_left, encodeMessage_written, length_append, length_encodeMessage]
  exact ⟨Nat.le_add_right _ _, Nat.le_add_right _ _, rfl⟩

/-- Encoding and decoding are inverse to each other.  A message of a fixed size comes
back as far as it is sent, whatever follows it; and bytes that decode are, as far as
they are used, what the encoder of its type makes of the message that comes out. -/
theorem wire_codec_bijective :
    (∀ message : Message, message.type ≠ .depthSnapshot → message.sequence < 2 ^ 64 →
      message.PayloadFits → ∀ rest, decode (encodeMessage message ++ rest) =
        { status := .ok
          consumed := (encodeMessage message).length
          message := message.written }) ∧
    ∀ data, (decode data).status = .ok →
      FrameHeader.kSize ≤ (decode data).consumed ∧ (decode data).consumed ≤ data.length ∧
        encodeMessage (decode data).message = data.take (decode data).consumed := by
  refine ⟨fun message hFixed hSequence hFits => ?_, fun data hOk => decode_canonical hOk⟩
  exact decode_encodeMessage ⟨hSequence, hFits, length_writePayload_le message hFixed⟩

/-- A rejection with its reason. -/
def sampleReject : Message where
  type := .orderRejected
  sequence := 9
  reject := { order := ⟨4⟩, account := ⟨2⟩, reason := .rateLimit, timestamp := -3 }

theorem wire_codec_bijective_reject :
    sampleReject.type ≠ .depthSnapshot ∧ sampleReject.sequence < 2 ^ 64 ∧
      decode (encodeMessage sampleReject ++ [255]) =
        { status := .ok
          consumed := (encodeMessage sampleReject).length
          message := sampleReject } := by
  have hFits : sampleReject.PayloadFits := by
    refine ⟨?_, ?_, ?_⟩ <;> decide
  exact ⟨by decide, by decide,
    wire_codec_bijective.1 sampleReject (by decide) (by decide) hFits [255]⟩

end Protocol
end ExchangeCore
