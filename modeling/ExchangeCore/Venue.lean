import ExchangeCore.Journal.AppendLog
import ExchangeCore.Journal.Writer
import ExchangeCore.Protocol.Messages

/-!
# The venue

`src/venue.cpp`: order entry, matching, risk, the journal and market data in one
place.  `start` opens the journal and registers the configured instruments, `handle`
takes one message from order entry to the engine and sends what comes of it, and
`stop` closes the journal.

The gateway and the feed are seen from here only as messages in and bytes out, and
by whether they can be opened.  The engine's journal carries the log of what it was
offered.
-/

namespace ExchangeCore

open Protocol

structure VenueConfig where
  /-- Absent runs the venue without durability. -/
  journal : Option WriterConfig := none
  instruments : List Instrument := []
  /-- Applied to every account that trades. -/
  defaultLimits : AccountLimits := {}
  defaultControls : InstrumentControls := {}
  /-- Zero publishes only the touch. -/
  publishedDepth : Nat := 0

structure Venue where
  config : VenueConfig
  engine : MatchingEngine (Logged JournalWriter) := {}
  feedSequence : Nat := 0
  commandsProcessed : Nat := 0
  lastError : String := ""
  /-- Replies, each with the connection it goes to. -/
  sent : List (Nat × List UInt8) := []
  /-- Datagrams handed to the market data feed. -/
  published : List (List UInt8) := []

namespace Venue

/-! ## Starting and stopping -/

variable (venue : Venue)

/-- Open the journal, if there is to be one, and attach it. -/
def openJournal (disk : Disk) : Venue × Bool :=
  match venue.config.journal with
  | none => (venue, true)
  | some config =>
    let (writer, opened) := ({ config := config, disk := disk } : JournalWriter).openJournal
    if !opened then ({ venue with lastError := writer.lastError }, false)
    else ({ venue with engine := { venue.engine with journal := some ⟨writer, []⟩ } }, true)

/-- Register the instruments one after the other; `clock` gives the readings. -/
def register (venue : Venue) (clock : Nat → Int) : List Instrument → Venue × Bool
  | [] => (venue, true)
  | instrument :: instruments =>
    let (engine, added) := venue.engine.addInstrument instrument (clock 0)
    if !added then
      ({ venue with
          engine := engine
          lastError := "could not register instrument " ++
            String.ofList (instrument.symbol.map fun byte => Char.ofNat byte.toNat) },
        false)
    else
      let engine := engine.onRisk fun risk =>
        risk.configureInstrument instrument.id venue.config.defaultControls
      register { venue with engine := engine } (fun i => clock (i + 1)) instruments

/-- The feed and the gateway come last. -/
def listen (feed gateway : CallResult) : Venue × Bool :=
  match feed with
  | .failed error => ({ venue with lastError := error }, false)
  | .done =>
    match gateway with
    | .failed error => ({ venue with lastError := error }, false)
    | .done => (venue, true)

/-- Attach the venue's own risk engine and kill switch. -/
def attach (risk : RiskEngine) (kill : KillSwitch) : Venue :=
  { venue with engine := { venue.engine with risk := some risk, kill := some kill } }

def start (disk : Disk) (risk : RiskEngine) (kill : KillSwitch)
    (clock : Nat → Int) (feed gateway : CallResult) : Venue × Bool :=
  let (venue, opened) := venue.openJournal disk
  if !opened then (venue, false)
  else
    let (venue, registered) := (venue.attach risk kill).register clock venue.config.instruments
    if !registered then (venue, false) else venue.listen feed gateway

def stop : Venue :=
  { venue with
    engine := { venue.engine with
      journal := venue.engine.journal.map fun log => { log with journal := log.journal.close } } }

/-! ## Messages -/

/-- A reply goes to the connection whose command is being processed. -/
def sendSession (connection : Nat) (bytes : List UInt8) : Venue :=
  if connection ≠ 0 then { venue with sent := venue.sent ++ [(connection, bytes)] } else venue

/-- A datagram takes the next number of the feed. -/
def publish (encode : Nat → List UInt8) : Venue :=
  { venue with
    feedSequence := venue.feedSequence + 1
    published := venue.published ++ [encode (venue.feedSequence + 1)] }

/-- The acknowledgement of what has become of an order. -/
def ackOf (order : Order) (timestamp : Int) : OrderAck where
  order := order.id
  account := order.account
  instrument := order.instrument
  filled := order.filled
  remaining := order.remaining
  timestamp := timestamp

/-- One call that the engine makes on the venue as its listener; `now` is read for
it. -/
def listenTo (connection : Nat) (now : Int) : Notice → Venue
  | .orderAccepted _ order =>
    venue.sendSession connection (encodeAccepted order.sequence (ackOf order order.acceptedAt))
  | .orderRejected sequence command reason =>
    venue.sendSession connection (encodeRejected sequence
      { order := command.id, account := command.account, reason := reason, timestamp := now })
  | .orderCancelled sequence order =>
    venue.sendSession connection (encodeCancelled sequence (ackOf order now))
  | .orderReplaced sequence _ amended =>
    venue.sendSession connection (encodeReplaced sequence (ackOf amended now))
  | .fills sequence fills =>
    fills.foldl (fun venue fill =>
      (venue.sendSession connection (encodeExecution sequence fill)).publish
        fun number => encodeTrade number fill) venue

def publishMarketData (instrument : InstrumentId) : Venue :=
  match venue.engine.bookFor instrument with
  | none => venue
  | some book =>
    if venue.config.publishedDepth = 0 then
      venue.publish fun number => encodeTopOfBook number book.topOfBook
    else venue.publish fun number => encodeDepth number (book.depth venue.config.publishedDepth)

/-- The engine has processed a command for an instrument: its listeners hear of it,
and the book is published. -/
def report (connection : Nat) (now : Int) (engine : MatchingEngine (Logged JournalWriter))
    (instrument : InstrumentId) : Venue :=
  let venue := engine.notices.foldl (fun venue notice => venue.listenTo connection now notice)
    { venue with engine := engine }
  if instrument.valid then venue.publishMarketData instrument else venue

/-- Every account that trades is given the configured limits on first sight. -/
def withLimits (account : AccountId) : MatchingEngine (Logged JournalWriter) :=
  if (venue.engine.limitsFor account).isNone then
    venue.engine.onRisk fun risk => risk.configure account venue.config.defaultLimits
  else venue.engine

/-- A message from a connection.  The engine reads the clock at `now`, the venue at
`answered` for its reply. -/
def handle (connection : Nat) (message : Message) (now answered : Int) : Venue :=
  let venue := { venue with commandsProcessed := venue.commandsProcessed + 1 }
  match message.type with
  | .newOrder =>
    venue.report connection answered
      ((venue.withLimits message.newOrder.account).submit message.newOrder now).1
      message.newOrder.instrument
  | .cancelOrder =>
    venue.report connection answered (venue.engine.cancel message.cancelOrder now).1
      message.cancelOrder.instrument
  | .replaceOrder =>
    venue.report connection answered (venue.engine.replace message.replaceOrder now).1
      message.replaceOrder.instrument
  -- Session and market data messages are things the venue sends, not things it accepts.
  | _ => venue

end Venue
end ExchangeCore
