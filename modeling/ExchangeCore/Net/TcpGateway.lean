import ExchangeCore.Lib.Framing
import ExchangeCore.Protocol.WireCodec

/-!
# Reading from a connection

`TcpGateway::read_ready` of `src/net/tcp_gateway.cpp`, for one connection: it reads
from the socket until there is nothing more, and after each read takes the messages
that have become complete.  Bytes of a message that is not all there stay in the
buffer.

The handler is what it was called with, in order; it does not close the connection.
What the outer and the inner loop return as an error is the connection that was
closed.
-/

namespace ExchangeCore
namespace Net

open Protocol List

/-- What the messages of a connection have led to. -/
structure Session where
  /-- The account the connection acts for, once it has claimed one. -/
  account : AccountId := {}
  /-- What the handler was called with. -/
  dispatched : List Message := []
  messagesReceived : Nat := 0
  /-- Why the connection was closed. -/
  disconnected : Option String := none
  deriving DecidableEq

structure Connection where
  session : Session := {}
  inbound : List UInt8 := []
  deriving DecidableEq

/-- What `recv` returned, as long as the socket was not drained. -/
inductive Recv
  /-- At least one byte. -/
  | received (first : UInt8) (more : List UInt8)
  | interrupted
  | ended
  | failed (error : String)
  deriving DecidableEq

/-- The piece of the stream that came with the answer. -/
def Recv.piece : Recv → Option (List UInt8)
  | .received first more => some (first :: more)
  | _ => none

/-- The peer neither hung up nor did the call fail. -/
def Recv.steady : Recv → Bool
  | .received _ _ => true
  | .interrupted => true
  | .ended => false
  | .failed _ => false

/-- The account a message is meant for.  Only commands are asked for one. -/
def claimedAccount (message : Message) : AccountId :=
  if message.newOrder.account.valid then message.newOrder.account
  else if message.cancelOrder.account.valid then message.cancelOrder.account
  else message.replaceOrder.account

namespace Session

variable (session : Session)

def close (reason : String) : Session :=
  { session with disconnected := some reason }

/-- There is no marker in the stream to go on from. -/
def malformed (session : Session) : Session := session.close "malformed message"

def dispatch (message : Message) : Session :=
  { session with dispatched := session.dispatched ++ [message] }

/-- Count a message, hold it against the account of the connection and hand it on. -/
def handle (message : Message) : Except Session Session :=
  let session := { session with messagesReceived := session.messagesReceived + 1 }
  let claimed := claimedAccount message
  if claimed.valid then
    if !session.account.valid then
      .ok ({ session with account := claimed }.dispatch message)
    else if session.account ≠ claimed then .error (session.close "connection changed account")
    else .ok (session.dispatch message)
  else .ok (session.dispatch message)

/-- The inner loop.  Every message uses up bytes, so it ends within as many passes
as there are bytes. -/
def takeMessages (inbound : List UInt8) : Nat → Nat → Session → Except Session (Session × Nat)
  | 0, offset, session => .ok (session, offset)
  | fuel + 1, offset, session =>
    let decoded := decode (inbound.drop offset)
    match decoded.status with
    | .incomplete => .ok (session, offset)
    | .unreadable => .error session.malformed
    | .ok => do
      let session ← session.handle decoded.message
      takeMessages inbound fuel (offset + decoded.consumed) session

end Session

variable (connection : Connection)

namespace Connection

/-- One pass of the outer loop. -/
def receive (bytes : List UInt8) : Except Session Connection := do
  let inbound := connection.inbound ++ bytes
  let (session, offset) ← connection.session.takeMessages inbound inbound.length 0
  return { session := session, inbound := inbound.drop offset }

/-- The answers are those of one call, up to the one that the socket is drained. -/
def readReady : List Recv → Connection → Except Session Connection
  | [], connection => .ok connection
  | .received first more :: answers, connection => do
    let connection ← connection.receive (first :: more)
    readReady answers connection
  | .interrupted :: answers, connection => readReady answers connection
  | .ended :: _, connection => .error (connection.session.close "peer closed the connection")
  | .failed error :: _, connection => .error (connection.session.close ("recv: " ++ error))

end Connection

/-- A connection from its start, through all calls that find it readable. -/
def serve (calls : List (List Recv)) : Except Session Connection :=
  calls.foldlM (fun connection answers => connection.readReady answers) {}

/-- The session of a connection that is still open, or of one that was closed. -/
def openOrClosed : Except Session Session → Session
  | .ok session => session
  | .error session => session

/-- What has become of the connection, whether it is still open or not. -/
def sessionOf (result : Except Session Connection) : Session :=
  openOrClosed (Connection.session <$> result)

/-! ## Messages as frames -/

/-- The verdict on the message at the front. -/
def verdict (data : List UInt8) : Verdict UInt8 Message :=
  match (decode data).status with
  | .incomplete => .incomplete
  | .unreadable => .unreadable
  | .ok => .frame (decode data).message (data.drop (decode data).consumed)

variable {data : List UInt8} {calls : List (List Recv)} {message : Message} {session : Session}

theorem verdict_of_incomplete (hStatus : (decode data).status = .incomplete) :
    verdict data = .incomplete := by
  rw [verdict, hStatus]

theorem verdict_of_unreadable (hStatus : (decode data).status = .unreadable) :
    verdict data = .unreadable := by
  rw [verdict, hStatus]

theorem verdict_of_ok (hStatus : (decode data).status = .ok) :
    verdict data = .frame (decode data).message (data.drop (decode data).consumed) := by
  rw [verdict, hStatus]

/-- The wire format cuts a stream into messages. -/
def framing : Framing UInt8 Message where
  next := verdict
  next_nil := rfl
  shrinks := by
    intro data message rest hFrame
    cases hStatus : (decode data).status with
    | incomplete => cases (verdict_of_incomplete hStatus).symm.trans hFrame
    | unreadable => cases (verdict_of_unreadable hStatus).symm.trans hFrame
    | ok =>
      cases (verdict_of_ok hStatus).symm.trans hFrame
      obtain ⟨hHeader, hEnough, -⟩ := decode_canonical hStatus
      have hSize : FrameHeader.kSize = 12 := rfl
      rw [length_drop]
      omega
  frame_append := by
    intro data message rest hFrame more
    cases hStatus : (decode data).status with
    | incomplete => cases (verdict_of_incomplete hStatus).symm.trans hFrame
    | unreadable => cases (verdict_of_unreadable hStatus).symm.trans hFrame
    | ok =>
      cases (verdict_of_ok hStatus).symm.trans hFrame
      have hSame : decode (data ++ more) = decode data :=
        decode_append (by rw [hStatus]; decide) more
      rw [verdict_of_ok (by rw [hSame]; exact hStatus), hSame,
        drop_append_of_le_length (decode_canonical hStatus).2.1]
  unreadable_append := by
    intro data hUnreadable more
    cases hStatus : (decode data).status with
    | incomplete => cases (verdict_of_incomplete hStatus).symm.trans hUnreadable
    | unreadable =>
      refine verdict_of_unreadable ?_
      rw [decode_append (by rw [hStatus]; decide) more]
      exact hStatus
    | ok => cases (verdict_of_ok hStatus).symm.trans hUnreadable

namespace Session

/-- The inner loop drains the buffer from its offset on. -/
theorem takeMessages_eq (inbound : List UInt8) (fuel offset : Nat) (session : Session) :
    (do
      let (session, offset) ← session.takeMessages inbound fuel offset
      return (session, inbound.drop offset)) =
    framing.drain Session.handle Session.malformed fuel session (inbound.drop offset) := by
  induction fuel generalizing offset session with
  | zero => rfl
  | succ fuel ih =>
    rw [takeMessages, Framing.drain]
    dsimp only [framing]
    cases hStatus : (decode (inbound.drop offset)).status with
    | incomplete => rw [verdict_of_incomplete hStatus]; rfl
    | unreadable => rw [verdict_of_unreadable hStatus]; rfl
    | ok =>
      rw [verdict_of_ok hStatus, drop_drop]
      dsimp only
      cases session.handle (decode (inbound.drop offset)).message with
      | error session => rfl
      | ok session => exact ih (offset + (decode (inbound.drop offset)).consumed) session

end Session

namespace Connection

/-- What is held between two pieces of the stream. -/
def held : Session × List UInt8 :=
  (connection.session, connection.inbound)

/-- Add a piece of the stream to what is held. -/
def feed (held : Session × List UInt8) (piece : List UInt8) :
    Except Session (Session × List UInt8) :=
  framing.feed Session.handle Session.malformed held piece

theorem receive_eq (bytes : List UInt8) :
    held <$> connection.receive bytes = feed connection.held bytes := by
  have hDrain := Session.takeMessages_eq (connection.inbound ++ bytes)
    (connection.inbound ++ bytes).length 0 connection.session
  rw [drop_zero] at hDrain
  rw [feed, Framing.feed, Framing.drainAll, held, ← hDrain, receive]
  dsimp only
  cases connection.session.takeMessages (connection.inbound ++ bytes)
    (connection.inbound ++ bytes).length 0 with
  | error session => rfl
  | ok taken => rfl

theorem readReady_eq {answers : List Recv} (hSteady : ∀ answer ∈ answers, answer.steady = true)
    (connection : Connection) :
    held <$> connection.readReady answers =
      (answers.filterMap Recv.piece).foldlM feed connection.held := by
  induction answers generalizing connection with
  | nil => rfl
  | cons answer answers ih =>
    obtain ⟨hFirst, hOthers⟩ := forall_mem_cons.mp hSteady
    cases answer with
    | received first more =>
      have hReceive := connection.receive_eq (first :: more)
      have hPiece : Recv.piece (.received first more) = some (first :: more) := rfl
      rw [readReady, filterMap_cons_some hPiece, foldlM_cons, ← hReceive]
      cases connection.receive (first :: more) with
      | error session => rfl
      | ok next => exact ih hOthers next
    | interrupted =>
      rw [readReady, filterMap_cons_none rfl]
      exact ih hOthers connection
    | ended => cases hFirst
    | failed error => cases hFirst

end Connection

/-- The bytes that arrive in a number of calls. -/
def streamOf (calls : List (List Recv)) : List UInt8 :=
  (calls.flatten.filterMap Recv.piece).flatten

/-- The messages of a stream, decoded from the front of the whole of it, and whether
something unreadable follows them. -/
def messagesOf (stream : List UInt8) : List Message × Bool :=
  framing.frames stream.length stream

section

variable (hSteady : ∀ answers ∈ calls, ∀ answer ∈ answers, answer.steady = true)
include hSteady

theorem foldlM_readReady (connection : Connection) :
    Connection.held <$> calls.foldlM (fun connection answers => connection.readReady answers)
        connection =
      (calls.flatten.filterMap Recv.piece).foldlM Connection.feed connection.held := by
  induction calls generalizing connection with
  | nil => rfl
  | cons answers calls ih =>
    obtain ⟨hFirst, hOthers⟩ := forall_mem_cons.mp hSteady
    have hRead := connection.readReady_eq hFirst
    rw [flatten_cons, filterMap_append, foldlM_append, foldlM_cons, ← hRead]
    cases connection.readReady answers with
    | error session => rfl
    | ok next => exact ih hOthers next

/-- What becomes of a connection is what becomes of the messages in its stream. -/
theorem serve_eq :
    Connection.session <$> serve calls = (do
      let session ← (messagesOf (streamOf calls)).1.foldlM Session.handle {}
      if (messagesOf (streamOf calls)).2 then .error session.malformed else .ok session) := by
  have hPieces : Connection.held <$> serve calls =
      (calls.flatten.filterMap Recv.piece).foldlM Connection.feed ({}, []) :=
    foldlM_readReady hSteady {}
  have hWhole : (calls.flatten.filterMap Recv.piece).foldlM Connection.feed ({}, []) =
      framing.drainAll Session.handle Session.malformed {} (streamOf calls) :=
    framing.foldlM_feed Session.handle Session.malformed _ [] (calls.flatten.filterMap Recv.piece)
  calc Connection.session <$> serve calls = Prod.fst <$> (Connection.held <$> serve calls) := by
        cases serve calls <;> rfl
    _ = Prod.fst <$> framing.drainAll Session.handle Session.malformed {} (streamOf calls) := by
        rw [hPieces, hWhole]
    _ = _ := framing.map_drain Session.handle Session.malformed (streamOf calls).length _
        (streamOf calls)

end

/-! ## One account -/

/-- The account a connection acts for after these messages, if it acted for the
given one before. -/
def boundAccount (account : AccountId) (messages : List Message) : AccountId :=
  if account.valid then account
  else ((messages.map claimedAccount).find? Id.valid).getD account

/-- The message claims no other account than this one. -/
def speaksFor (account : AccountId) (message : Message) : Bool :=
  !(claimedAccount message).valid || claimedAccount message == account

theorem boundAccount_cons (account : AccountId) (message : Message) (messages : List Message) :
    boundAccount account (message :: messages) =
      boundAccount (boundAccount account [message]) messages := by
  unfold boundAccount
  by_cases hBound : account.valid = true
  · simp [hBound]
  by_cases hClaims : (claimedAccount message).valid = true
  · simp [hBound, hClaims]
  · simp [hBound, hClaims]

/-- The account of a message that claims one, and of the connection with it. -/
theorem boundAccount_of_claims (hClaims : (claimedAccount message).valid = true)
    (account : AccountId) (messages : List Message) :
    boundAccount account (message :: messages) =
      if account.valid then account else claimedAccount message := by
  simp [boundAccount, hClaims]

theorem speaksFor_cons (account : AccountId) (message : Message) (messages : List Message) :
    speaksFor (boundAccount account (message :: messages)) message =
      speaksFor (boundAccount account [message]) message := by
  by_cases hClaims : (claimedAccount message).valid = true
  · rw [boundAccount_of_claims hClaims, boundAccount_of_claims hClaims]
  · simp [speaksFor, hClaims]

/-- A message is handed on if it speaks for the account of the connection, which it
may have been the first to claim. -/
theorem handle_of_speaks
    (hSpeaks : speaksFor (boundAccount session.account [message]) message = true) :
    session.handle message = .ok
      { session with
        account := boundAccount session.account [message]
        dispatched := session.dispatched ++ [message]
        messagesReceived := session.messagesReceived + 1 } := by
  unfold Session.handle
  by_cases hClaims : (claimedAccount message).valid = true
  · rw [boundAccount_of_claims hClaims] at hSpeaks ⊢
    by_cases hBound : session.account.valid = true
    · rw [if_pos hBound] at hSpeaks ⊢
      have hSame : claimedAccount message = session.account := by
        simpa [speaksFor, hClaims] using hSpeaks
      simp [hBound, hSame, Session.dispatch]
    · simp [hClaims, hBound, Session.dispatch]
  · simp [hClaims, boundAccount, Session.dispatch]

/-- Otherwise the connection is closed, and keeps its account. -/
theorem handle_of_not_speaks
    (hSpeaks : ¬ speaksFor (boundAccount session.account [message]) message = true) :
    session.handle message = .error
      { session with
        messagesReceived := session.messagesReceived + 1
        disconnected := some "connection changed account" } ∧
      session.account.valid = true ∧
      boundAccount session.account [message] = session.account := by
  have hClaims : (claimedAccount message).valid = true := by
    by_contra hNot
    exact hSpeaks (by simp [speaksFor, hNot])
  have hBound : session.account.valid = true := by
    by_contra hNot
    exact hSpeaks (by simp [boundAccount_of_claims hClaims, hNot, speaksFor])
  rw [boundAccount_of_claims hClaims, if_pos hBound] at hSpeaks ⊢
  have hOther : session.account ≠ claimedAccount message := by
    intro hSame
    exact hSpeaks (by simp [speaksFor, hSame])
  refine ⟨?_, hBound, rfl⟩
  simp [Session.handle, hClaims, hBound, hOther, Session.close]

/-- Messages are handed on up to the first that claims another account than the first
one claimed. -/
theorem foldlM_handle (messages : List Message) (session : Session) :
    messages.foldlM Session.handle session =
      let kept := messages.takeWhile (speaksFor (boundAccount session.account messages))
      if kept.length = messages.length then
        .ok { session with
          account := boundAccount session.account messages
          dispatched := session.dispatched ++ messages
          messagesReceived := session.messagesReceived + messages.length }
      else
        .error { session with
          account := boundAccount session.account messages
          dispatched := session.dispatched ++ kept
          messagesReceived := session.messagesReceived + kept.length + 1
          disconnected := some "connection changed account" } := by
  induction messages generalizing session with
  | nil => simp [boundAccount, pure, Except.pure]
  | cons message messages ih =>
    rw [foldlM_cons]
    have hFirst := speaksFor_cons session.account message messages
    by_cases hSpeaks : speaksFor (boundAccount session.account [message]) message = true
    · rw [handle_of_speaks hSpeaks]
      dsimp only
      rw [takeWhile_cons_of_pos (hFirst.trans hSpeaks),
        boundAccount_cons session.account message messages]
      refine (ih _).trans ?_
      simp [Nat.add_assoc, Nat.add_comm 1]
    · obtain ⟨hClosed, hBound, hSame⟩ := handle_of_not_speaks hSpeaks
      rw [hClosed]
      dsimp only
      rw [takeWhile_cons_of_neg (by rw [hFirst]; exact hSpeaks),
        boundAccount_cons session.account message messages, hSame, boundAccount, if_pos hBound,
        if_neg (by simp)]
      simp [bind, Except.bind]

/-- The first valid account that is claimed in these messages. -/
def firstAccount (messages : List Message) : AccountId :=
  ((messages.map claimedAccount).find? Id.valid).getD {}

/-- The messages before the first one that claims another account than the first one
claimed. -/
def sameAccount (messages : List Message) : List Message :=
  messages.takeWhile (speaksFor (firstAccount messages))

theorem serve_dispatches (hSteady : ∀ answers ∈ calls, ∀ answer ∈ answers, answer.steady = true)
    {messages : List Message} {unreadable : Bool}
    (hMessages : messagesOf (streamOf calls) = (messages, unreadable)) :
    (sessionOf (serve calls)).dispatched = sameAccount messages ∧
      (sessionOf (serve calls)).disconnected =
        if (sameAccount messages).length < messages.length then some "connection changed account"
        else if unreadable then some "malformed message"
        else none := by
  have hServe := serve_eq hSteady
  have hHandled := foldlM_handle messages {}
  have hKept : messages.takeWhile (speaksFor (boundAccount {} messages)) =
      sameAccount messages := rfl
  have hPart : (sameAccount messages).length ≤ messages.length :=
    (List.takeWhile_prefix _).length_le
  rw [hMessages] at hServe
  dsimp only at hServe hHandled
  rw [hKept] at hHandled
  rw [hHandled] at hServe
  by_cases hAll : (sameAccount messages).length = messages.length
  · have hWhole : sameAccount messages = messages :=
      (List.takeWhile_prefix _).eq_of_length hAll
    rw [if_pos hAll] at hServe
    rw [sessionOf, hServe, hWhole, if_neg (Nat.lt_irrefl _)]
    cases unreadable with
    | true => exact ⟨rfl, rfl⟩
    | false => exact ⟨rfl, rfl⟩
  · rw [if_neg hAll] at hServe
    rw [sessionOf, hServe, if_pos (by omega)]
    exact ⟨rfl, rfl⟩

/-- How the stream is cut does not matter.  The messages handed on are those of the
whole stream up to the first that claims another account than the first one claimed;
there the connection is closed, and otherwise where the stream cannot be read. -/
theorem reads_alike_however_cut {calls calls' : List (List Recv)}
    (hSteady : ∀ answers ∈ calls, ∀ answer ∈ answers, answer.steady = true)
    (hSteady' : ∀ answers ∈ calls', ∀ answer ∈ answers, answer.steady = true)
    (hStream : streamOf calls = streamOf calls') :
    sessionOf (serve calls) = sessionOf (serve calls') ∧
    (sessionOf (serve calls)).dispatched = sameAccount (messagesOf (streamOf calls)).1 ∧
    ((sessionOf (serve calls)).disconnected =
      if (sameAccount (messagesOf (streamOf calls)).1).length <
          (messagesOf (streamOf calls)).1.length then some "connection changed account"
      else if (messagesOf (streamOf calls)).2 then some "malformed message"
      else none) ∧
    ∀ message ∈ (sessionOf (serve calls)).dispatched,
      ∀ message' ∈ (sessionOf (serve calls)).dispatched,
        (claimedAccount message).valid = true → (claimedAccount message').valid = true →
          claimedAccount message = claimedAccount message' := by
  obtain ⟨hDispatched, hDisconnected⟩ := serve_dispatches hSteady
    (show messagesOf (streamOf calls) = (_, _) from rfl)
  refine ⟨?_, hDispatched, hDisconnected, ?_⟩
  · have hServe := serve_eq hSteady
    rw [hStream, ← serve_eq hSteady'] at hServe
    rw [sessionOf, sessionOf, hServe]
  · intro message hMessage message' hMessage' hClaims hClaims'
    rw [hDispatched] at hMessage hMessage'
    have hFirst : ∀ message ∈ sameAccount (messagesOf (streamOf calls)).1,
        (claimedAccount message).valid = true →
          claimedAccount message = firstAccount (messagesOf (streamOf calls)).1 := by
      intro message hMessage hClaims
      have hSpeaks := List.all_eq_true.mp List.all_takeWhile message hMessage
      simpa [speaksFor, hClaims] using hSpeaks
    rw [hFirst message hMessage hClaims, hFirst message' hMessage' hClaims']

/-- Two cancels, the second for another account. -/
def sampleStream : List UInt8 :=
  encodeCancel 1 { id := ⟨7⟩, account := ⟨3⟩, instrument := ⟨1⟩ } ++
    encodeCancel 2 { id := ⟨8⟩, account := ⟨4⟩, instrument := ⟨1⟩ }

/-- The stream in one read. -/
def wholeReads : List (List Recv) := [[.received 24 sampleStream.tail]]

/-- The stream in two calls, cut in the account of the first message. -/
def cutReads : List (List Recv) :=
  [[.received 24 ((sampleStream.take 20).tail)], [.interrupted, .received 3 (sampleStream.drop 21)]]

theorem reads_alike_however_cut_sample :
    streamOf wholeReads = streamOf cutReads ∧
      sessionOf (serve wholeReads) = sessionOf (serve cutReads) ∧
      (sessionOf (serve wholeReads)).dispatched.length = 1 ∧
      (sessionOf (serve wholeReads)).disconnected = some "connection changed account" := by
  have hStream : streamOf wholeReads = streamOf cutReads := by decide
  obtain ⟨hSame, hDispatched, hDisconnected, -⟩ :=
    @reads_alike_however_cut wholeReads cutReads (by decide) (by decide) hStream
  refine ⟨hStream, hSame, ?_, ?_⟩
  · rw [hDispatched]
    decide
  · rw [hDisconnected]
    decide

end Net
end ExchangeCore
