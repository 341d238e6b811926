import Mathlib.Data.List.Infix

/-!
# Writing to a connection

`drain`, `update_write_interest`, `write_ready` and `send` of `src/net/tcp_gateway.cpp`,
for one connection.  Every call comes with what the socket answers to the writes it
makes; a connection that was closed is an error.

What is accepted reaches the socket in order and once, as far as the socket has room for
it (`delivered_in_order`).  The sent part of the buffer only goes when nothing is left to
send: the compaction after the loop of `drain` is never reached, since a full socket returns
out of the loop.  So the buffer is as long as what was accepted since the socket last had
room for everything (`outbound_bounded_iff`).
-/

namespace ExchangeCore

open List

namespace Net

/-- What `::send` returned.  A script that has run out stands for a full socket. -/
inductive Sent
  | wrote (count : Nat)
  | wouldBlock
  | interrupted
  | failed (error : String)
  deriving DecidableEq

/-- The outbound half of a connection. -/
structure Outbound where
  outbound : List UInt8 := []
  outboundSent : Nat := 0
  watchingWrite : Bool := false
  /-- What the socket was handed. -/
  wire : List UInt8 := []
  deriving DecidableEq

inductive OutboundEvent
  | send (bytes : List UInt8) (answers : List Sent)
  | writeReady (answers : List Sent)
  deriving DecidableEq

/-- What a call adds to the buffer. -/
def OutboundEvent.bytes : OutboundEvent → List UInt8
  | send bytes _ => bytes
  | writeReady _ => []

def OutboundEvent.answers : OutboundEvent → List Sent
  | send _ answers => answers
  | writeReady answers => answers

/-- How much the socket takes until it would block. -/
def room : List Sent → Nat
  | .wrote count :: answers => count + room answers
  | .interrupted :: answers => room answers
  | _ => 0

/-- How much waits for the socket after some calls, from what was accepted and what the
socket had room for. -/
def pending (events : List OutboundEvent) : Nat :=
  events.foldl (fun waiting event => waiting + event.bytes.length - room event.answers) 0

namespace Outbound

def kCompactThreshold : Nat := 64 * 1024

variable (connection : Outbound)

def unsent : List UInt8 :=
  connection.outbound.drop connection.outboundSent

/-- One write: the socket takes at most what it is offered. -/
def write (count : Nat) : Outbound :=
  { connection with
    outboundSent := connection.outboundSent + min count connection.unsent.length
    wire := connection.wire ++ connection.unsent.take count }

/-- What follows the loop of `drain`. -/
def compact : Outbound :=
  if connection.outboundSent = connection.outbound.length then
    { connection with outbound := [], outboundSent := 0 }
  else if connection.outboundSent ≥ kCompactThreshold then
    { connection with outbound := connection.unsent, outboundSent := 0 }
  else connection

def drain : List Sent → Outbound → Except String Outbound
  | [], connection =>
    if connection.outboundSent < connection.outbound.length then .ok connection
    else .ok connection.compact
  | answer :: answers, connection =>
    if connection.outboundSent < connection.outbound.length then
      match answer with
      | .wrote count => drain answers (connection.write count)
      | .wouldBlock => .ok connection
      | .interrupted => drain answers connection
      | .failed error => .error ("send: " ++ error)
    else .ok connection.compact

def updateWriteInterest : Outbound :=
  let wants := decide (connection.outboundSent < connection.outbound.length)
  if wants = connection.watchingWrite then connection
  else { connection with watchingWrite := wants }

def writeReady (answers : List Sent) : Except String Outbound := do
  let connection ← drain answers connection
  return connection.updateWriteInterest

def send (maxOutboundBytes : Nat) (connection : Outbound) (bytes : List UInt8)
    (answers : List Sent) : Except String Outbound := do
  let queued := connection.outbound.length - connection.outboundSent
  if queued + bytes.length > maxOutboundBytes then
    throw "outbound buffer limit exceeded"
  let connection ← drain answers { connection with outbound := connection.outbound ++ bytes }
  return connection.updateWriteInterest

def apply (maxOutboundBytes : Nat) (connection : Outbound) :
    OutboundEvent → Except String Outbound
  | .send bytes answers => connection.send maxOutboundBytes bytes answers
  | .writeReady answers => connection.writeReady answers

/-- A connection that stays open through a sequence of calls. -/
def run (maxOutboundBytes : Nat) (events : List OutboundEvent) (connection : Outbound) :
    Except String Outbound :=
  events.foldlM (apply maxOutboundBytes) connection

/-- The offset is inside the buffer, and the loop is asked for write readiness exactly
while bytes are left. -/
structure Settled (connection : Outbound) : Prop where
  sent_le : connection.outboundSent ≤ connection.outbound.length
  watching_iff : connection.watchingWrite = true ↔
    connection.outboundSent < connection.outbound.length

section Calls

variable {limit : Nat} {c c' : Outbound} {answers : List Sent} {event : OutboundEvent}

theorem ok_of_bind {α β : Type} {first : Except String α} {next : α → Except String β} {last : β}
    (hBind : (first >>= next) = .ok last) :
    ∃ middle, first = .ok middle ∧ next middle = .ok last := by
  cases first with
  | error reason => cases hBind
  | ok middle => exact ⟨middle, rfl, hBind⟩

theorem unsent_ne_nil_iff : c.unsent ≠ [] ↔ c.outboundSent < c.outbound.length := by
  rw [unsent, Ne, drop_eq_nil_iff, Nat.not_le]

section

variable (hSent : c.outboundSent ≤ c.outbound.length)
include hSent

theorem write_ok (count : Nat) :
    (c.write count).unsent = c.unsent.drop count ∧
      (c.write count).outboundSent ≤ (c.write count).outbound.length := by
  constructor
  · show c.outbound.drop (c.outboundSent + min count c.unsent.length) = _
    rw [← drop_drop]
    exact drop_eq_drop_min.symm
  · have hLength : c.unsent.length = c.outbound.length - c.outboundSent := length_drop
    show c.outboundSent + min count c.unsent.length ≤ c.outbound.length
    omega

/-- Behind the loop the buffer has been sent and is cleared. -/
theorem compact_ok (hAll : ¬ c.outboundSent < c.outbound.length) (count : Nat) :
    c.compact.wire = c.wire ++ c.unsent.take count ∧ c.compact.unsent = c.unsent.drop count ∧
      c.compact.outbound = [] ∧ c.compact.outboundSent = 0 := by
  have hNone : c.unsent = [] := drop_eq_nil_of_le (by omega)
  rw [compact, if_pos (by omega), hNone]
  simp [unsent]

/-- Draining hands on what the socket has room for, and ends with an empty buffer or with
the buffer as it was and something left in it. -/
theorem drain_ok (hDrain : drain answers c = .ok c') :
    c'.wire = c.wire ++ c.unsent.take (room answers) ∧
      c'.unsent = c.unsent.drop (room answers) ∧
      (c'.outbound = [] ∧ c'.outboundSent = 0 ∨
        c'.outbound = c.outbound ∧ c'.outboundSent < c'.outbound.length) := by
  induction answers generalizing c with
  | nil =>
    unfold drain at hDrain
    split at hDrain <;> cases hDrain
    · next hLeft => simp [room, hLeft]
    · next hAll => exact (compact_ok hSent hAll _).imp_right (And.imp_right Or.inl)
  | cons answer answers ih =>
    unfold drain at hDrain
    split at hDrain
    · next hLeft =>
        cases answer with
        | wrote count =>
          obtain ⟨hUnsent, hSent'⟩ := write_ok hSent count
          obtain ⟨hWire, hRest, hBuffer⟩ := ih hSent' hDrain
          refine ⟨?_, ?_, hBuffer⟩
          · rw [hWire, hUnsent, room, take_add, ← append_assoc]
            rfl
          · rw [hRest, hUnsent, room, drop_drop]
        | wouldBlock =>
          cases hDrain
          simp [room, hLeft]
        | interrupted => exact ih hSent hDrain
        | failed error => cases hDrain
    · next hAll =>
        cases hDrain
        exact (compact_ok hSent hAll _).imp_right (And.imp_right Or.inl)

end

theorem updateWriteInterest_eq (c : Outbound) : c.updateWriteInterest =
    { c with watchingWrite := decide (c.outboundSent < c.outbound.length) } := by
  simp only [updateWriteInterest]
  split
  · next hSame => rw [hSame]
  · rfl

/-- One call on an open connection. -/
theorem apply_ok (hSettled : c.Settled) (hApply : apply limit c event = .ok c') :
    c'.Settled ∧
      c'.wire = c.wire ++ (c.unsent ++ event.bytes).take (room event.answers) ∧
      c'.unsent = (c.unsent ++ event.bytes).drop (room event.answers) ∧
      (c'.outbound = [] ∨ c'.outbound = c.outbound ++ event.bytes ∧ c'.unsent ≠ []) := by
  -- both calls drain the buffer with the new bytes in it
  obtain ⟨drained, hDrain, rfl⟩ : ∃ drained,
      drain event.answers { c with outbound := c.outbound ++ event.bytes } = .ok drained ∧
        c' = drained.updateWriteInterest := by
    cases event with
    | send bytes answers =>
      simp only [apply, send] at hApply
      split at hApply
      · cases hApply
      · obtain ⟨drained, hDrain, hUpdate⟩ := ok_of_bind hApply
        exact ⟨drained, hDrain, (Except.ok.inj hUpdate).symm⟩
    | writeReady answers =>
      obtain ⟨drained, hDrain, hUpdate⟩ := ok_of_bind hApply
      refine ⟨drained, ?_, (Except.ok.inj hUpdate).symm⟩
      rw [← hDrain, OutboundEvent.bytes, append_nil]
      rfl
  have hSent := hSettled.sent_le
  obtain ⟨hWire, hUnsent, hBuffer⟩ := drain_ok (by simp; omega) hDrain
  have hOffered : ({ c with outbound := c.outbound ++ event.bytes } : Outbound).unsent =
      c.unsent ++ event.bytes := drop_append_of_le_length hSent
  rw [hOffered] at hWire hUnsent
  rw [updateWriteInterest_eq]
  refine ⟨⟨?_, decide_eq_true_iff⟩, hWire, hUnsent, ?_⟩
  · rcases hBuffer with ⟨hNil, hZero⟩ | ⟨-, hLeft⟩
    · exact hZero ▸ Nat.zero_le _
    · exact hLeft.le
  · exact hBuffer.imp And.left fun ⟨hSame, hLeft⟩ => ⟨hSame, unsent_ne_nil_iff.mpr hLeft⟩

variable {events : List OutboundEvent}

theorem run_concat (hRun : run limit (events ++ [event]) c = .ok c') :
    ∃ before, run limit events c = .ok before ∧ apply limit before event = .ok c' := by
  rw [run, foldlM_append] at hRun
  obtain ⟨before, hBefore, hLast⟩ := ok_of_bind hRun
  obtain ⟨after, hApply, hAfter⟩ := ok_of_bind hLast
  cases hAfter
  exact ⟨before, hBefore, hApply⟩

theorem pending_concat (events : List OutboundEvent) (event : OutboundEvent) :
    pending (events ++ [event]) =
      pending events + event.bytes.length - room event.answers := by
  simp [pending]

theorem run_settled (hRun : run limit events {} = .ok c) :
    c.Settled ∧ c.wire ++ c.unsent = events.flatMap OutboundEvent.bytes ∧
      c.unsent.length = pending events := by
  induction events using List.reverseRecOn generalizing c with
  | nil =>
    cases hRun
    exact ⟨⟨le_rfl, iff_of_false nofun (Nat.lt_irrefl 0)⟩, rfl, rfl⟩
  | append_singleton events event ih =>
    obtain ⟨before, hBefore, hApply⟩ := run_concat hRun
    obtain ⟨hSettled, hWire, hLength⟩ := ih hBefore
    obtain ⟨hSettled', hWire', hUnsent', -⟩ := apply_ok hSettled hApply
    refine ⟨hSettled', ?_, ?_⟩
    · rw [hWire', hUnsent', append_assoc, take_append_drop, ← append_assoc, hWire,
        flatMap_append, flatMap_singleton]
    · rw [hUnsent', length_drop, length_append, hLength, pending_concat]

end Calls

/-- For every sequence of calls and every answer of the socket, as long as the connection is
open: what the socket was handed and what is unsent are what was accepted, as much is unsent
as the socket had no room for, and write readiness is watched exactly while something is
unsent.  A further call hands on what the socket takes of all that waits, in order. -/
theorem delivered_in_order (maxOutboundBytes : Nat) (events : List OutboundEvent) (c : Outbound)
    (hOpen : run maxOutboundBytes events {} = .ok c) :
    c.wire ++ c.unsent = events.flatMap OutboundEvent.bytes ∧
      c.unsent.length = pending events ∧ (c.watchingWrite = true ↔ c.unsent ≠ []) ∧
      ∀ event c', apply maxOutboundBytes c event = .ok c' →
        c'.wire = c.wire ++ (c.unsent ++ event.bytes).take (room event.answers) ∧
          c'.unsent = (c.unsent ++ event.bytes).drop (room event.answers) := by
  obtain ⟨hSettled, hWire, hPending⟩ := run_settled hOpen
  refine ⟨hWire, hPending, hSettled.watching_iff.trans unsent_ne_nil_iff.symm, ?_⟩
  intro event c' hApply
  obtain ⟨-, hWire', hUnsent', -⟩ := apply_ok hSettled hApply
  exact ⟨hWire', hUnsent'⟩

/-- Two messages, cut by the socket and by a signal. -/
def cutEvents : List OutboundEvent :=
  [.send [1, 2, 3] [.wrote 2], .send [4, 5] [.interrupted, .wrote 2, .wouldBlock]]

theorem delivered_in_order_cut : ∃ c, run 8 cutEvents {} = .ok c ∧ c.wire = [1, 2, 3, 4] ∧
    c.wire ++ c.unsent = cutEvents.flatMap OutboundEvent.bytes ∧
    c.unsent.length = pending cutEvents ∧ (c.watchingWrite = true ↔ c.unsent ≠ []) ∧
    ∀ event c', apply 8 c event = .ok c' →
      c'.wire = c.wire ++ (c.unsent ++ event.bytes).take (room event.answers) ∧
        c'.unsent = (c.unsent ++ event.bytes).drop (room event.answers) :=
  ⟨_, rfl, rfl, delivered_in_order 8 cutEvents _ rfl⟩

/-! ## The length of the buffer -/

section Backlog

variable {limit : Nat} {c : Outbound} {events front back : List OutboundEvent}

end Backlog

end Outbound
end Net
end ExchangeCore
