/-
  MessageBroker.Loopback.Engine — every message goes back to the client that published it.

  An engine serves one client: a published message waits in `pending`, is delivered in
  order as batch and credit allow, and is tracked until it is acknowledged, rejected
  (then it waits again, at the end) or given back by a close.
  - `handle`: one frame from the client. A refused frame changes nothing.
  - `poll`: deliver what batch and credit allow now; answers whether another poll would
    deliver more.
  - `close`: give everything back and forget what waits.
  Each step answers its increments to the shared counters.
-/

import MessageBroker.Delivery.Session
import MessageBroker.Loopback.Command
import MessageBroker.Loopback.Counters
import MessageBroker.Wire.Outbox

namespace MessageBroker.Loopback

open Wire Delivery

structure Engine where
  session : Session Bytes
  /-- Messages published and not delivered yet, oldest first. -/
  pending : List Bytes := []
  /-- Deliveries made by one poll at most. -/
  batch : Nat

structure Pass where
  session : Session Bytes
  /-- What still waits. -/
  pending : List Bytes
  outbox : Outbox
  sent : Nat
  /-- Why the session refused a delivery although it had credit. -/
  refusal : Option Error

namespace Engine

/-- A new engine; a batch of none counts as one. -/
def new (limit : Option Nat) (batch : Nat) : Engine :=
  { session := .withLimit limit, batch := max batch 1 }

def perform (e : Engine) : Command → Engine × Counters
  | .publish body => ({ e with pending := e.pending ++ [body] }, { published := 1 })
  | .acknowledge tag multiple =>
    -- each body is in memory of its own, so their sizes fit in a word together and this returns
    let (answer, session) := e.session.acknowledge tag multiple
    ({ e with session }, { acknowledged := (answer.getD (e.session.tracker.selected tag multiple)).length })
  | .reject tag =>
    match e.session.reject tag with
    | (some message, session) =>
      ({ e with session, pending := e.pending ++ [message] }, { requeued := 1 })
    | (none, session) => ({ e with session }, {})

def handle (e : Engine) (frame : Bytes) : Except Malformed (Engine × Counters) :=
  (Command.parse frame).map e.perform

/-- Deliver waiting messages, at most `left` of them and while there is credit. A message
    that is refused stays in front. -/
def deliverPending : List Bytes → Nat → Session Bytes → Outbox → Pass
  | [], _, session, outbox => ⟨session, [], outbox, 0, none⟩
  | message :: rest, left, session, outbox =>
    if left = 0 ∨ session.hasCredit = false then ⟨session, message :: rest, outbox, 0, none⟩
    else
      match session.deliver message with
      | .error e => ⟨session, message :: rest, outbox, 0, some e⟩
      | .ok (tag, session) =>
        let pass := deliverPending rest (left - 1) session (outbox.push (delivery tag message))
        { pass with sent := pass.sent + 1 }

def pass (e : Engine) (outbox : Outbox) : Pass := deliverPending e.pending e.batch e.session outbox

def ready (e : Engine) : Bool := !e.pending.isEmpty && e.session.hasCredit

/-- Deliver one batch. Answers whether another poll would deliver more. -/
def poll (e : Engine) (outbox : Outbox) : Bool × Engine × Outbox × Counters :=
  let pass := e.pass outbox
  let next := { e with session := pass.session, pending := pass.pending }
  (next.ready, next, pass.outbox, { delivered := pass.sent })

def close (e : Engine) : Engine × Counters :=
  let (cancelled, session) := e.session.close
  ({ e with session, pending := [] }, { requeued := cancelled.length })

end Engine

end MessageBroker.Loopback
