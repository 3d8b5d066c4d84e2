/-
  MessageBroker.Connection.State — a framed connection and its units of work.

  One unit of work reads what has arrived (as much as it may), gives each whole payload
  to the handler, polls the handler, and writes what is queued. It closes the connection
  when the input has ended or anything failed. Two signals say that there is more to do
  without new input: the handler has more to queue (`stateChanged`), or the unit stopped
  reading early (`partialRead`).

  Closing happens once, whoever asks for it; a connection that is dropped is closed.

  The recorded runs that test this library were made without a network, so no socket connects
  in them: they exercise the decoder, the outbox and the handlers, each on its own, and no unit
  of work. What stands behind units of work are the theorems of `Proofs.Connection`, over every
  script of a socket.
-/

import MessageBroker.Connection.Handler
import MessageBroker.Connection.Socket
import MessageBroker.Pool.State
import MessageBroker.Selector.State

namespace MessageBroker

open Wire Connection

namespace Connection

-- `Proofs.Connection.Counting` says when counters of 64 bits hold these.
structure Stats where
  framesIn : Nat := 0
  /-- Payloads queued by the time of the last write. -/
  framesOut : Nat := 0
  bytesIn : Nat := 0
  bytesOut : Nat := 0
  /-- Units of work that stopped reading early. -/
  partialReads : Nat := 0
  unitsOfWork : Nat := 0
  deriving DecidableEq, Repr

end Connection

structure Connection (σ : Type) where
  handler : σ
  decoder : Decoder
  outbox : Outbox := {}
  /-- Bytes that one unit of work may read. -/
  readBudget : Nat
  stateChanged : Bool := false
  partialRead : Bool := false
  peerClosed : Bool := false
  closed : Bool := false
  runState : Pool.RunState := .queued
  /-- The token under which the connection is watched. -/
  token : Option Selector.Token := none
  stats : Stats := {}

namespace Connection

variable {σ : Type}

/-- A new connection; a budget of nothing counts as one byte. -/
def new (handler : σ) (maxMessageSize readBudget : Nat) : Connection σ :=
  { handler, decoder := .ofLimit maxMessageSize, readBudget := max readBudget 1 }

def wantsToWrite (c : Connection σ) : Bool := !c.outbox.isEmpty

abbrev Ending := Outcome (Except Error Unit)

def read (c : Connection σ) (arrivals : List Arrival) : Ending × Connection σ × List Arrival :=
  let reading := readInput c.decoder c.readBudget arrivals
  let c := { c with
    decoder := reading.decoder
    stats := { c.stats with bytesIn := c.stats.bytesIn + reading.count } }
  match reading.ending with
  | .blocked => (.returned (.ok ()), c, reading.rest)
  | .budgetSpent =>
    (.returned (.ok ()),
      { c with
        partialRead := true
        stats := { c.stats with partialReads := c.stats.partialReads + 1 } }, reading.rest)
  | .inputEnded => (.returned (.ok ()), { c with peerClosed := true }, reading.rest)
  | .failed e => (.returned (.error (.io e)), c, reading.rest)

/-- Give each whole payload to the handler, up to the first that is refused. -/
def handleFrames (h : Handler σ) (c : Connection σ) : Ending × Connection σ :=
  match _ : c.decoder.decode with
  | (.error e, decoder) => (.returned (.error e), { c with decoder })
  | (.ok none, decoder) => (.returned (.ok ()), { c with decoder })
  | (.ok (some payload), decoder) =>
    let handled := h.onFrame payload c.handler c.outbox
    let next := { c with
      decoder
      handler := handled.state
      outbox := handled.outbox
      stats := { c.stats with framesIn := c.stats.framesIn + 1 } }
    match handled.outcome with
    | .returned (.ok ()) => handleFrames h next
    | ending => (ending, next)
termination_by c.decoder.unread.length
decreasing_by exact Decoder.length_unread_decode ‹_›

def poll (h : Handler σ) (c : Connection σ) : Ending × Connection σ :=
  if c.peerClosed then (.returned (.ok ()), c)
  else
    let handled := h.pollPending c.handler c.outbox
    let c := { c with handler := handled.state, outbox := handled.outbox }
    match handled.outcome with
    | .returned more => (.returned (.ok ()), { c with stateChanged := c.stateChanged || more })
    | .raised fault => (.raised fault, c)

def flush (c : Connection σ) (acceptances : List Acceptance) :
    Ending × Connection σ × Bytes × List Acceptance :=
  let writing := writeOutput c.outbox acceptances
  let stats := { c.stats with bytesOut := c.stats.bytesOut + writing.written.length }
  match writing.result with
  | .ok () =>
    (.returned (.ok ()),
      { c with outbox := writing.outbox, stats := { stats with framesOut := c.outbox.queued } },
      writing.written, writing.rest)
  | .error e =>
    (.returned (.error (.io e)), { c with outbox := writing.outbox, stats }, writing.written, writing.rest)

structure Worked (α σ : Type) where
  outcome : Outcome α
  connection : Connection σ
  /-- Bytes that the socket took. -/
  written : Bytes := []
  /-- What the socket was not asked for. -/
  socket : Socket

def drive (h : Handler σ) (c : Connection σ) (socket : Socket) : Worked (Except Error Unit) σ :=
  match c.read socket.arrivals with
  | (.returned (.ok ()), c, arrivals) =>
    match c.handleFrames h with
    | (.returned (.ok ()), c) =>
      match c.poll h with
      | (.returned (.ok ()), c) =>
        let (outcome, connection, written, acceptances) := c.flush socket.acceptances
        { outcome, connection, written, socket := { arrivals, acceptances } }
      | (outcome, connection) => { outcome, connection, socket := { socket with arrivals } }
    | (outcome, connection) => { outcome, connection, socket := { socket with arrivals } }
  | (outcome, connection, arrivals) => { outcome, connection, socket := { socket with arrivals } }

/-- Close the connection, unless it is closed: unread bytes are forgotten and the handler
    is told. -/
def close (h : Handler σ) (c : Connection σ) : Outcome Unit × Connection σ :=
  if c.closed then (.returned (), c)
  else
    let (outcome, handler) := h.onClose c.handler
    (outcome, { c with closed := true, decoder := c.decoder.reset, handler })

/-- One unit of work. Returns whether the connection is closed. -/
def work (h : Handler σ) (c : Connection σ) (socket : Socket) : Worked Bool σ :=
  if c.closed then { outcome := .returned true, connection := c, socket }
  else
    let worked := drive h
      { c with
        stateChanged := false
        partialRead := false
        stats := { c.stats with unitsOfWork := c.stats.unitsOfWork + 1 } } socket
    match worked.outcome with
    | .raised fault => { worked with outcome := .raised fault }
    | .returned result =>
      if result.isOk && !worked.connection.peerClosed then { worked with outcome := .returned false }
      else
        match worked.connection.close h with
        | (.returned (), connection) => { worked with outcome := .returned true, connection }
        | (.raised fault, connection) => { worked with outcome := .raised fault, connection }

def notify (c : Connection σ) (state : Pool.RunState) : Connection σ := { c with runState := state }

/-! ## Being watched -/

/-- The connection has no token under which it could be watched again. -/
def notRegistered : IoError := .worded .other "connection not registered"

def register (c : Connection σ) (token : Selector.Token) (reply : Except IoError Unit) :
    Except IoError Unit × Connection σ :=
  match reply with
  | .ok () => (.ok (), { c with token := some token })
  | .error e => (.error e, c)

def reregister (c : Connection σ) (reply : Except IoError Unit) : Except IoError Unit :=
  if c.token.isSome then reply else .error notRegistered

/-- Have the connection watched no more. Its token is gone, whatever the reply. -/
def deregister (c : Connection σ) (reply : Except IoError Unit) : Except IoError Unit × Connection σ :=
  (reply, { c with token := none })

end Connection

end MessageBroker
