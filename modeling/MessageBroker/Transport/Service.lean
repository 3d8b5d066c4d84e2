/-
  MessageBroker.Transport.Service — a transport at work: the selector's thread, the pool,
  the connections, and whoever shuts it down.

  A service goes on by atomic steps of its threads (`Act`), in any order. Connections are
  numbered as they are accepted. What the network delivers waits in a connection's
  inbox until a unit of work reads it; what a socket takes is added to what the peer was
  sent.

  The selector's thread looks whether it is to go on, then accepts connections,
  dispatches ready ones and takes returned ones, and looks again. When it is to stop, it
  refuses further offers and closes every connection it has. A fault raised on that
  thread stops it in the same way.
-/

import MessageBroker.Connection.State
import MessageBroker.Pool.Step
import MessageBroker.Transport.Config
import MessageBroker.Transport.Shutdown

namespace MessageBroker.Transport

open Network Connection
open Pool (Call Reply)

/-- Where the selector's thread stands; `faulty` if a fault brought it there. -/
inductive ThreadStage where
  /-- About to look whether it is to go on. -/
  | looking
  | serving
  /-- About to refuse offers. -/
  | shutting (faulty : Bool)
  /-- About to close what it has. -/
  | draining (faulty : Bool)
  | ended (faulty : Bool)
  deriving DecidableEq, Repr

structure Served (σ : Type) where
  connection : Connection σ
  /-- What has arrived and is not read. -/
  inbox : List Arrival := []
  /-- Every byte that the peer was sent. -/
  sent : Wire.Bytes := []

inductive Act (σ : Type) where
  /-- The network: something arrives for a connection. -/
  | arrive (c : Nat) (arrival : Arrival)
  /-- The selector's thread looks, shuts or drains, or has served long enough. -/
  | turn
  /-- The selector's thread accepts a connection for this handler. -/
  | accept (handler : σ)
  /-- The selector's thread learns that a token is ready. -/
  | ready (token : Selector.Token)
  /-- The selector's thread takes a returned connection and has it watched. -/
  | takeReturn (reply : Except IoError Unit)
  /-- A worker; a unit of work finds that the socket accepts this. -/
  | worker (w : Nat) (acceptances : List Acceptance)
  /-- A worker goes by a reading of the gauge that is out of date. -/
  | misread (w : Nat) (busy : Bool)
  /-- A caller of the pool's `close`. -/
  | poolCaller (i : Nat)
  | callShutdown
  /-- A caller of `shutdown`. -/
  | shutdown (i : Nat)

structure Service (σ : Type) where
  config : Config
  listening : Endpoint
  handler : Handler σ
  /-- Every connection accepted so far, by number. -/
  served : List (Served σ) := []
  selector : Selector.State Nat := {}
  thread : ThreadStage := .looking
  pool : Pool.State Nat
  lifecycle : Lifecycle := {}
  /-- What the selector reported, oldest first. -/
  warnings : List (Selector.Report Nat) := []

namespace Service

variable {σ : Type}

/-- Start a service; `listening` says how the host answered the wish to listen. -/
def start (config : Config) (handler : Handler σ) (listening : Except IoError Endpoint) :
    Except Error (Service σ) := do
  config.validate.mapError fun f => Error.invalidConfig f.message
  match listening with
  | .ok listening =>
    let phase ← Phase.initialising.move .active
    return { config, listening, handler, pool := .ofSize config.workers.toNat, lifecycle := { phase } }
  | .error e => throw (.io e)

def phase (s : Service σ) : Phase := s.lifecycle.phase

def setServed (s : Service σ) (c : Nat) (served : Served σ) : Service σ :=
  { s with served := s.served.set c served }

def modify (s : Service σ) (c : Nat) (f : Connection σ → Connection σ) : Service σ :=
  { s with served := s.served.modify c fun served => { served with connection := f served.connection } }

def close (s : Service σ) (c : Nat) : Outcome Unit × Service σ :=
  match s.served[c]? with
  | none => (.returned (), s)
  | some served =>
    let (outcome, connection) := served.connection.close s.handler
    (outcome, s.setServed c { served with connection })

/-! ## Workers -/

def unit (s : Service σ) (c : Nat) (acceptances : List Acceptance) : Reply × Service σ :=
  match s.served[c]? with
  | none => (.returned true, s)
  | some served =>
    let worked := served.connection.work s.handler { arrivals := served.inbox, acceptances }
    (worked.outcome,
      s.setServed c
        { connection := worked.connection
          inbox := worked.socket.arrivals
          sent := served.sent ++ worked.written })

/-- Answer a call that the pool makes, other than the unit of work itself. -/
def answer (s : Service σ) (c : Nat) : Call → Reply × Service σ
  | .notify state => (.returned true, s.modify c (·.notify state))
  | .work => (.returned true, s)
  | .changed => (.returned ((s.served[c]?).any (·.connection.stateChanged)), s)
  | .partialRead => (.returned ((s.served[c]?).any (·.connection.partialRead)), s)
  | .close =>
    match s.close c with
    | (.returned (), s) => (.returned true, s)
    | (.raised fault, s) => (.raised fault, s)
  | .handOver =>
    match s.selector.offer c with
    | (true, selector) => (.returned true, { s with selector })
    | (false, _) =>
      match s.close c with
      | (.returned (), s) => (.returned true, s)
      | (.raised fault, s) => (.raised fault, s)

def stepWorker (s : Service σ) (w : Nat) (acceptances : List Acceptance) : Service σ :=
  match s.pool.stages[w]? with
  | some (.working c) =>
    let (reply, s) := s.unit c acceptances
    { s with pool := s.pool.step w reply }
  | _ =>
    match s.pool.nextCall w with
    | some (c, call) =>
      let (reply, s) := s.answer c call
      { s with pool := s.pool.step w reply }
    | none => { s with pool := s.pool.step w (.returned true) }

/-! ## The selector's thread -/

def closeOnThread (s : Service σ) (c : Nat) : Service σ :=
  match s.close c with
  | (.returned (), s) => s
  | (.raised _, s) => { s with thread := .shutting true }

/-- Put a connection on the pool's queue, and close it if the pool is closed. -/
def dispatch (s : Service σ) (c : Nat) : Service σ :=
  let s := if s.pool.isOpen then s.modify c (·.notify .queued) else s
  match s.pool.schedule c (.returned true) with
  | (.rejected, pool) => closeOnThread { s with pool } c
  | (_, pool) => { s with pool }

def accept (s : Service σ) (handler : σ) : Service σ :=
  let connection := Connection.new handler s.config.maxMessageSize.toNat s.config.readBudget.toNat
  dispatch { s with served := s.served ++ [{ connection }] } s.served.length

def ready (s : Service σ) (token : Selector.Token) : Service σ :=
  match s.selector.ready token with
  | (none, _) => s
  | (some c, selector) => dispatch { s with selector } c

def takeReturn (s : Service σ) (reply : Except IoError Unit) : Service σ :=
  match s.selector.returned with
  | [] => s
  | c :: _ =>
    match s.served[c]? with
    | none => { s with selector := s.selector.takeReturn none false }
    | some served =>
      let held := served.connection.token
      let watch := s.selector.watchFor held
      let (result, connection) :=
        if watch.anew then served.connection.register watch.token reply
        else (served.connection.reregister reply, served.connection)
      let s := s.setServed c { served with connection }
      match result with
      | .ok () => { s with selector := s.selector.takeReturn held true }
      | .error e =>
        closeOnThread
          { s with
            selector := s.selector.takeReturn held false
            warnings := s.warnings ++ [.cannotWatch c e] } c

def closeAll (s : Service σ) : List Nat → Bool × Service σ
  | [] => (false, s)
  | c :: rest =>
    match (s.modify c fun connection => (connection.deregister (.ok ())).2).close c with
    | (outcome, s) =>
      let (faulty, s) := s.closeAll rest
      (faulty || outcome != .returned (), s)

def turn (s : Service σ) : Service σ :=
  match s.thread with
  | .looking => { s with thread := if s.selector.running then .serving else .shutting false }
  | .serving => { s with thread := .looking }
  | .shutting faulty => { s with selector := s.selector.shut, thread := .draining faulty }
  | .draining faulty =>
    let (given, selector) := s.selector.drain
    let (raised, s) := closeAll { s with selector } given
    { s with thread := .ended (faulty || raised) }
  | .ended faulty => { s with thread := .ended faulty }

/-! ## Shutting down -/

def threadResult (faulty : Bool) : Except IoError Unit :=
  if faulty then .error (.worded .other "selector thread panicked") else .ok ()

def stepShutdown (s : Service σ) (i : Nat) : Service σ :=
  match s.lifecycle.calls[i]? with
  | some .taking =>
    { s with
      lifecycle := s.lifecycle.step i (.ok ())
      selector := if s.lifecycle.hasSelector then s.selector.stop else s.selector
      pool := if s.lifecycle.hasSelector then s.pool else s.pool.callClose }
  | some .stoppingSelector =>
    match s.thread with
    | .ended faulty =>
      { s with lifecycle := s.lifecycle.step i (threadResult faulty), pool := s.pool.callClose }
    | _ => s
  | some (.closingPool _) =>
    if s.pool.joined then { s with lifecycle := s.lifecycle.step i (.ok ()) } else s
  | _ => { s with lifecycle := s.lifecycle.step i (.ok ()) }

/-- One atomic step; a step that its thread cannot take changes nothing. -/
def step (s : Service σ) : Act σ → Service σ
  | .arrive c arrival =>
    { s with served := s.served.modify c fun served => { served with inbox := served.inbox ++ [arrival] } }
  | .turn => s.turn
  | .accept handler => if s.thread = .serving then s.accept handler else s
  | .ready token => if s.thread = .serving then s.ready token else s
  | .takeReturn reply => if s.thread = .serving then s.takeReturn reply else s
  | .worker w acceptances => if s.pool.canStep w then s.stepWorker w acceptances else s
  | .misread w busy => { s with pool := s.pool.misread w busy }
  | .poolCaller i => if s.pool.canStepCaller i then { s with pool := s.pool.stepCaller i } else s
  | .callShutdown => { s with lifecycle := s.lifecycle.call }
  | .shutdown i => s.stepShutdown i

def run (s : Service σ) (acts : List (Act σ)) : Service σ := acts.foldl step s

end Service

end MessageBroker.Transport
