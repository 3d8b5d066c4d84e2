/-
  MessageBroker.Pool.State — a fixed set of workers and the queue they drain.

  Connections are known by a name of type `ι`; a worker holds at most one. What a
  connection does when it is called is not part of the pool: each step that makes a
  call is told how the call ended (`Reply`), so a run of the pool is a list of steps
  with replies, and every behaviour of the connections is some such list.

  A worker is at one of the points of `Stage`; whoever closes the pool is at one of the
  points of `Closing`, be it a thread from outside or a worker from within a unit of
  work.
-/

import MessageBroker.Fault
import MessageBroker.Pool.Metrics

namespace MessageBroker.Pool

inductive RunState where
  /-- Parked with the readiness detector. -/
  | awaitingReadiness
  /-- On the queue. -/
  | queued
  /-- Held by a worker. -/
  | running
  deriving DecidableEq, Repr

def RunState.name : RunState → String
  | awaitingReadiness => "AwaitingReadiness"
  | queued => "Queued"
  | running => "Running"

inductive Call where
  | notify (state : RunState)
  /-- One unit of work; returns whether the connection has ended. -/
  | work
  /-- Did the unit leave work that needs no new input? -/
  | changed
  /-- Did the unit stop reading before the input ran out? -/
  | partialRead
  | close
  /-- Asked of the detector: watch this connection. -/
  | handOver
  deriving DecidableEq, Repr

/-- How a call ended; calls that return nothing return `true`. -/
abbrev Reply := Outcome Bool

/-- Where a caller of `close` stands. -/
inductive Closing where
  /-- About to shut the queue. -/
  | entered
  /-- The queue is shut; about to look who joins the workers. -/
  | shut
  /-- Joins these workers, one after the other. -/
  | joining (left : List Nat)
  /-- Waits until another caller has joined them. -/
  | awaiting
  | finished
  deriving DecidableEq, Repr

/-- Where a worker stands. -/
inductive Stage (ι : Type) where
  /-- Has no connection; looks at the queue next. -/
  | waiting
  /-- Took `c` from the queue; tells it so next. -/
  | arriving (c : ι)
  /-- Starts a unit of work next. -/
  | starting (c : ι)
  /-- Inside a unit of work. -/
  | working (c : ι)
  /-- Inside a unit of work that is closing the pool. -/
  | stopping (c : ι) (point : Closing)
  /-- Asks next whether the state changed. -/
  | askingChanged (c : ι)
  /-- Asks next whether the read was cut short. -/
  | askingPartial (c : ι)
  /-- Work is left; reads the gauge next. -/
  | deciding (c : ι)
  /-- Puts `c` on the queue again next. -/
  | resubmitting (c : ι)
  /-- Nothing is left to do; tells `c` so next. -/
  | parking (c : ι)
  /-- Hands `c` to the detector next. -/
  | handing (c : ι)
  /-- Closes `c` next, whatever becomes of that. -/
  | closing (c : ι)
  /-- The connection is gone, lost to `fault` if there is one; lowers the gauge next. -/
  | leaving (fault : Option Fault)
  | exited
  deriving DecidableEq, Repr

inductive Report (ι : Type) where
  | faultEntering (c : ι) (state : RunState) (fault : Fault)
  | faultInUnit (c : ι) (fault : Fault)
  | faultInClose (c : ι)
  /-- The detector or the notification of a resubmission raised it; the connection is lost. -/
  | faultInHandOff (fault : Fault)
  deriving DecidableEq, Repr

/-- The wording of a report, where `address c` is the peer of `c`. -/
def Report.message {ι : Type} (address : ι → String) : Report ι → String
  | faultEntering c state fault =>
    s!"[scheduler] connection {address c} panicked entering {state.name}: {fault.message}"
  | faultInUnit c fault =>
    s!"[scheduler] connection {address c} panicked during a unit of work: {fault.message}"
  | faultInClose c => s!"[scheduler] connection {address c} panicked in close"
  | faultInHandOff fault =>
    s!"[scheduler] hand-off panicked, connection dropped: {fault.message}"

structure State (ι : Type) where
  /-- The queue accepts connections. -/
  isOpen : Bool := true
  /-- Connections to be run, first come first. -/
  queue : List ι := []
  /-- The workers, by number. -/
  stages : List (Stage ι)
  metrics : Metrics
  /-- Some caller of `close` has taken it on to join the workers. -/
  joining : Bool := false
  /-- The workers are joined. -/
  joined : Bool := false
  /-- Callers of `close` from outside, in the order of their calls. -/
  callers : List Closing := []
  /-- What was reported, oldest first. -/
  reports : List (Report ι) := []

namespace State

variable {ι : Type}

def ofSize (size : Nat) : State ι :=
  { stages := List.replicate size .waiting, metrics := .ofPoolSize size }

def size (s : State ι) : Nat := s.stages.length

def setStage (s : State ι) (w : Nat) (stage : Stage ι) : State ι :=
  { s with stages := s.stages.set w stage }

def record (s : State ι) (d : Decision) : State ι := { s with metrics := s.metrics.record d }

def report (s : State ι) (r : Report ι) : State ι := { s with reports := s.reports ++ [r] }

def caught (s : State ι) (r : Report ι) : State ι := (s.record .workerFault).report r

def closersWaiting (s : State ι) : Nat := s.callers.countP (· != .finished)

end State

end MessageBroker.Pool
