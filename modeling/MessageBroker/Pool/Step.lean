/-
  MessageBroker.Pool.Step — the atomic steps of a pool.

  - `schedule`: someone from outside puts a connection on the queue.
  - `step`: a worker goes on by one point. From the queue it takes a connection and runs
    units of work on it until it has ended, has nothing to do (then it goes to the
    detector), or has work left while some worker is free (then it goes to the end of
    the queue). While every worker is busy, work that is left is done at once.
  - `beginStop`: a worker calls `close` from within a unit of work.
  - `callClose`, `stepCaller`: a thread from outside closes the pool.
  A fault raised by a connection never ends a worker: it is counted and reported, and
  the connection is closed, or lost if it had left the worker already.

  `nextCall` names the call that a worker's next step makes, `canStep` says that a
  worker is not blocked. Enqueueing and taking are single steps, because the queue's
  lock makes them so. The gauge has no lock: a worker that reads it while others raise
  or lower it can go by a value that is out of date, and then `misread` is its step.
-/

import MessageBroker.Pool.State

namespace MessageBroker.Pool

inductive Enqueued where
  | accepted
  /-- The pool is closed; the connection goes back to the caller untouched. -/
  | rejected
  /-- The connection raised a fault when it was told, and is lost. -/
  | raised (fault : Fault)
  deriving DecidableEq, Repr

namespace State

variable {ι : Type}

/-- Put `c` on the queue. `reply` is its reply to being told so; a closed pool tells it
    nothing. -/
def schedule (s : State ι) (c : ι) (reply : Reply) : Enqueued × State ι :=
  if s.isOpen then
    -- The workers receive from the queue, and none exits before it is shut (`State.Drained`): so
    -- it takes what it is sent, and nothing that was counted as scheduled is taken back.
    match reply with
    | .raised fault => (.raised fault, s)
    | .returned _ => (.accepted, { s.record .scheduled with queue := s.queue ++ [c] })
  else (.rejected, s.record .rejected)

/-- One point further in closing the pool, for worker `self` or for a thread from
    outside. Who looks first joins the workers, except itself; a worker that looks later
    does not wait, a thread from outside does. -/
def stepClosing (s : State ι) (self : Option Nat) : Closing → Closing × State ι
  | .entered => (.shut, { s with isOpen := false })
  | .shut =>
    if s.joining then (if self.isSome then .finished else .awaiting, s)
    else
      (.joining ((List.range s.size).filter fun v => self != some v), { s with joining := true })
  | .joining [] => (.finished, { s with joined := true })
  | .joining (v :: rest) =>
    match s.stages[v]? with
    | some .exited | none => (.joining rest, s)
    | some _ => (.joining (v :: rest), s)
  | .awaiting => (if s.joined then .finished else .awaiting, s)
  | .finished => (.finished, s)

def canStepClosing (s : State ι) : Closing → Bool
  | .entered | .shut | .joining [] => true
  | .joining (v :: _) =>
    match s.stages[v]? with
    | some .exited | none => true
    | some _ => false
  | .awaiting => s.joined
  | .finished => false

/-- A worker with work left on `c` goes on at once while every worker is busy, and gives
    the work to the queue otherwise. -/
def goOn (s : State ι) (c : ι) (busy : Bool) : Stage ι × State ι :=
  if busy then (.starting c, s.record .inlineRerun) else (.resubmitting c, s.record .resubmit)

/-- Where worker `w` goes from a stage, and what that does to the pool beside it. `reply`
    is the reply to the call it makes, or at `working` to the unit of work; a step without
    a call ignores it. -/
def advance (s : State ι) (w : Nat) (reply : Reply) : Stage ι → Stage ι × State ι
  | .waiting =>
    match s.queue with
    | c :: rest => (.arriving c, { s with queue := rest, metrics := s.metrics.enter })
    | [] => (if s.isOpen then .waiting else .exited, s)
  | .arriving c =>
    match reply with
    | .returned _ => (.starting c, s)
    | .raised fault => (.closing c, s.caught (.faultEntering c .running fault))
  | .starting c => (.working c, s)
  | .working c =>
    match reply with
    | .returned true => (.leaving none, s.record .closed)
    | .returned false => (.askingChanged c, s)
    | .raised fault => (.closing c, s.caught (.faultInUnit c fault))
  | .stopping c point =>
    match s.stepClosing (some w) point with
    | (.finished, s) => (.working c, s)
    | (next, s) => (.stopping c next, s)
  | .askingChanged c =>
    match reply with
    | .returned true => (.deciding c, s)
    | .returned false => (.askingPartial c, s)
    | .raised fault => (.closing c, s.caught (.faultInUnit c fault))
  | .askingPartial c =>
    match reply with
    | .returned true => (.deciding c, s)
    | .returned false => (.parking c, s)
    | .raised fault => (.closing c, s.caught (.faultInUnit c fault))
  | .deciding c => s.goOn c (s.metrics.poolSize ≤ s.metrics.occupancy)
  | .resubmitting c =>
    match s.schedule c reply with
    | (.accepted, s) => (.leaving none, s)
    | (.rejected, s) => (.closing c, s)
    | (.raised fault, s) => (.leaving (some fault), s)
  | .parking c =>
    match reply with
    | .returned _ => (.handing c, s.record .handedBack)
    | .raised fault => (.closing c, s.caught (.faultEntering c .awaitingReadiness fault))
  | .handing _ =>
    match reply with
    | .returned _ => (.leaving none, s)
    | .raised fault => (.leaving (some fault), s)
  | .closing c =>
    match reply with
    | .returned _ => (.leaving none, s.record .closed)
    | .raised _ => (.leaving none, (s.report (.faultInClose c)).record .closed)
  | .leaving fault =>
    let s := { s with metrics := s.metrics.leave }
    match fault with
    | none => (.waiting, s)
    | some fault => (.waiting, s.caught (.faultInHandOff fault))
  | .exited => (.exited, s)

def step (s : State ι) (w : Nat) (reply : Reply) : State ι :=
  match s.stages[w]? with
  | none => s
  | some stage =>
    let (next, s) := s.advance w reply stage
    s.setStage w next

def canStep (s : State ι) (w : Nat) : Bool :=
  match s.stages[w]? with
  | none | some .exited => false
  | some .waiting => !s.queue.isEmpty || !s.isOpen
  | some (.stopping _ point) => point == .finished || s.canStepClosing point
  | some _ => true

def nextCall (s : State ι) (w : Nat) : Option (ι × Call) :=
  match s.stages[w]? with
  | some (.arriving c) => some (c, .notify .running)
  | some (.starting c) => some (c, .work)
  | some (.askingChanged c) => some (c, .changed)
  | some (.askingPartial c) => some (c, .partialRead)
  | some (.resubmitting c) => if s.isOpen then some (c, .notify .queued) else none
  | some (.parking c) => some (c, .notify .awaitingReadiness)
  | some (.handing c) => some (c, .handOver)
  | some (.closing c) => some (c, .close)
  | _ => none

/-- Worker `w` goes by a reading of the gauge that is out of date. -/
def misread (s : State ι) (w : Nat) (busy : Bool) : State ι :=
  match s.stages[w]? with
  | some (.deciding c) =>
    let (next, s) := s.goOn c busy
    s.setStage w next
  | _ => s

def beginStop (s : State ι) (w : Nat) : State ι :=
  match s.stages[w]? with
  | some (.working c) => s.setStage w (.stopping c .entered)
  | _ => s

def callClose (s : State ι) : State ι := { s with callers := s.callers ++ [.entered] }

def stepCaller (s : State ι) (i : Nat) : State ι :=
  match s.callers[i]? with
  | none => s
  | some point =>
    let (next, s) := s.stepClosing none point
    { s with callers := s.callers.set i next }

def canStepCaller (s : State ι) (i : Nat) : Bool :=
  match s.callers[i]? with
  | none => false
  | some point => s.canStepClosing point

end State

end MessageBroker.Pool
