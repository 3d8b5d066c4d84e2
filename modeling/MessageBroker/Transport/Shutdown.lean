/-
  MessageBroker.Transport.Shutdown — stopping a transport, called any number of times.

  A call of `shutdown` is a few steps, and the steps of several calls may come in any
  order. Looking at the phase and leaving `active` is one step, so one call alone gets
  to take down the transport: it takes the selector and stops it, then closes the pool,
  then says how it ended. Every other call returns at once.
-/

import MessageBroker.Transport.Phase

namespace MessageBroker.Transport

inductive ShutdownStage where
  /-- About to look at the phase. -/
  | entered
  /-- About to take the selector. -/
  | taking
  /-- Has the selector, which is told to stop; waits for its thread. -/
  | stoppingSelector
  /-- The selector has stopped like this; waits for the pool to close. -/
  | closingPool (selector : Except IoError Unit)
  /-- Everything is down; about to say how it ended. -/
  | settling (selector : Except IoError Unit)
  | returned (result : Except Error Unit)

structure Lifecycle where
  phase : Phase := .active
  /-- No call has taken the selector. -/
  hasSelector : Bool := true
  /-- The calls of `shutdown`, in the order in which they were made. -/
  calls : List ShutdownStage := []

namespace Lifecycle

def call (s : Lifecycle) : Lifecycle := { s with calls := s.calls ++ [.entered] }

/-- The phase at which a transport ends whose selector stopped like this, and what the
    call returns that took it down. -/
def ending : Except IoError Unit → Phase × Except Error Unit
  | .ok () => (.stopped, .ok ())
  | .error e => (.failed, .error (.io e))

/-- One call goes on by one step; `reply` says how the selector stopped, for the step
    that waits for it. -/
def advance (s : Lifecycle) (reply : Except IoError Unit) : ShutdownStage → ShutdownStage × Lifecycle
  | .entered =>
    if s.phase.isActive then
      match s.phase.move .stopping with
      | .ok phase => (.taking, { s with phase })
      | .error e => (.returned (.error e), s)
    else (.returned (.ok ()), s)
  | .taking =>
    if s.hasSelector then (.stoppingSelector, { s with hasSelector := false })
    else (.closingPool (.ok ()), s)
  | .stoppingSelector => (.closingPool reply, s)
  | .closingPool selector => (.settling selector, s)
  | .settling selector =>
    let (last, result) := ending selector
    match s.phase.move last with
    | .ok phase => (.returned result, { s with phase })
    | .error e => (.returned (.error e), s)
  | .returned result => (.returned result, s)

def step (s : Lifecycle) (i : Nat) (reply : Except IoError Unit) : Lifecycle :=
  match s.calls[i]? with
  | none => s
  | some stage =>
    let (next, s) := s.advance reply stage
    { s with calls := s.calls.set i next }

end Lifecycle

end MessageBroker.Transport
