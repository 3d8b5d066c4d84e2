/-
  MessageBroker.Transport.Phase — the life of a transport.

    initialising --> active --> stopping --> stopped
         |             |           |
         +-------------+-----------+------> failed

  `Phase.move` is the only way from one phase to another; any pair that is not in the
  table is refused.
-/

import MessageBroker.Error

namespace MessageBroker.Transport

inductive Phase where
  /-- Binds its address and starts its threads. -/
  | initialising
  /-- Accepts and serves clients. -/
  | active
  | stopping
  /-- Ended in good order. -/
  | stopped
  /-- Could not be started, or not be stopped in good order. -/
  | failed
  deriving DecidableEq, Repr

namespace Phase

def name : Phase → String
  | initialising => "Initialising"
  | active => "Active"
  | stopping => "Stopping"
  | stopped => "Stopped"
  | failed => "Failed"

def moves : List (Phase × Phase) :=
  [(initialising, active), (initialising, failed), (active, stopping), (active, failed),
   (stopping, stopped), (stopping, failed)]

def move (p next : Phase) : Except Error Phase :=
  if (p, next) ∈ moves then .ok next
  else .error (.invalidState s!"transport cannot go from {p.name} to {next.name}")

def isActive (p : Phase) : Bool := p == active

def isTerminal (p : Phase) : Bool := p == stopped || p == failed

theorem isTerminal_iff (p : Phase) : p.isTerminal = true ↔ ∀ next, (p, next) ∉ moves := by
  constructor
  · intro h next
    cases p <;> cases next <;> revert h <;> decide
  · intro h
    cases p <;> first
      | rfl
      | exact absurd (by decide) (h failed)

end Phase

end MessageBroker.Transport
