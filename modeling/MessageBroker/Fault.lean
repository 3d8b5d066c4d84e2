/-
  MessageBroker.Fault — a call that raises instead of returning.

  Connections, handlers and detectors are code of someone else's. Each call of them
  either returns or raises a fault, which carries a text if the code gave one. So does a
  sum that is too large for its words.
-/

namespace MessageBroker

inductive Fault where
  | text (message : String)
  /-- A fault that carries no text. -/
  | untold
  deriving DecidableEq, Repr

def Fault.message : Fault → String
  | text message => message
  | untold => "<non-string panic>"

/-- Raised by a sum that does not fit in its words. -/
def Fault.overflow : Fault := .text "attempt to add with overflow"

inductive Outcome (α : Type) where
  | returned (value : α)
  | raised (fault : Fault)
  deriving DecidableEq, Repr

/-- What was returned, or `default` if nothing was. -/
def Outcome.getD {α : Type} (outcome : Outcome α) (default : α) : α :=
  match outcome with
  | returned value => value
  | raised _ => default

end MessageBroker
