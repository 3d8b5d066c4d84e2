/-
  MessageBroker.Connection.Handler — the protocol that a connection speaks.

  A handler is given the payloads that arrive, answers by queueing payloads of its own,
  and is told when the connection closes. It is code of someone else's: each call
  returns or raises a fault, and leaves the handler's state and the outbox as they are
  by then.
-/

import MessageBroker.Error
import MessageBroker.Fault
import MessageBroker.Wire.Outbox

namespace MessageBroker.Connection

open Wire

structure Handled (α σ : Type) where
  outcome : Outcome α
  state : σ
  outbox : Outbox

structure Handler (σ : Type) where
  /-- Take one payload; a refusal closes the connection. -/
  onFrame : Bytes → σ → Outbox → Handled (Except Error Unit) σ
  /-- Queue what is due; returns whether more is. -/
  pollPending : σ → Outbox → Handled Bool σ := fun s o => ⟨.returned false, s, o⟩
  /-- The connection closes. -/
  onClose : σ → Outcome Unit × σ := fun s => (.returned (), s)

end MessageBroker.Connection
