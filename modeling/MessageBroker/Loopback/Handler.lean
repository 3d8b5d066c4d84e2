/-
  MessageBroker.Loopback.Handler — the loopback protocol, as connections speak it.

  A payload that is no command is refused, which closes the connection; closing gives
  back what is in flight.
-/

import MessageBroker.Connection.Handler
import MessageBroker.Loopback.Engine

namespace MessageBroker.Loopback

open Connection

structure Client where
  engine : Engine
  done : Counters := {}

def handler : Handler Client where
  onFrame frame c outbox :=
    match c.engine.handle frame with
    | .ok (engine, more) => ⟨.returned (.ok ()), ⟨engine, c.done + more⟩, outbox⟩
    | .error m => ⟨.returned (.error m.toError), c, outbox⟩
  pollPending c outbox :=
    let (again, engine, outbox, more) := c.engine.poll outbox
    ⟨.returned again, ⟨engine, c.done + more⟩, outbox⟩
  onClose c :=
    let (engine, more) := c.engine.close
    (.returned (), ⟨engine, c.done + more⟩)

def total (clients : List Client) : Counters := clients.foldl (fun sum c => sum + c.done) {}

end MessageBroker.Loopback
