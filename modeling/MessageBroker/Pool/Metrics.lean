/-
  MessageBroker.Pool.Metrics — what the workers of a pool have decided, and the gauge.

  `occupancy` is the number of workers that hold a connection. The other fields but
  `poolSize` count decisions, at most one an event: `Proofs.Pool.Balance` shows that 64 bits
  hold them.
-/

import MessageBroker.Fault

namespace MessageBroker.Pool

structure Metrics where
  /-- Workers that hold a connection now. -/
  occupancy : Nat := 0
  poolSize : Nat := 0
  /-- Connections put on the queue, for the first time or again. -/
  scheduled : Nat := 0
  /-- Units of work rerun on the same worker because every worker was busy. -/
  inlineReruns : Nat := 0
  /-- Connections with work left that were meant for the queue again. -/
  resubmits : Nat := 0
  /-- Connections meant for the readiness detector. -/
  handedBack : Nat := 0
  /-- Connections that ended, by themselves or closed by a worker. -/
  closed : Nat := 0
  /-- Faults caught while a worker held a connection. -/
  workerFaults : Nat := 0
  /-- Connections refused by a pool that is closed. -/
  rejected : Nat := 0
  deriving DecidableEq, Repr

inductive Decision where
  | scheduled
  | inlineRerun
  | resubmit
  | handedBack
  | closed
  | workerFault
  | rejected
  deriving DecidableEq, Repr

namespace Metrics

def ofPoolSize (size : Nat) : Metrics := { poolSize := size }

def record (m : Metrics) (d : Decision) (n : Nat := 1) : Metrics :=
  match d with
  | .scheduled => { m with scheduled := m.scheduled + n }
  | .inlineRerun => { m with inlineReruns := m.inlineReruns + n }
  | .resubmit => { m with resubmits := m.resubmits + n }
  | .handedBack => { m with handedBack := m.handedBack + n }
  | .closed => { m with closed := m.closed + n }
  | .workerFault => { m with workerFaults := m.workerFaults + n }
  | .rejected => { m with rejected := m.rejected + n }

def enter (m : Metrics) : Metrics := { m with occupancy := m.occupancy + 1 }

def leave (m : Metrics) : Metrics := { m with occupancy := m.occupancy - 1 }

/-- The part of the continuations that stayed on their worker, 0 if there were none. -/
def inlineRatio (m : Metrics) : Outcome Float :=
  let total := m.inlineReruns + m.resubmits
  if UInt64.size ≤ total then .raised .overflow
  else if total = 0 then .returned 0.0
  else .returned ((UInt64.ofNat m.inlineReruns).toFloat / (UInt64.ofNat total).toFloat)

end Metrics

end MessageBroker.Pool
