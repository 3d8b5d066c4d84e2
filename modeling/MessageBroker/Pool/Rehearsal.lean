/-
  MessageBroker.Pool.Rehearsal — a pool whose connections follow scripts.

  A script says for every unit of work what the connection does in it and what it
  answers afterwards, and where it raises faults. A rehearsal lets the pool settle after
  each request from outside and keeps a log of every call that a connection or the
  detector received. A unit of work can wait at a gate, which holds its worker until
  the gate is opened.
-/

import MessageBroker.Pool.Run

namespace MessageBroker.Pool

structure Turn where
  /-- Waits until its gate is opened. -/
  gated : Bool := false
  /-- Calls `close` on the pool. -/
  stopsPool : Bool := false
  fault : Option Fault := none
  /-- Returns that the connection has ended. -/
  ends : Bool := false
  changed : Outcome Bool := .returned false
  partialRead : Outcome Bool := .returned false
  deriving Repr

structure Script where
  name : String
  /-- Units of work to come; after them, units that do nothing. -/
  turns : List Turn
  /-- Raises at the `n`-th notification of this state from now. -/
  faultAt : Option (RunState × Nat) := none
  closeFaults : Bool := false
  /-- The detector raises a fault when it is handed this connection. -/
  detectorFaults : Bool := false
  /-- The unit begun last. -/
  current : Turn := {}
  /-- Its unit is inside `close`. -/
  stopping : Bool := false
  deriving Repr

namespace Script

/-- The fault that a scripted connection raises where its script names no other. -/
def fault (s : Script) : Fault := .text s!"mock fault {s.name}"

def notify (s : Script) (state : RunState) : Reply × Script :=
  match s.faultAt with
  | some (awaited, n) =>
    if awaited = state then
      if n = 1 then (.raised s.fault, { s with faultAt := none })
      else (.returned true, { s with faultAt := some (awaited, n - 1) })
    else (.returned true, s)
  | none => (.returned true, s)

def begin (s : Script) : Script :=
  match s.turns with
  | turn :: rest => { s with current := turn, turns := rest }
  | [] => { s with current := {} }

end Script

structure Stagehands where
  scripts : List Script := []
  /-- Connections that the detector keeps. -/
  parked : List String := []
  /-- The calls received, oldest first. -/
  log : List String := []

namespace Stagehands

def find (h : Stagehands) (c : String) : Script :=
  (h.scripts.find? (·.name == c)).getD { name := c, turns := [] }

def put (h : Stagehands) (s : Script) : Stagehands :=
  { h with scripts := s :: h.scripts.filter (·.name != s.name) }

def say (h : Stagehands) (c what : String) : Stagehands :=
  { h with log := h.log ++ [s!"{c} {what}"] }

def answer (c : String) (call : Call) (h : Stagehands) : Reply × Stagehands :=
  let s := h.find c
  match call with
  | .notify state =>
    let (reply, s) := s.notify state
    (reply, (h.say c state.name).put s)
  | .work => (.returned true, (h.say c "work").put s.begin)
  | .changed => (s.current.changed, h.say c "changed?")
  | .partialRead => (s.current.partialRead, h.say c "partial?")
  | .close => (if s.closeFaults then .raised s.fault else .returned true, h.say c "close")
  | .handOver =>
    if s.detectorFaults then (.raised s.fault, h.say c "detector_panic")
    else
      let h := h.say c "returned"
      (.returned true, { h with parked := h.parked ++ [c] })

def within (c : String) (h : Stagehands) : Progress × Stagehands :=
  let s := h.find c
  if s.current.gated then (.blocked, h)
  else if s.current.stopsPool then
    (.stopsPool, h.put { s with stopping := true, current := { s.current with stopsPool := false } })
  else
    let h := if s.stopping then (h.say c "closed_scheduler").put { s with stopping := false } else h
    match s.current.fault with
    | some fault => (.ended (.raised fault), h)
    | none => (.ended (.returned s.current.ends), h)

def openGate (h : Stagehands) (c : String) : Stagehands :=
  let s := h.find c
  (h.say c "resume").put { s with current := { s.current with gated := false } }

def cast : Cast String Stagehands := { answer, within }

def turnsLeft (h : Stagehands) : Nat := h.scripts.foldl (fun n s => n + s.turns.length) 0

end Stagehands

inductive Request where
  | schedule (script : Script)
  /-- The detector gives up a connection, and it is scheduled. -/
  | ready (c : String)
  | openGate (c : String)
  | close
  deriving Repr

inductive Response where
  | done
  | enqueued (c : String) (result : Enqueued)
  | notParked
  | notGated
  deriving Repr

structure Rehearsal where
  pool : State String
  hands : Stagehands := {}

namespace Rehearsal

def ofSize (size : Nat) : Rehearsal := { pool := .ofSize size }

/-- Steps that certainly suffice: each unit of work takes no more than ten, and so does
    each connection on its way in and out; ending a worker takes one, and each caller
    of `close` a few more than there are workers. -/
def fuel (r : Rehearsal) : Nat :=
  20 * (r.hands.turnsLeft + 2 * r.hands.scripts.length + 1)
    + (r.pool.size + r.pool.callers.length + r.hands.turnsLeft + 4) * (r.pool.size + 8)

def settle (r : Rehearsal) : Rehearsal :=
  let (pool, hands) := Stagehands.cast.settle r.fuel r.pool r.hands
  { pool, hands }

def gated (r : Rehearsal) : List String :=
  r.pool.stages.filterMap fun
    | .working c => if (r.hands.find c).current.gated then some c else none
    | _ => none

def schedule (r : Rehearsal) (c : String) : Response × Rehearsal :=
  let (result, pool, hands) := Stagehands.cast.schedule r.pool r.hands c
  (.enqueued c result, settle { pool, hands })

def openGate (r : Rehearsal) (c : String) : Rehearsal :=
  settle { r with hands := r.hands.openGate c }

def close (r : Rehearsal) : Rehearsal := settle { r with pool := r.pool.callClose }

def request (r : Rehearsal) : Request → Response × Rehearsal
  | .schedule script => { r with hands := r.hands.put script }.schedule script.name
  | .ready c =>
    if r.hands.parked.contains c then
      { r with hands := { r.hands with parked := r.hands.parked.erase c } }.schedule c
    else (.notParked, r)
  | .openGate c => if r.gated.contains c then (.done, r.openGate c) else (.notGated, r)
  | .close => (.done, r.close)

/-- Open the gates that are shut, by ascending name, again and again for at most `n`
    gates. -/
def openGates : Nat → Rehearsal → Rehearsal
  | 0, r => r
  | n + 1, r =>
    match r.gated.mergeSort (fun a b => decide (a ≤ b)) with
    | [] => r
    | c :: _ => openGates n (r.openGate c)

def finish (r : Rehearsal) : Rehearsal :=
  (openGates (r.pool.size + r.hands.turnsLeft) r).close

end Rehearsal

end MessageBroker.Pool
