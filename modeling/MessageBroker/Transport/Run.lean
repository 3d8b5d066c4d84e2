/-
  MessageBroker.Transport.Run — one orderly run of a service among the many possible ones.

  Whoever comes first in `next?` takes the next step: workers with a connection, those
  who close the pool, workers without a connection, the selector's thread, and those who
  shut the service down. Sockets accept whatever is written, and a parked connection is
  ready as soon as something has arrived for it.
-/

import MessageBroker.Transport.Service

namespace MessageBroker.Transport.Service

open Connection

variable {σ : Type}

def acceptsAll : List Acceptance := [.bytes UInt64.size]

def nextHolder? (s : Service σ) : Option (Act σ) :=
  ((List.range s.pool.size).find? fun w =>
    (s.pool.stages[w]?).any (fun | .waiting => false | _ => true) && s.pool.canStep w).map
    (.worker · acceptsAll)

def nextInPool? (s : Service σ) : Option (Act σ) :=
  ((List.range s.pool.callers.length).find? s.pool.canStepCaller).map .poolCaller
    <|> ((List.range s.pool.size).find? s.pool.canStep).map (.worker · acceptsAll)

def nextOnThread? (s : Service σ) : Option (Act σ) :=
  match s.thread with
  | .looking | .shutting _ | .draining _ => some .turn
  | .ended _ => none
  | .serving =>
    if !s.selector.returned.isEmpty then some (.takeReturn (.ok ()))
    else
      match s.selector.parked.find? fun (_, c) => (s.served[c]?).any fun served => !served.inbox.isEmpty with
      | some (token, _) => some (.ready token)
      | none => if s.selector.running then none else some .turn

def canStepShutdown (s : Service σ) (i : Nat) : Bool :=
  match s.lifecycle.calls[i]? with
  | none | some (.returned _) => false
  | some .stoppingSelector =>
    match s.thread with
    | .ended _ => true
    | _ => false
  | some (.closingPool _) => s.pool.joined
  | some _ => true

/-- Who goes on next, and how; `none` when everybody waits. -/
def next? (s : Service σ) : Option (Act σ) :=
  s.nextHolder? <|> s.nextInPool? <|> s.nextOnThread?
    <|> ((List.range s.lifecycle.calls.length).find? s.canStepShutdown).map .shutdown

def settle : Nat → Service σ → Service σ
  | 0, s => s
  | fuel + 1, s =>
    match s.next? with
    | none => s
    | some act => settle fuel (s.step act)

/-- Steps that suffice to take down a service at rest: each worker exits, each
    connection is closed, and the calls go through their stages. -/
def shutdownFuel (s : Service σ) : Nat :=
  16 + 2 * s.pool.size + 8 * (s.pool.callers.length + s.lifecycle.calls.length)

def shutdown (s : Service σ) : Except Error Unit × Service σ :=
  let called := s.step .callShutdown
  let s := settle called.shutdownFuel called
  match s.lifecycle.calls.getLast? with
  | some (.returned result) => (result, s)
  | _ => (.ok (), s)

def connect (fuel : Nat) (s : Service σ) (handler : σ) : Service σ :=
  settle fuel ((settle fuel s).step (.accept handler))

def deliver (fuel : Nat) (s : Service σ) (c : Nat) (data : Wire.Bytes) : Service σ :=
  settle fuel (s.step (.arrive c (.bytes data)))

end MessageBroker.Transport.Service
