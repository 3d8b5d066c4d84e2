/-
  MessageBroker.Delivery.Session — tags, credit and the tracker of one consumer.

  A session numbers its deliveries from 1, stops delivering when as many are
  outstanding as its limit allows, and gives everything in flight back when it closes.
  Acknowledgements can be staged in a transaction: staging selects entries outstanding
  at that moment and changes nothing; committing withdraws those of them that are still
  outstanding.
-/

import MessageBroker.Delivery.Tracker

namespace MessageBroker.Delivery

structure Session (M : Type) where
  tracker : Tracker M := .empty
  /-- The tag of the next delivery. -/
  nextTag : Tag := 1
  /-- How many deliveries may be outstanding; `none` is no limit. -/
  limit : Option Nat
  closed : Bool := false

namespace Session

variable {M : Type}

def withLimit (limit : Option Nat) : Session M := { limit }

def hasCredit (s : Session M) : Bool :=
  !s.closed && s.limit.all (s.tracker.size < ·)

/-- Give back every message in flight. A closed session gives back nothing. -/
def close (s : Session M) : List M × Session M :=
  if s.closed then ([], s)
  else
    let (messages, tracker) := s.tracker.cancelAll
    (messages, { s with closed := true, tracker })

variable [Message M]

/-- Track `message` under the next tag. A refused delivery changes nothing: a closed
    session refuses first, then one without credit, then a next tag that is taken. -/
def deliver (s : Session M) (message : M) : Except Error (Tag × Session M) :=
  if s.closed then .error .sessionClosed
  else if !s.hasCredit then .error .prefetchExhausted
  else
    match s.tracker.add s.nextTag message with
    | .error e => .error e.toError
    | .ok tracker => .ok (s.nextTag, { s with tracker, nextTag := s.nextTag + 1 })

def acknowledge (s : Session M) (tag : Tag) (multiple : Bool) :
    Outcome (List (Entry M)) × Session M :=
  let (answer, tracker) := s.tracker.acknowledge tag multiple
  (answer, { s with tracker })

def reject (s : Session M) (tag : Tag) : Option M × Session M :=
  let (message, tracker) := s.tracker.remove tag
  (message, { s with tracker })

def add (s : Session M) (tag : Tag) (message : M) : Except TrackerError (Session M) :=
  (s.tracker.add tag message).map fun tracker => { s with tracker }

end Session

structure Transaction (M : Type) where
  staged : TagMap M := .empty

namespace Transaction

variable {M : Type}

def empty : Transaction M := {}

def size (x : Transaction M) : Nat := x.staged.size

def isEmpty (x : Transaction M) : Bool := x.staged.isEmpty

/-- Stage what acknowledging `tag` would withdraw now. -/
def stage (x : Transaction M) (s : Session M) (tag : Tag) (multiple : Bool) : Transaction M :=
  ⟨x.staged.insertAll (s.tracker.selected tag multiple)⟩

def commit [Message M] (x : Transaction M) (s : Session M) : List (Entry M) × Session M :=
  let (removed, tracker) := s.tracker.removeAll x.staged.tags
  (removed, { s with tracker })

end Transaction

end MessageBroker.Delivery
