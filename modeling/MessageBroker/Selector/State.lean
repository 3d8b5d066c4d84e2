/-
  MessageBroker.Selector.State — connections that wait until their peers have sent more.

  Workers offer a connection with nothing left to do. The selector's thread takes the
  offers in order, has each connection watched under its token, and parks it under that
  token; a connection that is watched for the first time gets the next token. When a
  token is reported ready, the connection parked under it leaves the selector for the
  pool; a token under which nothing is parked means a connection that is on its way
  back, and is watched again when it arrives.

  A stop is `stop`, then on the selector's thread `shut` and `drain`. Offers are accepted
  and queued in one step, so none arrives behind the last `drain` of a shut selector.
-/

import MessageBroker.Error

namespace MessageBroker.Selector

abbrev Token := Nat

/-- The first token of a connection; those before it name the listener and the waker. -/
def firstToken : Token := 2

structure Watch where
  token : Token
  /-- For the first time. -/
  anew : Bool
  deriving DecidableEq, Repr

structure State (ι : Type) where
  /-- The thread is to go on. -/
  running : Bool := true
  /-- Offers are accepted. -/
  accepting : Bool := true
  /-- Accepted offers that the thread has not taken yet, oldest first. -/
  returned : List ι := []
  /-- Watched connections, each with its token. -/
  parked : List (Token × ι) := []
  nextToken : Token := firstToken
  deriving Repr

inductive Report (ι : Type) where
  | cannotWatch (c : ι) (e : IoError)
  deriving DecidableEq, Repr

def Report.message {ι : Type} (address : ι → String) : Report ι → String
  | cannotWatch c e => s!"[selector] cannot watch {address c}, closing: {e.message}"

namespace State

variable {ι : Type}

def empty : State ι := {}

/-- Offer a connection. Whoever offers it closes it if it is not accepted. -/
def offer (s : State ι) (c : ι) : Bool × State ι :=
  if s.accepting then (true, { s with returned := s.returned ++ [c] }) else (false, s)

/-- How to watch a connection that holds this token. -/
def watchFor (s : State ι) : Option Token → Watch
  | some token => ⟨token, false⟩
  | none => ⟨s.nextToken, true⟩

def park (s : State ι) (token : Token) (c : ι) : State ι :=
  { s with parked := s.parked.filter (·.1 != token) ++ [(token, c)] }

/-- Take the oldest offer, a connection that holds the token `held`, and park it if it
    could be `watched`. A token given out is used up in either case. -/
def takeReturn (s : State ι) (held : Option Token) (watched : Bool) : State ι :=
  match s.returned with
  | [] => s
  | c :: rest =>
    let watch := s.watchFor held
    let s := { s with returned := rest, nextToken := s.nextToken + watch.anew.toNat }
    if watched then s.park watch.token c else s

theorem takeReturn_watched {s : State ι} {c : ι} {rest : List ι} (h : s.returned = c :: rest) (held : Option Token) :
    s.takeReturn held true =
      { s with
        returned := rest
        nextToken := s.nextToken + (s.watchFor held).anew.toNat
        parked := s.parked.filter (·.1 != (s.watchFor held).token) ++ [((s.watchFor held).token, c)] } := by
  simp [takeReturn, h, park]

theorem takeReturn_unwatched {s : State ι} {c : ι} {rest : List ι} (h : s.returned = c :: rest)
    (held : Option Token) :
    s.takeReturn held false =
      { s with returned := rest, nextToken := s.nextToken + (s.watchFor held).anew.toNat } := by
  simp [takeReturn, h]

/-- A token is reported ready: the connection that leaves for the pool. -/
def ready (s : State ι) (token : Token) : Option ι × State ι :=
  match s.parked.find? (·.1 == token) with
  | some (_, c) => (some c, { s with parked := s.parked.filter (·.1 != token) })
  | none => (none, s)

def stop (s : State ι) : State ι := { s with running := false }

def shut (s : State ι) : State ι := { s with running := false, accepting := false }

def drain (s : State ι) : List ι × State ι :=
  (s.parked.map (·.2) ++ s.returned, { s with parked := [], returned := [] })

end State

end MessageBroker.Selector
