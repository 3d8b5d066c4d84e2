/-
  MessageBroker.Selector.Rehearsal — a selector and a pool of one worker, with
  connections that follow scripts.

  After each request from outside the pool and the selector's thread settle: the
  selector takes an offer or dispatches a connection whose input has arrived whenever no
  thread of the pool can go on. Every call that a connection receives is logged.
-/

import MessageBroker.Pool.Run
import MessageBroker.Selector.State

namespace MessageBroker.Selector

open Pool (Call Reply Progress Cast)

inductive Deed where
  | idle
  /-- Says that its state changed. -/
  | changed
  /-- Says that it stopped reading early. -/
  | partialRead
  | ends
  | raises
  /-- Leaves input unread without saying so. -/
  | undrained
  deriving DecidableEq, Repr

def Deed.name : Deed → String
  | idle => "idle"
  | changed => "changed"
  | partialRead => "partial"
  | ends => "closed"
  | raises => "panic"
  | undrained => "undrained"

structure Actor where
  name : String
  /-- Units of work to come; after them, idle ones. -/
  deeds : List Deed
  /-- Cannot be watched at the `n`-th attempt from now. -/
  refusedAt : Option Nat := none
  token : Option Token := none
  /-- The unit begun last. -/
  current : Deed := .idle
  /-- Input has arrived that is not read. -/
  readable : Bool := false
  deriving Repr

def refusal : IoError := .worded .other "refused"

def Actor.begin (a : Actor) : Actor :=
  let current := a.deeds.headD .idle
  { a with current, deeds := a.deeds.tail, readable := a.readable && current == .undrained }

def Actor.watch (a : Actor) (w : Watch) : Except IoError Unit × Actor :=
  match a.refusedAt with
  | some 1 => (.error refusal, { a with refusedAt := none })
  | left => (.ok (), { a with token := some w.token, refusedAt := left.map (· - 1) })

/-- The world of a rehearsal: the selector, its connections, and what was observed. -/
structure World where
  selector : State String := .empty
  /-- The selector has a thread. -/
  spawned : Bool
  actors : List Actor := []
  log : List String := []
  /-- Warnings, each with the number of the pool's reports before it. -/
  warnings : List (Nat × Report String) := []

namespace World

def find (h : World) (c : String) : Actor :=
  (h.actors.find? (·.name == c)).getD { name := c, deeds := [] }

def put (h : World) (a : Actor) : World :=
  { h with actors := a :: h.actors.filter (·.name != a.name) }

def say (h : World) (c what : String) : World := { h with log := h.log ++ [s!"{c} {what}"] }

def offer (h : World) (c : String) : World :=
  match h.selector.offer c with
  | (true, selector) => { h with selector }
  | (false, _) => h.say c "close"

def answer (c : String) (call : Call) (h : World) : Reply × World :=
  let a := h.find c
  match call with
  | .notify _ => (.returned true, h)
  | .work =>
    let a := a.begin
    (.returned true, (h.say c s!"work {a.current.name}").put a)
  | .changed => (.returned (a.current == .changed), h)
  | .partialRead => (.returned (a.current == .partialRead), h)
  | .close => (.returned true, h.say c "close")
  | .handOver => (.returned true, h.offer c)

def within (c : String) (h : World) : Progress × World :=
  match (h.find c).current with
  | .raises => (.ended (.raised (.text "mock")), h)
  | deed => (.ended (.returned (deed == .ends)), h)

/-- The selector takes the connection `c`, which was offered first. -/
def takeReturn (h : World) (c : String) (reportsBefore : Nat) : World :=
  let a := h.find c
  let w := h.selector.watchFor a.token
  let verb := if w.anew then "register" else "reregister"
  match a.watch w with
  | (.ok (), next) =>
    { (h.say c s!"{verb} {w.token}").put next with selector := h.selector.takeReturn a.token true }
  | (.error e, next) =>
    { ((h.say c s!"{verb} {w.token} refused").say c "close").put next with
      selector := h.selector.takeReturn a.token false
      warnings := h.warnings ++ [(reportsBefore, .cannotWatch c e)] }

/-- The selector sends the connection under `token` to the pool, and closes it if the
    pool is closed. -/
def dispatch (h : World) (token : Token) (pool : Pool.State String) : Pool.State String × World :=
  match h.selector.ready token with
  | (none, _) => (pool, h)
  | (some c, selector) =>
    let h := { h with selector }
    match pool.schedule c (.returned true) with
    | (.rejected, pool) => (pool, h.say c "close")
    | (_, pool) => (pool, h)

def beside (pool : Pool.State String) (h : World) : Option (Pool.State String × World) :=
  if h.spawned && h.selector.running then
    match h.selector.returned with
    | c :: _ => some (pool, h.takeReturn c pool.reports.length)
    | [] =>
      (h.selector.parked.find? fun (_, c) => (h.find c).readable).map
        fun (token, _) => h.dispatch token pool
  else none

def cast : Cast String World := { answer, within, beside }

def stop (h : World) : World :=
  let (given, selector) := h.selector.stop.shut.drain
  given.foldl (fun h c => (h.say c "deregister").say c "close") { h with selector }

end World

inductive Request where
  /-- Offer a new connection to the selector. -/
  | offer (a : Actor)
  /-- Put a new connection on the pool's queue. -/
  | schedule (a : Actor)
  /-- Input arrives for a connection. -/
  | input (c : String)
  | stopSelector
  | closePool
  deriving Repr

structure Rehearsal where
  pool : Pool.State String := .ofSize 1
  world : World

namespace Rehearsal

def start (spawned : Bool) : Rehearsal := { world := { spawned } }

/-- Steps that certainly suffice: a unit of work takes at most eight and two more to be
    watched and dispatched again; closing the pool takes a few. -/
def fuel (r : Rehearsal) : Nat :=
  12 * (r.world.actors.foldl (fun n a => n + a.deeds.length) 0 + 2 * r.world.actors.length + 2)
    + 4 * (r.pool.callers.length + 2)

def settle (r : Rehearsal) : Rehearsal :=
  let (pool, world) := World.cast.settle r.fuel r.pool r.world
  { pool, world }

def request (r : Rehearsal) : Request → Rehearsal
  | .offer a => settle { r with world := (r.world.put a).offer a.name }
  | .schedule a =>
    match r.pool.schedule a.name (.returned true) with
    | (.rejected, pool) => { pool, world := r.world.say a.name "rejected" }
    | (_, pool) => settle { pool, world := r.world.put a }
  | .input c => settle { r with world := r.world.put { r.world.find c with readable := true } }
  | .stopSelector => { r with world := r.world.stop }
  | .closePool => settle { r with pool := r.pool.callClose }

def reports (r : Rehearsal) (address : String) : List String :=
  let warningsAt (k : Nat) :=
    (r.world.warnings.filter (·.1 == k)).map fun (_, w) => s!"WARN {w.message fun _ => address}"
  let errors := r.pool.reports.map fun e => s!"ERROR {e.message fun _ => address}"
  (List.range (errors.length + 1)).flatMap fun k => warningsAt k ++ (errors[k]?).toList

end Rehearsal

end MessageBroker.Selector
