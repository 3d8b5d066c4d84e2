/-
  MessageBroker.Pool.Run — one orderly run of a pool among the many possible ones.

  A `Cast` answers the pool's calls out of a world `W` of its own: connections, a
  detector, whatever else there is. `settle` lets the pool go on until nobody can: a
  worker that holds a connection goes first, then callers of `close`, then a worker that
  can take a connection or exit, then whatever goes on beside the pool. So at most one
  worker at a time moves between two calls, and the gauge is exact whenever it is read.
-/

import MessageBroker.Pool.Step

namespace MessageBroker.Pool

inductive Progress where
  /-- It waits for something outside the pool. -/
  | blocked
  /-- It calls `close` on the pool, and goes on when that has returned. -/
  | stopsPool
  | ended (reply : Reply)
  deriving DecidableEq, Repr

structure Cast (ι W : Type) where
  /-- The reply to a call; for `work`, only what starting the unit does to the world. -/
  answer : ι → Call → W → Reply × W
  /-- Inside the unit of work of `c`. -/
  within : ι → W → Progress × W
  /-- What goes on beside the pool when none of its threads can go on. -/
  beside : State ι → W → Option (State ι × W) := fun _ _ => none

namespace Cast

variable {ι W : Type} (cast : Cast ι W)

/-- Worker `w` goes on by one point, if it holds a connection and is not blocked. -/
def stepHolder (s : State ι) (world : W) (w : Nat) : Option (State ι × W) :=
  match s.stages[w]? with
  | none | some .waiting | some .exited => none
  | some (.working c) =>
    match cast.within c world with
    | (.blocked, _) => none
    | (.stopsPool, world) => some (s.beginStop w, world)
    | (.ended reply, world) => some (s.step w reply, world)
  | some _ =>
    if s.canStep w then
      match s.nextCall w with
      | some (c, call) =>
        let (reply, world) := cast.answer c call world
        some (s.step w reply, world)
      | none => some (s.step w (.returned true), world)
    else none

def stepHolders (s : State ι) (world : W) : Option (State ι × W) :=
  (List.range s.size).findSome? fun w => cast.stepHolder s world w

def stepCallers (s : State ι) : Option (State ι) :=
  ((List.range s.callers.length).find? s.canStepCaller).map s.stepCaller

def stepWaiting (s : State ι) : Option (State ι) :=
  ((List.range s.size).find? fun w => s.stages[w]?.any (fun | .waiting => true | _ => false) && s.canStep w).map
    fun w => s.step w (.returned true)

def stepAny (s : State ι) (world : W) : Option (State ι × W) :=
  (cast.stepHolders s world)
    <|> (stepCallers s).map (·, world)
    <|> (stepWaiting s).map (·, world)
    <|> cast.beside s world

def settle : Nat → State ι → W → State ι × W
  | 0, s, world => (s, world)
  | fuel + 1, s, world =>
    match cast.stepAny s world with
    | none => (s, world)
    | some (s, world) => settle fuel s world

/-- Put `c` on the queue; it replies to the notification out of the world. -/
def schedule (s : State ι) (world : W) (c : ι) : Enqueued × State ι × W :=
  let (reply, world) :=
    if s.isOpen then cast.answer c (.notify .queued) world else (.returned true, world)
  let (result, s) := s.schedule c reply
  (result, s, world)

end Cast

end MessageBroker.Pool
