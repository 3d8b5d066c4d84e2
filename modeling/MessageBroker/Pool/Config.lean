/-
  MessageBroker.Pool.Config — how many workers a pool has, and what they are called.
-/

import MessageBroker.Fault

namespace MessageBroker.Pool

structure Config where
  /-- How many workers, for as long as the pool lives. -/
  poolSize : UInt64
  /-- Worker `k` is called `threadName-k`. -/
  threadName : String := "hmq-worker"
  deriving DecidableEq, Repr

inductive ConfigFault where
  | noWorkers
  | tooManyWorkers
  | noName
  deriving DecidableEq, Repr

def ConfigFault.message : ConfigFault → String
  | noWorkers => "pool_size must be > 0"
  | tooManyWorkers => "pool_size too large (> 4096)"
  | noName => "thread_name must not be empty"

def Config.maxPoolSize : UInt64 := 4096

def Config.validate (c : Config) : Except ConfigFault Unit :=
  if c.poolSize = 0 then .error .noWorkers
  else if Config.maxPoolSize < c.poolSize then .error .tooManyWorkers
  else if c.threadName.isEmpty then .error .noName
  else .ok ()

def Config.workerName (c : Config) (k : Nat) : String := s!"{c.threadName}-{k}"

/-- Starting the first worker raises a fault if its name holds a NUL: the operating system takes a NUL
    for the end of a name. The fault tells where the NUL is and all bytes of the name. -/
def Config.startFault? (c : Config) : Option Fault :=
  let bytes := (c.workerName 0).toUTF8.data.toList
  (bytes.idxOf? 0).map fun position => .text <|
    s!"thread name may not contain interior null bytes: NulError({position}, "
      ++ "[" ++ ", ".intercalate (bytes.map toString) ++ "])"

end MessageBroker.Pool
