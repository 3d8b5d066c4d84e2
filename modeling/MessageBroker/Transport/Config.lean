/-
  MessageBroker.Transport.Config — where a transport listens and what it grants a client.
-/

import MessageBroker.Network.Address
import MessageBroker.Pool.Config
import MessageBroker.Wire.Frame

namespace MessageBroker.Transport

open Network

structure Config where
  /-- Where to listen; `none` is every address of the host. -/
  address : Option Address := none
  /-- The port to listen on; 0 lets the host choose one. -/
  port : UInt16 := 0
  /-- Clients that may wait to be accepted. -/
  backlog : UInt32 := 128
  /-- Workers in the pool. -/
  workers : UInt64
  /-- The longest payload accepted. -/
  maxMessageSize : UInt64 := UInt64.ofNat Wire.Frame.defaultLimit
  /-- Bytes read from one client in one unit of work. -/
  readBudget : UInt64 := 64 * 1024
  /-- Send small packets at once. -/
  noDelay : Bool := true
  deriving DecidableEq, Repr

inductive ConfigFault where
  | noWorkers
  | noMessages
  /-- The length field of a frame cannot hold the message limit. -/
  | messagesTooLong
  | noReadBudget
  | noBacklog
  | pool (fault : Pool.ConfigFault)
  deriving DecidableEq, Repr

def ConfigFault.message : ConfigFault → String
  | noWorkers => "worker_threads must be > 0"
  | noMessages => "max_message_size must be > 0"
  | messagesTooLong => "max_message_size exceeds the 32-bit length prefix"
  | noReadBudget => "read_budget must be > 0"
  | noBacklog => "listen_backlog must be > 0"
  | pool fault => fault.message

namespace Config

def endpoint (c : Config) : Endpoint := ⟨c.address.getD (.v4 .unspecified), c.port⟩

def pool (c : Config) : Pool.Config := { poolSize := c.workers }

def validate (c : Config) : Except ConfigFault Unit :=
  if c.workers = 0 then .error .noWorkers
  else if c.maxMessageSize = 0 then .error .noMessages
  else if UInt32.size ≤ c.maxMessageSize.toNat then .error .messagesTooLong
  else if c.readBudget = 0 then .error .noReadBudget
  else if c.backlog = 0 then .error .noBacklog
  else c.pool.validate.mapError .pool

end Config

end MessageBroker.Transport
