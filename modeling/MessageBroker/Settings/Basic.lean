/-
  MessageBroker.Settings.Basic — what the operator of a broker can set.
-/

import MessageBroker.Error
import MessageBroker.Transport.Config

namespace MessageBroker

open Network

structure Settings where
  bindAddress : Address := .v4 .unspecified
  port : UInt16 := 5672
  workers : UInt64
  backlog : UInt32 := 128
  maxMessageSize : UInt64 := UInt64.ofNat Wire.Frame.defaultLimit
  readBudget : UInt64 := 64 * 1024
  noDelay : Bool := true
  /-- Deliveries that may be outstanding in one session; `none` is no limit. -/
  prefetchLimit : Option UInt64 := some 256
  /-- Deliveries made in one unit of work. -/
  deliveryBatch : UInt64 := 32
  deriving DecidableEq, Repr

inductive SettingsError where
  | io (text : String)
  | parse (text : String)
  | serialize (text : String)
  | invalidValue (text : String)
  deriving DecidableEq, Repr

def SettingsError.message : SettingsError → String
  | io text => s!"I/O error: {text}"
  | parse text => s!"Parse error: {text}"
  | serialize text => s!"Serialize error: {text}"
  | invalidValue text => s!"Invalid value: {text}"

def SettingsError.ofIo (e : IoError) : SettingsError := io e.message

namespace Settings

/-- The settings where nothing is set, on a host that runs `workers` threads at once. -/
def defaults (workers : UInt64) : Settings := { workers }

inductive Fault where
  | noBatch
  | noPrefetch
  | transport (fault : Transport.ConfigFault)
  deriving DecidableEq, Repr

def Fault.message : Fault → String
  | noBatch => "delivery_batch cannot be 0"
  | noPrefetch => "prefetch_limit cannot be 0 (use null for unlimited)"
  | transport fault => fault.message

def Fault.toError (f : Fault) : SettingsError := .invalidValue f.message

def transport (s : Settings) : Transport.Config where
  address := some s.bindAddress
  port := s.port
  backlog := s.backlog
  workers := s.workers
  maxMessageSize := s.maxMessageSize
  readBudget := s.readBudget
  noDelay := s.noDelay

def validate (s : Settings) : Except Fault Unit :=
  if s.deliveryBatch = 0 then .error .noBatch
  else if s.prefetchLimit = some 0 then .error .noPrefetch
  else s.transport.validate.mapError .transport

end Settings

end MessageBroker
