/-
  MessageBroker.Inspect — how errors, trackers, sessions and connections show
  themselves to developers.
-/

import MessageBroker.Connection.State
import MessageBroker.Delivery.Session
import MessageBroker.Settings.Basic
import MessageBroker.Text.Quoted

namespace MessageBroker

open Text

def IoKind.name : IoKind → String
  | .notFound => "NotFound"
  | .isADirectory => "IsADirectory"
  | .alreadyExists => "AlreadyExists"
  | .invalidData => "InvalidData"
  | .writeZero => "WriteZero"
  | .addressNotAvailable => "AddrNotAvailable"
  | .networkUnreachable => "NetworkUnreachable"
  | .invalidInput => "InvalidInput"
  | .notADirectory => "NotADirectory"
  | .other => "Other"

def IoError.inspect : IoError → String
  | .system code kind text =>
    record "Os" [("code", toString code), ("kind", kind.name), ("message", quoted text)]
  | .worded kind text => record "Custom" [("kind", kind.name), ("error", quoted text)]

def Error.kindName : Error → String
  | .invalidConfig _ => "InvalidConfig"
  | .invalidState _ => "InvalidState"
  | .io _ => "Io"
  | .frameTooLarge _ _ => "FrameTooLarge"
  | .handler _ => "Handler"
  | .duplicateTag _ => "DuplicateTag"
  | .prefetchExhausted => "PrefetchExhausted"
  | .sessionClosed => "SessionClosed"

def Error.inspect (e : Error) : String :=
  match e with
  | .invalidConfig reason | .invalidState reason | .handler reason =>
    tagged e.kindName (quoted reason)
  | .io cause => tagged e.kindName cause.inspect
  | .frameTooLarge len max => record e.kindName [("len", toString len), ("max", toString max)]
  | .duplicateTag tag => tagged e.kindName (toString tag)
  | .prefetchExhausted | .sessionClosed => e.kindName

def SettingsError.kindName : SettingsError → String
  | .io _ => "IoError"
  | .parse _ => "ParseError"
  | .serialize _ => "SerializeError"
  | .invalidValue _ => "InvalidValue"

def SettingsError.inspect (e : SettingsError) : String :=
  match e with
  | .io text | .parse text | .serialize text | .invalidValue text => tagged e.kindName (quoted text)

def Delivery.TrackerError.inspect (e : Delivery.TrackerError) : String := e.toError.inspect

def Delivery.Tracker.inspect {M : Type} (t : Delivery.Tracker M) : String :=
  record "UnackedTracker" [("size", toString t.size), ("bytes", toString t.bytes)]

def Delivery.Session.inspect {M : Type} (s : Delivery.Session M) : String :=
  record "Session"
    [("next_tag", toString s.nextTag), ("prefetch_limit", optional (s.limit.map toString)),
     ("unacked", toString s.tracker.size), ("closed", toString s.closed)]

def Connection.Stats.inspect (s : Connection.Stats) : String :=
  record "ConnectionStats"
    [("frames_in", toString s.framesIn), ("frames_out", toString s.framesOut),
     ("bytes_in", toString s.bytesIn), ("bytes_out", toString s.bytesOut),
     ("partial_reads", toString s.partialReads), ("units_of_work", toString s.unitsOfWork)]

def Connection.inspect {σ : Type} (address : String) (c : Connection σ) : String :=
  record "TcpConnection"
    [("remote_addr", address),
     ("token", optional (c.token.map fun t => tagged "Token" (toString t))),
     ("run_state", c.runState.name), ("closed", toString c.closed), ("stats", c.stats.inspect)]

end MessageBroker
