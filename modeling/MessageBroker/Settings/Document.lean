/-
  MessageBroker.Settings.Document — settings as a JSON document.

  A document is an object whose keys name settings, in any order, or an array of values
  in the order of `Field.all`. What is not set keeps its default. An object may hold
  other keys, with any value, but a setting at most once; an array may be shorter than
  the list of settings, but not longer. Only `prefetch_limit` may be null.
-/

import MessageBroker.Json.Value
import MessageBroker.Settings.Basic

namespace MessageBroker.Settings

open Network Json

inductive Field where
  | bindAddress
  | port
  | workers
  | backlog
  | maxMessageSize
  | readBudget
  | noDelay
  | prefetchLimit
  | deliveryBatch
  deriving DecidableEq, Repr

namespace Field

def all : List Field :=
  [bindAddress, port, workers, backlog, maxMessageSize, readBudget, noDelay, prefetchLimit, deliveryBatch]

def key : Field → String
  | bindAddress => "bind_address"
  | port => "port"
  | workers => "worker_threads"
  | backlog => "listen_backlog"
  | maxMessageSize => "max_message_size"
  | readBudget => "read_budget"
  | noDelay => "nodelay"
  | prefetchLimit => "prefetch_limit"
  | deliveryBatch => "delivery_batch"

def ofKey? (key : List Char) : Option Field := all.find? (·.key.toList == key)

end Field

/-! ## Writing -/

def ofNat (n : Nat) : Value := .number (.ofNat n)

def get (s : Settings) : Field → Value
  | .bindAddress => .ofText s.bindAddress.text
  | .port => ofNat s.port.toNat
  | .workers => ofNat s.workers.toNat
  | .backlog => ofNat s.backlog.toNat
  | .maxMessageSize => ofNat s.maxMessageSize.toNat
  | .readBudget => ofNat s.readBudget.toNat
  | .noDelay => .bool s.noDelay
  | .prefetchLimit =>
    match s.prefetchLimit with
    | some n => ofNat n.toNat
    | none => .null
  | .deliveryBatch => ofNat s.deliveryBatch.toNat

def toValue (s : Settings) : Value :=
  .object (Field.all.map fun f => (f.key.toList.map .char, s.get f))

def render (s : Settings) : String := String.ofList s.toValue.render

/-! ## Reading -/

def word? (size : Nat) : Value → Option Nat
  | .number n => n.nat?.filter (· < size)
  | _ => none

def address? : Value → Option Address
  | .text atoms => decode? atoms >>= Address.parse
  | _ => none

def set? (s : Settings) (f : Field) (v : Value) : Option Settings :=
  match f with
  | .bindAddress => (address? v).map fun x => { s with bindAddress := x }
  | .port => (word? UInt16.size v).map fun n => { s with port := UInt16.ofNat n }
  | .workers => (word? UInt64.size v).map fun n => { s with workers := UInt64.ofNat n }
  | .backlog => (word? UInt32.size v).map fun n => { s with backlog := UInt32.ofNat n }
  | .maxMessageSize => (word? UInt64.size v).map fun n => { s with maxMessageSize := UInt64.ofNat n }
  | .readBudget => (word? UInt64.size v).map fun n => { s with readBudget := UInt64.ofNat n }
  | .noDelay =>
    match v with
    | .bool b => some { s with noDelay := b }
    | _ => none
  | .prefetchLimit =>
    match v with
    | .null => some { s with prefetchLimit := none }
    | v => (word? UInt64.size v).map fun n => { s with prefetchLimit := some (UInt64.ofNat n) }
  | .deliveryBatch => (word? UInt64.size v).map fun n => { s with deliveryBatch := UInt64.ofNat n }

/-- Set what the members of an object set; the settings in `done` are set already. -/
def setMembers? (s : Settings) (done : List Field) : List Member → Option Settings
  | [] => some s
  | (key, v) :: rest => do
    match Field.ofKey? (← decode? key) with
    | none => s.setMembers? done rest
    | some f => if f ∈ done then none else (← s.set? f v).setMembers? (f :: done) rest

/-- Set the settings in order, as far as there are values. -/
def setItems? (s : Settings) : List Field → List Value → Option Settings
  | _, [] => some s
  | [], _ :: _ => none
  | f :: fields, v :: rest => do (← s.set? f v).setItems? fields rest

def setAll? (s : Settings) : Value → Option Settings
  | .object members => s.setMembers? [] members
  | .array items => s.setItems? Field.all items
  | _ => none

def parse? (workers : UInt64) (text : String) : Option Settings :=
  Value.parse text.toList >>= (defaults workers).setAll?

/-- The settings of a file with this content, if it has one. -/
def load (workers : UInt64) (content : Except IoError Wire.Bytes) : Except SettingsError Settings := do
  let bytes ← content.mapError .ofIo
  match String.fromUTF8? ⟨bytes.toArray⟩ with
  | none => throw (.ofIo .notUtf8)
  | some text =>
    match parse? workers text with
    | none => throw (.parse "not a document of settings")
    | some s => return s

end MessageBroker.Settings
