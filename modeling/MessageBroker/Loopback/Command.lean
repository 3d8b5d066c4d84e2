/-
  MessageBroker.Loopback.Command — what a client may ask, and how a delivery is sent.

    client to broker                              broker to client
    0x01 PUBLISH body                             0x81 DELIVER tag(8 bytes) body
    0x02 ACK     tag(8 bytes) multiple(1 byte)
    0x03 REJECT  tag(8 bytes)

  Tags are big-endian. Bytes behind a complete ACK or REJECT are ignored.
-/

import MessageBroker.Error
import MessageBroker.Wire.BigEndian

namespace MessageBroker.Loopback

open Wire

inductive Command where
  | publish (body : Bytes)
  /-- With `multiple`, every tag up to `tag` is acknowledged. -/
  | acknowledge (tag : Tag) (multiple : Bool)
  | reject (tag : Tag)
  deriving DecidableEq, Repr

inductive Malformed where
  | emptyFrame
  | unknownOpcode (opcode : UInt8)
  /-- So many bytes stand where a tag needs eight. -/
  | truncatedTag (length : Nat)
  | missingFlag
  deriving DecidableEq, Repr

namespace Malformed

def twoDigits (b : UInt8) : String :=
  String.ofList [Nat.digitChar (b.toNat / 16), Nat.digitChar (b.toNat % 16)]

def message : Malformed → String
  | emptyFrame => "empty frame"
  | unknownOpcode opcode => s!"unknown opcode 0x{twoDigits opcode}"
  | truncatedTag length => s!"truncated tag ({length} bytes)"
  | missingFlag => "ack missing multiple flag"

def toError (m : Malformed) : Error := .handler m.message

end Malformed

def tagSize : Nat := 8

def readTag (body : Bytes) : Except Malformed Tag :=
  if body.length < tagSize then .error (.truncatedTag body.length)
  else .ok (UInt64.ofNat (BigEndian.decode (body.take tagSize)))

def writeTag (tag : Tag) : Bytes := BigEndian.encode tagSize tag.toNat

namespace Command

def publishOpcode : UInt8 := 0x01
def acknowledgeOpcode : UInt8 := 0x02
def rejectOpcode : UInt8 := 0x03
def deliverOpcode : UInt8 := 0x81

def parse : Bytes → Except Malformed Command
  | [] => .error .emptyFrame
  | opcode :: body =>
    if opcode = publishOpcode then .ok (.publish body)
    else if opcode = acknowledgeOpcode then do
      let tag ← readTag body
      match body.drop tagSize with
      | [] => .error .missingFlag
      | flag :: _ => .ok (.acknowledge tag (flag != 0))
    else if opcode = rejectOpcode then return .reject (← readTag body)
    else .error (.unknownOpcode opcode)

/-- The shortest payload that spells the command. -/
def encode : Command → Bytes
  | publish body => publishOpcode :: body
  | acknowledge tag multiple => acknowledgeOpcode :: writeTag tag ++ [if multiple then 1 else 0]
  | reject tag => rejectOpcode :: writeTag tag

end Command

def delivery (tag : Tag) (body : Bytes) : Bytes :=
  Command.deliverOpcode :: writeTag tag ++ body

end MessageBroker.Loopback
