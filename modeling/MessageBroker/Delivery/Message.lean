/-
  MessageBroker.Delivery.Message — what can be delivered.

  A tracker keeps messages and adds up their sizes; it looks at nothing else of them.
-/

import MessageBroker.Wire.BigEndian

namespace MessageBroker.Delivery

/-- A message has a payload size in bytes, 0 when it is unknown. -/
class Message (M : Type) where
  size : M → UInt64 := fun _ => 0

instance : Message Wire.Bytes where
  size bytes := UInt64.ofNat bytes.length

/-- A number stands for a message kept elsewhere, of unknown size. -/
instance : Message UInt64 where

end MessageBroker.Delivery
