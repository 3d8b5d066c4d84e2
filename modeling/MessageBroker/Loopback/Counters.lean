/-
  MessageBroker.Loopback.Counters — what all engines together have done.

  Counters only ever grow, by amounts that do not depend on what they hold. So each
  step of an engine answers its increments, and whoever holds the shared counters
  adds them.
-/

namespace MessageBroker.Loopback

structure Counters where
  published : Nat := 0
  delivered : Nat := 0
  acknowledged : Nat := 0
  /-- Deliveries rejected, and deliveries given back by a closing connection. -/
  requeued : Nat := 0
  deriving DecidableEq, Repr

namespace Counters

def zero : Counters := {}

def add (a b : Counters) : Counters where
  published := a.published + b.published
  delivered := a.delivered + b.delivered
  acknowledged := a.acknowledged + b.acknowledged
  requeued := a.requeued + b.requeued

instance : Add Counters := ⟨add⟩

@[simp] theorem published_add (a b : Counters) : (a + b).published = a.published + b.published := rfl
@[simp] theorem delivered_add (a b : Counters) : (a + b).delivered = a.delivered + b.delivered := rfl
@[simp] theorem acknowledged_add (a b : Counters) :
    (a + b).acknowledged = a.acknowledged + b.acknowledged := rfl
@[simp] theorem requeued_add (a b : Counters) : (a + b).requeued = a.requeued + b.requeued := rfl

end Counters

end MessageBroker.Loopback
