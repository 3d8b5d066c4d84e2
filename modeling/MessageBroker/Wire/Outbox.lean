/-
  MessageBroker.Wire.Outbox — frames waiting to be written.

  Payloads are framed as they are queued, behind whatever is queued already. The bytes
  before `offset` are written; when all are, the buffer is emptied. Frames queued are counted
  in a `Nat`; `Proofs.Connection.Counting` says when 64 bits hold the count.
  - `unwritten_push` / `unwritten_advance` / `unwritten_clear`: what each operation does
    to the bytes still to be written.
  - `offset_le_push` / `offset_le_advance`: the offset stays within the buffer.
-/

import MessageBroker.Wire.Frame

namespace MessageBroker.Wire

structure Outbox where
  /-- Frames queued; the bytes before `offset` are written. -/
  buffer : Bytes := []
  offset : Nat := 0
  /-- Payloads queued since the outbox was made. -/
  queued : Nat := 0
  deriving DecidableEq, Repr

namespace Outbox

def empty : Outbox := {}

def unwritten (o : Outbox) : Bytes := o.buffer.drop o.offset

def pending (o : Outbox) : Nat := o.buffer.length - o.offset

def isEmpty (o : Outbox) : Bool := o.pending == 0

def push (o : Outbox) (payload : Bytes) : Outbox :=
  { o with buffer := o.buffer ++ Frame.encode payload, queued := o.queued + 1 }

def clear (o : Outbox) : Outbox := { o with buffer := [], offset := 0 }

def advance (o : Outbox) (n : Nat) : Outbox :=
  if o.buffer.length ≤ o.offset + n then o.clear else { o with offset := o.offset + n }

/-! ## The unwritten bytes -/

@[simp] theorem length_unwritten (o : Outbox) : o.unwritten.length = o.pending := by
  simp [unwritten, pending]

theorem isEmpty_iff (o : Outbox) : o.isEmpty = true ↔ o.unwritten = [] := by
  rw [← List.length_eq_zero_iff, length_unwritten]
  simp [isEmpty]

theorem unwritten_push {o : Outbox} (h : o.offset ≤ o.buffer.length) (payload : Bytes) :
    (o.push payload).unwritten = o.unwritten ++ Frame.encode payload :=
  List.drop_append_of_le_length h

@[simp] theorem unwritten_clear (o : Outbox) : o.clear.unwritten = [] := rfl

@[simp] theorem unwritten_advance (o : Outbox) (n : Nat) :
    (o.advance n).unwritten = o.unwritten.drop n := by
  unfold advance
  split
  · rename_i h
    rw [unwritten_clear, unwritten, List.drop_drop, List.drop_eq_nil_of_le h]
  · simp [unwritten]

theorem offset_le_push {o : Outbox} (h : o.offset ≤ o.buffer.length) (payload : Bytes) :
    (o.push payload).offset ≤ (o.push payload).buffer.length := by
  simp only [push, List.length_append]; omega

theorem offset_le_advance (o : Outbox) (n : Nat) :
    (o.advance n).offset ≤ (o.advance n).buffer.length := by
  unfold advance; split
  · exact Nat.le_refl 0
  · simp only; omega

end Outbox

end MessageBroker.Wire
