/-
  MessageBroker.Wire.Decoder — payloads out of a stream that arrives in pieces.

  The decoder is fed bytes as they arrive and hands out whole payloads. It keeps one
  buffer: the bytes before `pos` are handed out already, the rest (`unread`) is not.
  Handed-out bytes are dropped when more arrive and they fill more than half of the
  buffer, and at once when nothing else is left.
  Its counters fit in 64 bits while fewer than 2^64 bytes and events come (`counts_le` in
  `Proofs.Wire.Decoding`).
  - `unread_feed` / `unread_consume` / `unread_reset`: what each operation does to the
    unread bytes.
  - `decode_complete` / `decode_incomplete` / `decode_tooLarge`: what `decode` answers,
    by what `Frame.peek` finds at the start of the unread bytes.
-/

import MessageBroker.Error
import MessageBroker.Wire.Frame

namespace MessageBroker.Wire

structure Decoder where
  /-- Bytes fed; those before `pos` are handed out. -/
  buffer : Bytes := []
  pos : Nat := 0
  /-- The longest payload accepted. -/
  limit : Nat := Frame.defaultLimit
  /-- Payloads handed out, their bytes, and frames refused for their length. -/
  frames : Nat := 0
  bytes : Nat := 0
  rejected : Nat := 0
  deriving DecidableEq, Repr

namespace Decoder

def ofLimit (limit : Nat) : Decoder := { limit }

def unread (d : Decoder) : Bytes := d.buffer.drop d.pos

def hasUnread (d : Decoder) : Bool := d.pos < d.buffer.length

/-- Drop the handed-out bytes if they fill more than half of the buffer. -/
def compact (d : Decoder) : Decoder :=
  if 0 < d.pos ∧ d.buffer.length / 2 < d.pos then { d with buffer := d.unread, pos := 0 } else d

def feed (d : Decoder) (data : Bytes) : Decoder :=
  { d.compact with buffer := d.compact.buffer ++ data }

/-- Count a payload of `len` bytes as handed out and step over its frame. -/
def consume (d : Decoder) (len total : Nat) : Decoder :=
  let next := { d with pos := d.pos + total, frames := d.frames + 1, bytes := d.bytes + len }
  if next.pos = next.buffer.length then { next with buffer := [], pos := 0 } else next

/-- The next whole payload, or `none` while bytes are missing. A length above the limit
    is an error: after it the stream has no known frame boundary. -/
def decode (d : Decoder) : Except Error (Option Bytes) × Decoder :=
  match Frame.peek d.limit d.unread with
  | .incomplete _ => (.ok none, d)
  | .tooLarge len => (.error (.frameTooLarge len d.limit), { d with rejected := d.rejected + 1 })
  | .complete len total =>
    (.ok (some ((d.unread.drop Frame.headerSize).take len)), d.consume len total)

def reset (d : Decoder) : Decoder := { d with buffer := [], pos := 0 }

theorem length_unread_decode {d d' : Decoder} {payload : Bytes}
    (h : d.decode = (.ok (some payload), d')) : d'.unread.length < d.unread.length := by
  unfold decode at h
  split at h
  · cases h
  · cases h
  · rename_i len total hpeek
    obtain ⟨htotal, hle, -⟩ := Frame.peek_complete hpeek
    injection h with _ hd
    subst hd
    simp only [unread, List.length_drop, Frame.headerSize] at *
    unfold consume
    simp only
    split <;> simp only [List.length_nil] <;> omega

def drain (d : Decoder) : List Bytes × Option Error × Decoder :=
  match h : d.decode with
  | (.ok (some payload), next) =>
    have := length_unread_decode h
    let (payloads, refusal, last) := next.drain
    (payload :: payloads, refusal, last)
  | (.ok none, next) => ([], none, next)
  | (.error e, next) => ([], some e, next)
termination_by d.unread.length

/-! ## The unread bytes -/

@[simp] theorem unread_compact (d : Decoder) : d.compact.unread = d.unread := by
  unfold compact; split <;> simp [unread]

theorem pos_le_compact {d : Decoder} (h : d.pos ≤ d.buffer.length) :
    d.compact.pos ≤ d.compact.buffer.length := by
  unfold compact; split <;> simp_all

theorem unread_feed {d : Decoder} (h : d.pos ≤ d.buffer.length) (data : Bytes) :
    (d.feed data).unread = d.unread ++ data := by
  have hp := pos_le_compact h
  show List.drop d.compact.pos (d.compact.buffer ++ data) = d.unread ++ data
  rw [List.drop_append_of_le_length hp, ← unread_compact d]
  rfl

@[simp] theorem unread_reset (d : Decoder) : d.reset.unread = [] := rfl

theorem unread_consume (d : Decoder) (len total : Nat) : (d.consume len total).unread = d.unread.drop total := by
  unfold consume unread
  simp only [List.drop_drop]
  split
  · rename_i h
    rw [h, List.drop_length, List.drop_nil]
  · rfl

theorem hasUnread_iff (d : Decoder) : d.hasUnread = true ↔ d.unread ≠ [] := by
  rw [hasUnread, decide_eq_true_iff, unread, ne_eq, List.drop_eq_nil_iff, Nat.not_le]

/-! ## The position, the limit and the counts -/

theorem pos_le_feed {d : Decoder} (h : d.pos ≤ d.buffer.length) (data : Bytes) :
    (d.feed data).pos ≤ (d.feed data).buffer.length := by
  have hp := pos_le_compact h
  simp only [feed, List.length_append]
  omega

theorem pos_le_consume {d : Decoder} {total : Nat} (h : total ≤ d.unread.length) (hpos : d.pos ≤ d.buffer.length)
    (len : Nat) : (d.consume len total).pos ≤ (d.consume len total).buffer.length := by
  rw [unread, List.length_drop] at h
  unfold consume
  simp only
  split
  · exact Nat.le_refl 0
  · simp only
    omega

@[simp] theorem limit_feed (d : Decoder) (data : Bytes) : (d.feed data).limit = d.limit := by
  simp only [feed, compact]; split <;> rfl

@[simp] theorem frames_feed (d : Decoder) (data : Bytes) : (d.feed data).frames = d.frames := by
  simp only [feed, compact]; split <;> rfl

@[simp] theorem bytes_feed (d : Decoder) (data : Bytes) : (d.feed data).bytes = d.bytes := by
  simp only [feed, compact]; split <;> rfl

@[simp] theorem rejected_feed (d : Decoder) (data : Bytes) : (d.feed data).rejected = d.rejected := by
  simp only [feed, compact]; split <;> rfl

@[simp] theorem limit_consume (d : Decoder) (len total : Nat) : (d.consume len total).limit = d.limit := by
  simp only [consume]; split <;> rfl

@[simp] theorem frames_consume (d : Decoder) (len total : Nat) : (d.consume len total).frames = d.frames + 1 := by
  simp only [consume]; split <;> rfl

@[simp] theorem bytes_consume (d : Decoder) (len total : Nat) : (d.consume len total).bytes = d.bytes + len := by
  simp only [consume]; split <;> rfl

@[simp] theorem rejected_consume (d : Decoder) (len total : Nat) : (d.consume len total).rejected = d.rejected := by
  simp only [consume]; split <;> rfl

/-! ## Decoding -/

theorem decode_incomplete {d : Decoder} {k : Nat} (h : Frame.peek d.limit d.unread = .incomplete k) :
    d.decode = (.ok none, d) := by
  simp [decode, h]

theorem decode_tooLarge {d : Decoder} {len : Nat} (h : Frame.peek d.limit d.unread = .tooLarge len) :
    d.decode = (.error (.frameTooLarge len d.limit), { d with rejected := d.rejected + 1 }) := by
  simp [decode, h]

theorem decode_complete {d : Decoder} {len total : Nat}
    (h : Frame.peek d.limit d.unread = .complete len total) :
    d.decode = (.ok (some ((d.unread.drop Frame.headerSize).take len)), d.consume len total) := by
  simp [decode, h]

/-! ## Draining -/

theorem drain_of_none {d next : Decoder} (h : d.decode = (.ok none, next)) : d.drain = ([], none, next) := by
  rw [drain]; split <;> simp_all

theorem drain_of_error {d next : Decoder} {e : Error} (h : d.decode = (.error e, next)) :
    d.drain = ([], some e, next) := by
  rw [drain]; split <;> simp_all

theorem drain_of_payload {d next : Decoder} {payload : Bytes} (h : d.decode = (.ok (some payload), next)) :
    d.drain = (payload :: next.drain.1, next.drain.2) := by
  rw [drain]; split <;> simp_all

end Decoder

end MessageBroker.Wire
