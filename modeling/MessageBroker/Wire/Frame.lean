/-
  MessageBroker.Wire.Frame — one frame of the stream: a four-byte length, then the payload.

  A stream of bytes carries no boundaries, so each payload travels behind its length,
  written big-endian in 32 bits. `peek` inspects the start of a buffer without taking
  anything from it: a frame is complete, or so many bytes are missing, or the announced
  length is above the limit, which is refused before any of the body has arrived.
-/

import MessageBroker.Wire.BigEndian

namespace MessageBroker.Wire

namespace Frame

def headerSize : Nat := 4

/-- The payload limit of a reader that was given none: 16 MiB. -/
def defaultLimit : Nat := 16 * 1024 * 1024

/-- A payload behind its length. The length field keeps the low 32 bits of the length. -/
def encode (payload : Bytes) : Bytes := BigEndian.encode headerSize payload.length ++ payload

def encodeAll (payloads : List Bytes) : Bytes := payloads.flatMap encode

@[simp] theorem length_encode (payload : Bytes) :
    (encode payload).length = headerSize + payload.length := by
  simp [encode]

theorem encodeAll_cons (payload : Bytes) (rest : List Bytes) : encodeAll (payload :: rest) = encode payload ++ encodeAll rest :=
  List.flatMap_cons

theorem encodeAll_singleton (payload : Bytes) : encodeAll [payload] = encode payload :=
  List.append_nil _

theorem encodeAll_append (first second : List Bytes) : encodeAll (first ++ second) = encodeAll first ++ encodeAll second :=
  List.flatMap_append

end Frame

inductive Verdict where
  /-- A whole frame: the payload's length and the frame's. -/
  | complete (len total : Nat)
  /-- This many bytes are still missing to the next verdict. -/
  | incomplete (missing : Nat)
  /-- A length above the limit is announced. -/
  | tooLarge (len : Nat)
  deriving DecidableEq, Repr

/-- Inspect the frame at the start of a buffer, for payloads of at most `limit` bytes. -/
def Frame.peek (limit : Nat) : Bytes → Verdict
  | a :: b :: c :: d :: body =>
    let len := BigEndian.decode [a, b, c, d]
    if limit < len then .tooLarge len
    else
      let arrived := (body.take len).length
      if arrived < len then .incomplete (len - arrived) else .complete len (headerSize + len)
  | short => .incomplete (headerSize - short.length)

theorem Frame.peek_complete {limit : Nat} {bs : Bytes} {len total : Nat}
    (h : Frame.peek limit bs = .complete len total) :
    total = headerSize + len ∧ total ≤ bs.length ∧ len ≤ limit := by
  unfold Frame.peek at h
  split at h
  · rename_i a b c d body
    simp only at h
    split at h
    · cases h
    · split at h
      · cases h
      · injection h with hlen htotal
        subst hlen
        simp only [List.length_take, List.length_cons, headerSize] at *
        omega
  · cases h

theorem Frame.peek_append_of_tooLarge {limit : Nat} {bs : Bytes} {len : Nat}
    (h : Frame.peek limit bs = .tooLarge len) (more : Bytes) : Frame.peek limit (bs ++ more) = .tooLarge len := by
  unfold Frame.peek at h
  split at h
  · simp only at h
    split at h
    · rename_i hlimit
      rw [← h]
      exact if_pos hlimit
    · split at h <;> cases h
  · cases h

end MessageBroker.Wire
