/-
  MessageBroker.Proofs.Wire.Buffering — how much of a stream a decoder keeps.

  Whoever reads a stream goes in rounds: at most so many bytes are fed, in any pieces, and
  then payloads are asked for until none is left. A length above the limit is refused
  before its body has come, so little is unread after a round (`length_unread_of_none`).
  Bytes that are handed out stay in the buffer until they fill more than half of it; what
  such a buffer can hold is twice what is unread (`length_compact`), and a round adds to
  that what it feeds.
  - `Filled`: what holds while a round is fed (`Filled.feed`).
  - `Bounded`: what holds at every moment of a round (`Settled.bounded`).
  - `Settled.rounds`: after any number of rounds no more is kept than after one.
-/

import MessageBroker.Proofs.Wire.Decoding
import MessageBroker.Proofs.Wire.Verdicts

namespace MessageBroker.Wire

/-- What begins with neither a whole frame nor a length above the limit is short. -/
theorem Frame.length_of_incomplete {limit : Nat} {bs : Bytes} {k : Nat} (h : Frame.peek limit bs = .incomplete k) :
    bs.length ≤ limit + 3 := by
  rcases peek_eq_incomplete_iff.mp h with ⟨hshort, -⟩ | ⟨-, hlimit, hmissing, hsum⟩
  · rw [headerSize] at hshort
    omega
  · rw [headerSize] at hsum
    omega

namespace Decoder

/-! ## Rounds -/

structure Round where
  pieces : List Bytes
  decodes : Nat
  deriving DecidableEq, Repr

def Round.size (r : Round) : Nat := (r.pieces.map List.length).sum

def Round.events (r : Round) : List Event := r.pieces.map .feed ++ List.replicate r.decodes .decode

/-- The last decode of the round answers none. -/
def Round.Completes (d : Decoder) (r : Round) : Prop :=
  ∃ n, r.decodes = n + 1 ∧
    (History.final next d (r.pieces.map .feed ++ List.replicate n .decode)).decode.1 = .ok none

def after (d : Decoder) (rounds : List Round) : Decoder := History.final next d (rounds.flatMap Round.events)

/-- Rounds of at most `budget` bytes each, one after the other, each of which completes. -/
def Rounds (budget : Nat) : Decoder → List Round → Prop
  | _, [] => True
  | d, r :: rest => r.size ≤ budget ∧ r.Completes d ∧ Rounds budget (History.final next d r.events) rest

theorem after_cons (d : Decoder) (r : Round) (rest : List Round) :
    d.after (r :: rest) = (History.final next d r.events).after rest :=
  History.final_append d r.events _

theorem rounds_snoc {budget : Nat} {d : Decoder} {rounds : List Round} {r : Round} (h : Rounds budget d rounds)
    (hsize : r.size ≤ budget) (hcompletes : r.Completes (d.after rounds)) : Rounds budget d (rounds ++ [r]) := by
  induction rounds generalizing d with
  | nil => exact ⟨hsize, hcompletes, trivial⟩
  | cons r' rest ih =>
    obtain ⟨hsize', hcompletes', hrest⟩ := h
    rw [after_cons] at hcompletes
    exact ⟨hsize', hcompletes', ih hrest hcompletes⟩

theorem after_snoc (d : Decoder) (rounds : List Round) (r : Round) :
    d.after (rounds ++ [r]) = History.final next (d.after rounds) r.events := by
  rw [after, List.flatMap_append, History.final_append, List.flatMap_singleton]
  rfl

/-! ## One feed, one decode -/

section
variable {d : Decoder} {budget count : Nat}

/-- What is left of a buffer before bytes are appended: its unread bytes, or at most twice
    as much. -/
theorem length_compact (hpos : d.pos ≤ d.buffer.length) : d.compact.buffer.length ≤ 2 * d.unread.length := by
  have hunread : d.unread.length = d.buffer.length - d.pos := List.length_drop
  unfold compact
  split
  · show d.unread.length ≤ 2 * d.unread.length
    omega
  · omega

theorem length_compact_le (d : Decoder) : d.compact.buffer.length ≤ d.buffer.length := by
  unfold compact
  split
  · show (d.buffer.drop d.pos).length ≤ d.buffer.length
    rw [List.length_drop]
    omega
  · exact Nat.le_refl _

/-- Where none is answered, no more is unread than the start of one frame. -/
theorem length_unread_of_none (h : d.decode.1 = .ok none) : d.unread.length ≤ d.limit + 3 := by
  cases hpeek : Frame.peek d.limit d.unread with
  | incomplete k => exact Frame.length_of_incomplete hpeek
  | tooLarge len =>
    rw [decode_tooLarge hpeek] at h
    cases h
  | complete len total =>
    rw [decode_complete hpeek] at h
    cases h

/-- A decode lets neither the buffer nor the unread bytes grow, and keeps the limit. -/
theorem decode_shrinks (hpos : d.pos ≤ d.buffer.length) :
    (d.next .decode).limit = d.limit ∧ (d.next .decode).pos ≤ (d.next .decode).buffer.length ∧
      (d.next .decode).unread.length ≤ d.unread.length ∧ (d.next .decode).buffer.length ≤ d.buffer.length := by
  rw [next]
  cases hpeek : Frame.peek d.limit d.unread with
  | incomplete k =>
    rw [decode_incomplete hpeek]
    exact ⟨rfl, hpos, Nat.le_refl _, Nat.le_refl _⟩
  | tooLarge len =>
    rw [decode_tooLarge hpeek]
    exact ⟨rfl, hpos, Nat.le_refl _, Nat.le_refl _⟩
  | complete len total =>
    obtain ⟨-, hle, -⟩ := Frame.peek_complete hpeek
    rw [decode_complete hpeek]
    refine ⟨limit_consume .., pos_le_consume hle hpos len, ?_, ?_⟩
    · rw [unread_consume, List.length_drop]
      omega
    · unfold consume
      simp only
      split
      · exact Nat.zero_le _
      · exact Nat.le_refl _

/-- A round may begin: no more is unread than the start of one frame. -/
structure Settled (d : Decoder) : Prop where
  pos_le : d.pos ≤ d.buffer.length
  unread_le : d.unread.length ≤ d.limit + 3

structure Filled (count : Nat) (d : Decoder) : Prop where
  pos_le : d.pos ≤ d.buffer.length
  unread_le : d.unread.length ≤ d.limit + 3 + count
  /-- What the next feed appends to. -/
  compact_le : d.compact.buffer.length ≤ 2 * (d.limit + 3) + count

/-- What a decoder holds that is fed at most `budget` bytes in a round. -/
structure Bounded (budget : Nat) (d : Decoder) : Prop where
  pos_le : d.pos ≤ d.buffer.length
  unread_le : d.unread.length ≤ d.limit + 3 + budget
  buffer_le : d.buffer.length ≤ 2 * (d.limit + 3) + budget

theorem Settled.filled (h : Settled d) : Filled 0 d := by
  have hcompact := length_compact h.pos_le
  have hunread := h.unread_le
  exact ⟨h.pos_le, hunread, by omega⟩

theorem Filled.feed (h : Filled count d) (data : Bytes) :
    Filled (count + data.length) (d.feed data) ∧
      (d.feed data).buffer.length ≤ 2 * (d.limit + 3) + (count + data.length) := by
  have hunread := h.unread_le
  have hcompact := h.compact_le
  have hbuffer : (d.feed data).buffer.length = d.compact.buffer.length + data.length := List.length_append
  have hagain := length_compact_le (d.feed data)
  refine ⟨⟨pos_le_feed h.pos_le data, ?_, ?_⟩, by omega⟩
  · rw [unread_feed h.pos_le, limit_feed, List.length_append]
    omega
  · rw [limit_feed]
    omega

theorem Filled.bounded (h : Filled count d) (hcount : count ≤ budget)
    (hbuffer : d.buffer.length ≤ 2 * (d.limit + 3) + budget) : Bounded budget d := by
  have hunread := h.unread_le
  exact ⟨h.pos_le, by omega, hbuffer⟩

theorem Bounded.decode (h : Bounded budget d) : Bounded budget (d.next .decode) := by
  obtain ⟨hlimit, hpos, hunread, hbuffer⟩ := decode_shrinks h.pos_le
  have hunread' := h.unread_le
  have hbuffer' := h.buffer_le
  exact ⟨hpos, by omega, by omega⟩

/-! ## One round -/

theorem Bounded.decodes (h : Bounded budget d) {n : Nat} {first : List Event}
    (hfirst : first <+: List.replicate n .decode) :
    Bounded budget (History.final next d first) ∧ (History.final next d first).limit = d.limit := by
  induction n generalizing d first with
  | zero =>
    obtain rfl : first = [] := List.prefix_nil.mp hfirst
    exact ⟨h, rfl⟩
  | succ n ih =>
    rw [List.replicate_succ, List.prefix_cons_iff] at hfirst
    rcases hfirst with rfl | ⟨rest, rfl, hrest⟩
    · exact ⟨h, rfl⟩
    · obtain ⟨hbounded, hlimit⟩ := ih h.decode hrest
      exact ⟨hbounded, hlimit.trans (decode_shrinks h.pos_le).1⟩

theorem Filled.round (h : Filled count d) (hbounded : Bounded budget d) {pieces : List Bytes}
    (hsize : count + (pieces.map List.length).sum ≤ budget) {n : Nat} {first : List Event}
    (hfirst : first <+: pieces.map .feed ++ List.replicate n .decode) :
    Bounded budget (History.final next d first) ∧ (History.final next d first).limit = d.limit := by
  induction pieces generalizing d count first with
  | nil => exact hbounded.decodes hfirst
  | cons piece rest ih =>
    rw [List.map_cons, List.sum_cons] at hsize
    rw [List.map_cons, List.cons_append, List.prefix_cons_iff] at hfirst
    rcases hfirst with rfl | ⟨later, rfl, hlater⟩
    · exact ⟨hbounded, rfl⟩
    · obtain ⟨hfilled, hbuffer⟩ := h.feed piece
      have hnow : Bounded budget (d.feed piece) := by
        refine hfilled.bounded (by omega) ?_
        rw [limit_feed]
        omega
      obtain ⟨hend, hlimit⟩ := ih hfilled hnow (by omega) hlater
      exact ⟨hend, hlimit.trans (limit_feed d piece)⟩

theorem Settled.bounded (h : Settled d) (hbounded : Bounded budget d) {r : Round} (hsize : r.size ≤ budget)
    {first : List Event} (hfirst : first <+: r.events) :
    Bounded budget (History.final next d first) ∧ (History.final next d first).limit = d.limit :=
  h.filled.round hbounded (by rwa [Nat.zero_add]) hfirst

/-- The decode that answers none changes nothing. -/
theorem Round.Completes.decode_final {r : Round} (h : r.Completes d) :
    (History.final next d r.events).decode.1 = .ok none := by
  obtain ⟨n, hn, hnone⟩ := h
  have hevents : r.events = (r.pieces.map .feed ++ List.replicate n .decode) ++ [.decode] := by
    rw [Round.events, hn, List.replicate_succ', List.append_assoc]
  rw [hevents, History.final_append]
  generalize History.final next d (r.pieces.map .feed ++ List.replicate n .decode) = d' at hnone
  show (d'.next .decode).decode.1 = .ok none
  rcases d'.decode_cases with ⟨hd, -⟩ | ⟨len, hd, -⟩ | ⟨payload, d'', hd, -⟩
  · rw [next, hd, hnone]
  · rw [hd] at hnone
    cases hnone
  · rw [hd] at hnone
    cases hnone

/-- Rounds that complete leave the decoder as one would. -/
theorem Settled.rounds (h : Settled d) (hbounded : Bounded budget d) {rounds : List Round}
    (hrounds : Rounds budget d rounds) :
    Settled (d.after rounds) ∧ Bounded budget (d.after rounds) ∧ (d.after rounds).limit = d.limit := by
  induction rounds generalizing d with
  | nil => exact ⟨h, hbounded, rfl⟩
  | cons r rest ih =>
    obtain ⟨hsize, hcompletes, hrest⟩ := hrounds
    obtain ⟨hend, hlimit⟩ := h.bounded hbounded hsize List.prefix_rfl
    have hsettled : Settled (History.final next d r.events) :=
      ⟨hend.pos_le, length_unread_of_none hcompletes.decode_final⟩
    rw [after_cons]
    obtain ⟨hlast, hlast', hlimit'⟩ := ih hsettled hend hrest
    exact ⟨hlast, hlast', hlimit'.trans hlimit⟩

end

theorem settled_of_empty {d : Decoder} (hbuffer : d.buffer = []) (hpos : d.pos = 0) (budget : Nat) :
    Settled d ∧ Bounded budget d := by
  have hunread : d.unread.length = 0 := by rw [unread, hbuffer, List.drop_nil, List.length_nil]
  have hlength : d.buffer.length = 0 := by rw [hbuffer, List.length_nil]
  have hle : d.pos ≤ d.buffer.length := by rw [hpos]; exact Nat.zero_le _
  exact ⟨⟨hle, by omega⟩, hle, by omega, by omega⟩

end Decoder

end MessageBroker.Wire
