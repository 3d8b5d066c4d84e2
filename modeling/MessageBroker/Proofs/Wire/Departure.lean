/-
  MessageBroker.Proofs.Wire.Departure — what becomes of the frames of an outbox.

  Payloads are queued, and the bytes of their frames leave in the same order: a socket takes
  them, or they are discarded. `lastBytes` says where each frame ends in the stream of all
  that is queued, and `framesSent` how many of these last bytes a socket took.
  - `Books`: what has left and what is unwritten are the frames of all payloads, and discarded
    is only up to the end of a frame. Kept by queueing and discarding (`Books.changes`) and by
    writing (`Books.write`).
  - `Books.framesSent_eq_iff`: all frames are sent exactly if the socket took every byte.
-/

import Mathlib.Tactic.ByContra
import MessageBroker.Wire.Outbox

namespace MessageBroker.Wire

/-! ## Where frames end -/

/-- The place of the last byte of each frame, where the first frame begins at `start`. -/
def lastBytes (start : Nat) : List Bytes → List Nat
  | [] => []
  | payload :: rest =>
    let next := start + (Frame.encode payload).length
    (next - 1) :: lastBytes next rest

@[simp] theorem length_lastBytes (start : Nat) (payloads : List Bytes) :
    (lastBytes start payloads).length = payloads.length := by
  induction payloads generalizing start with
  | nil => rfl
  | cons payload rest ih => rw [lastBytes, List.length_cons, List.length_cons, ih]

theorem lastBytes_append (start : Nat) (first second : List Bytes) :
    lastBytes start (first ++ second) =
      lastBytes start first ++ lastBytes (start + (Frame.encodeAll first).length) second := by
  induction first generalizing start with
  | nil => rfl
  | cons payload rest ih =>
    rw [List.cons_append, lastBytes, ih, lastBytes, Frame.encodeAll_cons, List.length_append, ← Nat.add_assoc,
      List.cons_append]

theorem lt_of_mem_lastBytes {start i : Nat} {payloads : List Bytes} (h : i ∈ lastBytes start payloads) :
    i < start + (Frame.encodeAll payloads).length := by
  induction payloads generalizing start with
  | nil => cases h
  | cons payload rest ih =>
    have hpos : 0 < (Frame.encode payload).length := by
      rw [Frame.length_encode, Frame.headerSize]
      omega
    rw [Frame.encodeAll_cons, List.length_append, ← Nat.add_assoc]
    rcases List.mem_cons.mp h with rfl | h
    · omega
    · exact ih h

theorem end_mem_lastBytes {payloads : List Bytes} (h : Frame.encodeAll payloads ≠ []) :
    (Frame.encodeAll payloads).length - 1 ∈ lastBytes 0 payloads := by
  cases hsplit : payloads.reverse with
  | nil =>
    rw [List.reverse_eq_nil_iff.mp hsplit] at h
    exact absurd rfl h
  | cons last earlier =>
    obtain rfl : payloads = earlier.reverse ++ [last] := by
      rw [← List.reverse_cons, ← hsplit, List.reverse_reverse]
    rw [lastBytes_append, Frame.encodeAll_append, List.length_append]
    refine List.mem_append_right _ (List.mem_singleton.mpr ?_)
    rw [Frame.encodeAll_singleton, Nat.zero_add]

/-! ## Bytes that have left -/

structure Departure where
  byte : UInt8
  /-- A socket took it; else it was discarded. -/
  taken : Bool
  deriving DecidableEq, Repr

def Departure.ofBytes (taken : Bool) (bs : Bytes) : List Departure := bs.map (⟨·, taken⟩)

@[simp] theorem Departure.map_byte_ofBytes (taken : Bool) (bs : Bytes) : (ofBytes taken bs).map (·.byte) = bs := by
  rw [ofBytes, List.map_map]
  exact List.map_id bs

theorem Departure.taken_of_mem_ofBytes {taken : Bool} {bs : Bytes} {d : Departure} (h : d ∈ ofBytes taken bs) :
    d.taken = taken := by
  obtain ⟨b, -, rfl⟩ := List.mem_map.mp h
  rfl

/-- How many frames the last byte of which a socket took, of those of some payloads. -/
def framesSent (queued : List Bytes) (gone : List Departure) : Nat :=
  (lastBytes 0 queued).countP fun i => gone[i]?.any (·.taken)

namespace Outbox

inductive Change where
  | push (payload : Bytes)
  | clear
  deriving DecidableEq, Repr

def changed (o : Outbox) : Change → Outbox
  | .push payload => o.push payload
  | .clear => o.clear

def Change.queues : Change → List Bytes
  | .push payload => [payload]
  | .clear => []

def Change.discards (o : Outbox) : Change → Bytes
  | .push _ => []
  | .clear => o.unwritten

def discards (o : Outbox) : List Change → Bytes
  | [] => []
  | e :: rest => e.discards o ++ (o.changed e).discards rest

/-! ## The account of all that is queued -/

structure Books (queued : List Bytes) (gone : List Departure) (o : Outbox) : Prop where
  offset_le : o.offset ≤ o.buffer.length
  queued_eq : o.queued = queued.length
  /-- What has left and what is unwritten are the frames queued. -/
  stream_eq : gone.map (·.byte) ++ o.unwritten = Frame.encodeAll queued
  /-- Where bytes were discarded, so was the last byte of a frame. -/
  discarded : ∀ d ∈ gone, d.taken = false → ∃ i ∈ lastBytes 0 queued, ∃ d', gone[i]? = some d' ∧ d'.taken = false

theorem books_empty : Books [] [] {} :=
  ⟨Nat.le_refl 0, rfl, rfl, nofun⟩

section
variable {queued : List Bytes} {gone : List Departure} {o : Outbox}

theorem Books.length_eq (h : Books queued gone o) : gone.length + o.unwritten.length = (Frame.encodeAll queued).length := by
  rw [← h.stream_eq, List.length_append, List.length_map]

theorem Books.push (h : Books queued gone o) (payload : Bytes) : Books (queued ++ [payload]) gone (o.push payload) where
  offset_le := offset_le_push h.offset_le payload
  queued_eq := by
    rw [List.length_append, ← h.queued_eq]
    rfl
  stream_eq := by
    rw [unwritten_push h.offset_le, ← List.append_assoc, h.stream_eq, Frame.encodeAll_append,
      Frame.encodeAll_singleton]
  discarded d hd hnot := by
    obtain ⟨i, hi, hd'⟩ := h.discarded d hd hnot
    rw [lastBytes_append]
    exact ⟨i, List.mem_append_left _ hi, hd'⟩

theorem Books.exists_unsent (h : Books queued gone o) (hsome : o.unwritten ≠ []) :
    ∃ j < o.unwritten.length, gone.length + j ∈ lastBytes 0 queued := by
  have hlength := h.length_eq
  have hpos := List.length_pos_iff.mpr hsome
  have hstream : Frame.encodeAll queued ≠ [] := by
    rw [← h.stream_eq]
    exact List.append_ne_nil_of_right_ne_nil _ hsome
  refine ⟨o.unwritten.length - 1, by omega, ?_⟩
  have hend : gone.length + (o.unwritten.length - 1) = (Frame.encodeAll queued).length - 1 := by omega
  rw [hend]
  exact end_mem_lastBytes hstream

/-- All that is unwritten is discarded, which is up to the end of the last frame. -/
theorem Books.clear (h : Books queued gone o) : Books queued (gone ++ Departure.ofBytes false o.unwritten) o.clear where
  offset_le := Nat.le_refl 0
  queued_eq := h.queued_eq
  stream_eq := by
    rw [unwritten_clear, List.append_nil, List.map_append, Departure.map_byte_ofBytes, h.stream_eq]
  discarded d hd hnot := by
    by_cases hnone : o.unwritten = []
    · rw [hnone, Departure.ofBytes, List.map_nil, List.append_nil] at hd ⊢
      exact h.discarded d hd hnot
    · obtain ⟨j, hj, hmem⟩ := h.exists_unsent hnone
      refine ⟨_, hmem, ⟨o.unwritten[j], false⟩, ?_, rfl⟩
      rw [List.getElem?_append_right (Nat.le_add_right _ j), Nat.add_sub_cancel_left, Departure.ofBytes,
        List.getElem?_map, List.getElem?_eq_getElem hj, Option.map_some]

theorem Books.change (h : Books queued gone o) (e : Change) :
    Books (queued ++ e.queues) (gone ++ Departure.ofBytes false (e.discards o)) (o.changed e) := by
  cases e with
  | push payload =>
    rw [Change.discards, Departure.ofBytes, List.map_nil, List.append_nil]
    exact h.push payload
  | clear =>
    rw [Change.queues, List.append_nil]
    exact h.clear

theorem Books.changes (h : Books queued gone o) (changes : List Change) :
    Books (queued ++ changes.flatMap Change.queues) (gone ++ Departure.ofBytes false (o.discards changes))
      (changes.foldl changed o) := by
  induction changes generalizing queued gone o with
  | nil => simpa [discards, Departure.ofBytes] using h
  | cons e rest ih =>
    have hrest := ih (h.change e)
    rw [List.append_assoc, List.append_assoc, Departure.ofBytes, Departure.ofBytes, ← List.map_append] at hrest
    exact hrest

theorem Books.write (h : Books queued gone o) {written : Bytes} {o' : Outbox}
    (hunwritten : o.unwritten = written ++ o'.unwritten) (hqueued : o'.queued = o.queued)
    (hoffset : o'.offset ≤ o'.buffer.length) : Books queued (gone ++ Departure.ofBytes true written) o' where
  offset_le := hoffset
  queued_eq := hqueued.trans h.queued_eq
  stream_eq := by
    rw [← h.stream_eq, hunwritten, List.map_append, Departure.map_byte_ofBytes, List.append_assoc]
  discarded d hd hnot := by
    have hold : d ∈ gone := by
      refine (List.mem_append.mp hd).resolve_right fun hnew => ?_
      rw [Departure.taken_of_mem_ofBytes hnew] at hnot
      cases hnot
    obtain ⟨i, hi, d', hat, hnot'⟩ := h.discarded d hold hnot
    refine ⟨i, hi, d', ?_, hnot'⟩
    rw [List.getElem?_append_left (List.getElem?_eq_some_iff.mp hat).1, hat]

/-! ## How many frames are sent -/

theorem Books.framesSent_le (h : Books queued gone o) : framesSent queued gone ≤ o.queued := by
  rw [h.queued_eq, ← length_lastBytes 0 queued]
  exact List.countP_le_length

/-- All frames are sent exactly if nothing is unwritten and nothing was discarded. -/
theorem Books.framesSent_eq_iff (h : Books queued gone o) :
    framesSent queued gone = o.queued ↔ o.unwritten = [] ∧ ∀ d ∈ gone, d.taken = true := by
  rw [h.queued_eq, ← length_lastBytes 0 queued, framesSent, List.countP_eq_length]
  constructor
  · intro hall
    refine ⟨?_, fun d hd => ?_⟩
    · by_contra hsome
      obtain ⟨j, -, hmem⟩ := h.exists_unsent hsome
      have hsent := hall _ hmem
      rw [List.getElem?_eq_none (Nat.le_add_right _ j)] at hsent
      cases hsent
    · by_contra hnot
      obtain ⟨i, hi, d', hat, hnot'⟩ := h.discarded d hd (by simpa using hnot)
      have htaken := hall i hi
      rw [hat, Option.any_some, hnot'] at htaken
      cases htaken
  · rintro ⟨hnone, htaken⟩ i hi
    have hlength := h.length_eq
    rw [hnone, List.length_nil] at hlength
    have hlt := lt_of_mem_lastBytes hi
    rw [Nat.zero_add, ← hlength, Nat.add_zero] at hlt
    rw [List.getElem?_eq_getElem hlt, Option.any_some]
    exact htaken _ (List.getElem_mem hlt)

end

end Outbox

end MessageBroker.Wire
