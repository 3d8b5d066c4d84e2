/-
  MessageBroker.Proofs.Connection.Transmission — what is queued is what the peer receives.

  Payloads are queued in an outbox, and flushes write it to a socket that takes what it
  likes. Byte by byte, what has left the outbox and what it still holds are the frames of
  the payloads queued.
  - `Conserves`: the invariant, with the counts; kept by queueing, flushing and clearing
    (`conserves_sending`).
  - `queued_is_transmitted`: what this says of every run, and what a peer makes of the bytes
    that the socket took.
-/

import Mathlib.Algebra.Ring.Nat
import Mathlib.Data.List.Permutation
import MessageBroker.Proofs.Connection.Stages
import MessageBroker.Proofs.History

namespace MessageBroker.Connection

open Wire

variable {σ : Type}

inductive Sending where
  | push (payload : Bytes)
  | flush (acceptances : List Acceptance)
  | clear
  deriving DecidableEq, Repr

def sending (c : Connection σ) : Sending → Connection σ
  | .push payload => { c with outbox := c.outbox.push payload }
  | .flush acceptances => (c.flush acceptances).2.1
  | .clear => { c with outbox := c.outbox.clear }

/-! ## What a moment does -/

def pushedAt (m : Moment (Connection σ) Sending) : List Bytes :=
  match m.event with
  | .push payload => [payload]
  | .flush _ | .clear => []

def takenAt (m : Moment (Connection σ) Sending) : Bytes :=
  match m.event with
  | .flush acceptances => (m.before.flush acceptances).2.2.1
  | .push _ | .clear => []

def writesAt (m : Moment (Connection σ) Sending) : List Write :=
  match m.event with
  | .flush acceptances => writes m.before.outbox acceptances
  | .push _ | .clear => []

def discardedAt (m : Moment (Connection σ) Sending) : Bytes :=
  match m.event with
  | .clear => m.before.outbox.unwritten
  | .push _ | .flush _ => []

def pushed (past : List (Moment (Connection σ) Sending)) : List Bytes := past.flatMap pushedAt

def taken (past : List (Moment (Connection σ) Sending)) : Bytes := past.flatMap takenAt

def departed (past : List (Moment (Connection σ) Sending)) : Bytes := past.flatMap fun m => takenAt m ++ discardedAt m

/-! ## Every run -/

/-- What left the outbox and what it holds are the frames of what was queued. -/
structure Conserves (past : List (Moment (Connection σ) Sending)) (c : Connection σ) : Prop where
  offset_le : c.outbox.offset ≤ c.outbox.buffer.length
  bytes_eq : departed past ++ c.outbox.unwritten = Frame.encodeAll (pushed past)
  queued_eq : c.outbox.queued = (pushed past).length
  bytesOut_eq : c.stats.bytesOut = (taken past).length
  /-- What the socket took is what the single writes offered and it agreed to. -/
  taken_eq : taken past = sent (past.flatMap writesAt)

theorem conserves_new (s : σ) (limit budget : Nat) : Conserves [] (new s limit budget) :=
  ⟨Nat.le_refl 0, rfl, rfl, rfl, rfl⟩

section
variable {past : List (Moment (Connection σ) Sending)} {c : Connection σ}

/-- A moment that loses no byte and adds none but those of the frames it queues. -/
theorem Conserves.snoc (h : Conserves past c) {e : Sending} {c' : Connection σ}
    (hoffset : c'.outbox.offset ≤ c'.outbox.buffer.length)
    (hbytes : c.outbox.unwritten ++ Frame.encodeAll (pushedAt ⟨c, e⟩) =
      (takenAt ⟨c, e⟩ ++ discardedAt ⟨c, e⟩) ++ c'.outbox.unwritten)
    (hqueued : c'.outbox.queued = c.outbox.queued + (pushedAt ⟨c, e⟩).length)
    (hout : c'.stats.bytesOut = c.stats.bytesOut + (takenAt ⟨c, e⟩).length)
    (htaken : takenAt ⟨c, e⟩ = sent (writesAt ⟨c, e⟩)) : Conserves (past ++ [⟨c, e⟩]) c' where
  offset_le := hoffset
  bytes_eq := by
    rw [departed, pushed, History.flatMap_snoc, History.flatMap_snoc, List.append_assoc, ← hbytes, ← List.append_assoc,
      Frame.encodeAll_append]
    exact congrArg (· ++ _) h.bytes_eq
  queued_eq := by rw [pushed, History.flatMap_snoc, List.length_append, hqueued, h.queued_eq, pushed]
  bytesOut_eq := by rw [taken, History.flatMap_snoc, List.length_append, hout, h.bytesOut_eq, taken]
  taken_eq := by
    rw [taken, History.flatMap_snoc, History.flatMap_snoc, sent, List.flatMap_append, htaken]
    exact congrArg (· ++ _) h.taken_eq

theorem conserves_sending (h : Conserves past c) (e : Sending) : Conserves (past ++ [⟨c, e⟩]) (c.sending e) := by
  cases e with
  | push payload =>
    have hunwritten : (c.sending (.push payload)).outbox.unwritten = c.outbox.unwritten ++ Frame.encode payload :=
      Outbox.unwritten_push h.offset_le payload
    refine h.snoc (Outbox.offset_le_push h.offset_le payload) ?_ rfl rfl rfl
    rw [hunwritten]
    simp [pushedAt, takenAt, discardedAt, Frame.encodeAll]
  | flush acceptances =>
    have hwrites := writeOutput_spec c.outbox acceptances
    have hsending : (c.sending (.flush acceptances)).outbox = (writeOutput c.outbox acceptances).outbox := by
      simp only [sending, flush_eq]
    have htaken : takenAt ⟨c, .flush acceptances⟩ = (writeOutput c.outbox acceptances).written := by
      simp only [takenAt, flush_eq]
    refine h.snoc ?_ ?_ ?_ ?_ ?_
    · rw [hsending]
      exact hwrites.offset_le h.offset_le
    · rw [htaken, hsending, hwrites.unwritten_eq]
      simp [pushedAt, discardedAt, Frame.encodeAll]
    · rw [hsending]
      exact hwrites.queued_eq
    · rw [htaken]
      simp only [sending, flush_eq]
    · rw [htaken]
      exact hwrites.written_eq
  | clear =>
    refine h.snoc (Nat.le_refl 0) ?_ rfl rfl rfl
    simp [sending, pushedAt, takenAt, discardedAt, Frame.encodeAll]

end

theorem conserves (s : σ) (limit budget : Nat) (events : List Sending) :
    Conserves (History.moments sending (new s limit budget) events)
      (History.final sending (new s limit budget) events) :=
  History.along Conserves (conserves_new s limit budget) (fun _ _ e h => conserves_sending h e) events

/-- While nothing is cleared, what has left the outbox has gone to the socket. -/
theorem departed_eq_taken {past : List (Moment (Connection σ) Sending)} (h : ∀ m ∈ past, m.event ≠ .clear) :
    departed past = taken past := by
  rw [departed, taken]
  refine List.flatMap_congr fun m hm => ?_
  have hnone : discardedAt m = [] := by
    rw [discardedAt]
    split
    · exact absurd ‹_› (h m hm)
    · rfl
    · rfl
  rw [hnone, List.append_nil]

/-- A new connection whose outbox is filled with any payloads, written to any socket and
    cleared, in any order. What has left the outbox and what it holds are the frames of the
    payloads queued, in order; the bytes that the socket took, and the payloads, are
    counted; the offset is never behind the end of the buffer, not even between the writes
    of one flush; clearing discards all unwritten bytes and counts no payload. If nothing is
    cleared, a peer that is fed the bytes taken, in any pieces, finds the first of the
    payloads, and all of them once the outbox is empty. -/
theorem queued_is_transmitted (s : σ) (limit budget : Nat) (events : List Sending) :
    let past := History.moments sending (new s limit budget) events
    let c := History.final sending (new s limit budget) events
    departed past ++ c.outbox.unwritten = Frame.encodeAll (pushed past) ∧
    taken past = sent (past.flatMap writesAt) ∧
    c.stats.bytesOut = (taken past).length ∧
    c.outbox.queued = (pushed past).length ∧
    c.outbox.offset ≤ c.outbox.buffer.length ∧
    (∀ m ∈ past, ∀ w ∈ writesAt m, ∀ n, w.answer = .bytes n → w.outbox.offset + n ≤ w.outbox.buffer.length) ∧
    (∀ m ∈ past, m.event = .clear →
      (m.before.sending m.event).outbox.unwritten = [] ∧
      (m.before.sending m.event).outbox.queued = m.before.outbox.queued) ∧
    ((∀ e ∈ events, e ≠ .clear) →
      taken past ++ c.outbox.unwritten = Frame.encodeAll (pushed past) ∧
      ∀ peerLimit, (∀ p ∈ pushed past, p.length < 2 ^ 32 ∧ p.length ≤ peerLimit) →
        ∀ pieces : List Decoder.Event, pieces.flatMap Decoder.Event.data = taken past →
          let read := History.moments Decoder.next (.ofLimit peerLimit) pieces
          ∃ left last, (History.final Decoder.next (.ofLimit peerLimit) pieces).drain = (left, none, last) ∧
            Decoder.decoded read ++ left <+: pushed past ∧
            (c.outbox.isEmpty = true → Decoder.decoded read ++ left = pushed past ∧ last.hasUnread = false)) := by
  intro past c
  have h : Conserves past c := conserves s limit budget events
  refine ⟨h.bytes_eq, h.taken_eq, h.bytesOut_eq, h.queued_eq, h.offset_le, ?_, ?_, ?_⟩
  · intro m _ w hw
    rw [writesAt] at hw
    split at hw
    · exact ((writeOutput_spec _ _).within w hw).2
    · cases hw
    · cases hw
  · intro m _ hclear
    rw [hclear]
    exact ⟨rfl, rfl⟩
  · intro hkept
    have hbytes : taken past ++ c.outbox.unwritten = Frame.encodeAll (pushed past) := by
      have hevents : past.map Moment.event = events := History.map_event_moments _ _
      rw [← departed_eq_taken fun m hm => hkept m.event (hevents ▸ List.mem_map_of_mem hm)]
      exact h.bytes_eq
    refine ⟨hbytes, fun peerLimit hadmitted pieces hpieces => ?_⟩
    rw [← hpieces] at hbytes
    obtain ⟨left, last, hdrain, hfirst, hall⟩ :=
      Decoder.drain_of_cut (fun p hp => ⟨(hadmitted p hp).2, (hadmitted p hp).1⟩) hbytes
    exact ⟨left, last, hdrain, hfirst, fun hempty => hall ((Outbox.isEmpty_iff _).mp hempty)⟩

/-- Three payloads, one of them empty; the socket takes the first frame in three pieces. -/
def letters : List Sending :=
  [.push [1, 2], .flush [.bytes 3, .interrupted, .bytes 1, .blocked], .push [7], .flush [.bytes 2], .push [],
    .flush [.bytes 100]]

theorem letters_transmitted :
    let past := History.moments sending (new () 0 0) letters
    let c := History.final sending (new () 0 0) letters
    let pieces : List Decoder.Event :=
      [.feed [0, 0, 0, 2, 1], .decode, .feed [2, 0, 0], .decode, .feed [0, 1, 7, 0, 0, 0, 0]]
    pushed past = [[1, 2], [7], []] ∧ pieces.flatMap Decoder.Event.data = taken past ∧ c.outbox.isEmpty = true ∧
    c.stats.bytesOut = 15 ∧
    ∃ left last, (History.final Decoder.next (.ofLimit 2) pieces).drain = (left, none, last) ∧
      Decoder.decoded (History.moments Decoder.next (.ofLimit 2) pieces) ++ left = [[1, 2], [7], []] ∧
      last.hasUnread = false := by
  intro past c pieces
  have hkept : ∀ e ∈ letters, e ≠ .clear := by decide
  have hpushed : pushed past = [[1, 2], [7], []] := by cbv
  have htaken : pieces.flatMap Decoder.Event.data = taken past := by cbv
  have houtbox : (History.final sending (new () 0 0) letters).outbox = { queued := 3 } := by cbv
  have hempty : c.outbox.isEmpty = true := congrArg Outbox.isEmpty houtbox
  obtain ⟨-, -, hout, -, -, -, -, hpeer⟩ := queued_is_transmitted () 0 0 letters
  have hadmitted : ∀ p ∈ pushed past, p.length < 2 ^ 32 ∧ p.length ≤ 2 := by
    rw [hpushed]
    decide
  obtain ⟨left, last, hdrain, -, hall⟩ := (hpeer hkept).2 2 hadmitted pieces htaken
  have hbytes : c.stats.bytesOut = 15 := hout.trans (congrArg List.length htaken.symm)
  refine ⟨hpushed, htaken, hempty, hbytes, left, last, hdrain, ?_⟩
  exact hpushed ▸ hall hempty

end MessageBroker.Connection
