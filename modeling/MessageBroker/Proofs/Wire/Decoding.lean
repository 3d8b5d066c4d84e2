/-
  MessageBroker.Proofs.Wire.Decoding — a decoder finds what its whole stream holds.

  A decoder is fed pieces and asked for payloads, in any order. All that it was fed is a
  stream, and `Framing.parse` says what that holds.
  - `decode_cases`: what one decode answers and changes, by what the unread bytes hold.
  - `InStep`: the invariant. The payloads decoded so far, as frames, and then the unread
    bytes are all that was fed; kept by feeding (`inStep_feed`) and decoding
    (`inStep_decode`). So what the unread bytes hold is what the stream holds from there.
  - `reads_as_parsed`: what this says of every run, of malformed streams too.
  - `counts_le`: what a decoder counts is bounded by what it was fed and asked.
  - `drain_spec` / `reads_what_was_encoded`: of every stream of frames within the limit,
    all payloads are read in order.
  - `readAlone_iff`: a payload of any length is read back from its frame just if the header can tell
    its length.
-/

import Mathlib.Algebra.Ring.Nat
import MessageBroker.Proofs.History
import MessageBroker.Proofs.Wire.Framing
import MessageBroker.Wire.Decoder

namespace MessageBroker.Wire

open Framing (Admitted parse)

def FramingEnd.refusal (limit : Nat) : FramingEnd → Option Error
  | .unfinished => none
  | .oversized len => some (.frameTooLarge len limit)

namespace Decoder

/-! ## One decode -/

/-- A decode that hands out a payload: the first frame of the unread bytes. -/
structure Yields (d : Decoder) (payload : Bytes) (d' : Decoder) : Prop where
  unread_eq : d.unread = Frame.encode payload ++ d'.unread
  admitted : Admitted d.limit payload
  limit_eq : d'.limit = d.limit
  frames_eq : d'.frames = d.frames + 1
  bytes_eq : d'.bytes = d.bytes + payload.length
  rejected_eq : d'.rejected = d.rejected
  pos_le : d.pos ≤ d.buffer.length → d'.pos ≤ d'.buffer.length

theorem yields_consume {d : Decoder} {len total : Nat} (h : Frame.peek d.limit d.unread = .complete len total) :
    Yields d ((d.unread.drop Frame.headerSize).take len) (d.consume len total) := by
  obtain ⟨hsplit, htake, hlimit, hlen⟩ := Framing.encode_of_complete h
  obtain ⟨-, hle, -⟩ := Frame.peek_complete h
  constructor
  · rw [unread_consume, hsplit]
  · exact ⟨htake.symm ▸ hlimit, htake.symm ▸ hlen⟩
  · exact limit_consume ..
  · exact frames_consume ..
  · rw [bytes_consume, htake]
  · exact rejected_consume ..
  · exact fun hpos => pos_le_consume hle hpos len

/-- What the unread bytes hold, when their first frame was handed out. -/
theorem Yields.parse_eq {d d' : Decoder} {payload : Bytes} (h : Yields d payload d') :
    parse d.limit d.unread = (parse d'.limit d'.unread).cons payload := by
  rw [h.unread_eq, h.limit_eq]
  exact Framing.parse_encode_append h.admitted.1 h.admitted.2 _

/-- A decode answers what the unread bytes hold first. -/
theorem decode_cases (d : Decoder) :
    (d.decode = (.ok none, d) ∧ parse d.limit d.unread = { rest := d.unread, ending := .unfinished }) ∨
    (∃ len, d.decode = (.error (.frameTooLarge len d.limit), { d with rejected := d.rejected + 1 }) ∧
      parse d.limit d.unread = { rest := d.unread, ending := .oversized len }) ∨
    ∃ payload d', d.decode = (.ok (some payload), d') ∧ Yields d payload d' := by
  cases h : Frame.peek d.limit d.unread with
  | incomplete k => exact .inl ⟨decode_incomplete h, Framing.parse_incomplete h⟩
  | tooLarge len => exact .inr (.inl ⟨len, decode_tooLarge h, Framing.parse_tooLarge h⟩)
  | complete len total => exact .inr (.inr ⟨_, _, decode_complete h, yields_consume h⟩)

/-- All bytes that a decoder was fed and has not forgotten, by its counts. -/
def tally (d : Decoder) : Nat := Frame.headerSize * d.frames + d.bytes + d.unread.length

theorem tally_feed {d : Decoder} (hpos : d.pos ≤ d.buffer.length) (data : Bytes) :
    (d.feed data).tally = d.tally + data.length := by
  rw [tally, tally, unread_feed hpos, frames_feed, bytes_feed, List.length_append, ← Nat.add_assoc]

/-- A payload that is handed out is counted with its header. -/
theorem Yields.tally_eq {d d' : Decoder} {payload : Bytes} (h : Yields d payload d') : d'.tally = d.tally := by
  rw [tally, tally, h.frames_eq, h.bytes_eq, h.unread_eq, List.length_append, Frame.length_encode, Nat.mul_succ]
  omega

section
variable {d d' : Decoder}

theorem none_of_decode (h : d.decode = (.ok none, d')) :
    d' = d ∧ parse d.limit d.unread = { rest := d.unread, ending := .unfinished } := by
  rcases d.decode_cases with ⟨hd, hp⟩ | ⟨_, hd, -⟩ | ⟨_, _, hd, -⟩ <;> rw [hd] at h <;> cases h
  exact ⟨rfl, hp⟩

theorem error_of_decode {e : Error} (h : d.decode = (.error e, d')) :
    d' = { d with rejected := d.rejected + 1 } ∧
      ∃ len, e = .frameTooLarge len d.limit ∧ parse d.limit d.unread = { rest := d.unread, ending := .oversized len } := by
  rcases d.decode_cases with ⟨hd, -⟩ | ⟨len, hd, hp⟩ | ⟨_, _, hd, -⟩ <;> rw [hd] at h <;> cases h
  exact ⟨rfl, len, rfl, hp⟩

theorem yields_of_decode {payload : Bytes} (h : d.decode = (.ok (some payload), d')) : Yields d payload d' := by
  rcases d.decode_cases with ⟨hd, -⟩ | ⟨_, hd, -⟩ | ⟨_, _, hd, hy⟩ <;> rw [hd] at h <;> cases h
  exact hy

end

/-! ## Runs -/

inductive Event where
  | feed (data : Bytes)
  | decode
  deriving DecidableEq, Repr

def next (d : Decoder) : Event → Decoder
  | .feed data => d.feed data
  | .decode => d.decode.2

def Event.data : Event → Bytes
  | .feed data => data
  | .decode => []

def handed (m : Moment Decoder Event) : List Bytes :=
  match m.event, m.before.decode.1 with
  | .decode, .ok (some payload) => [payload]
  | _, _ => []

def refused (m : Moment Decoder Event) : List Error :=
  match m.event, m.before.decode.1 with
  | .decode, .error e => [e]
  | _, _ => []

def fed (past : List (Moment Decoder Event)) : Bytes := past.flatMap (·.event.data)

def decoded (past : List (Moment Decoder Event)) : List Bytes := past.flatMap handed

theorem fed_moments (d : Decoder) (events : List Event) :
    fed (History.moments next d events) = events.flatMap Event.data := by
  rw [fed, ← List.flatMap_map, History.map_event_moments]

/-- A decoder has handed out the first payloads of all it was fed since `start`, and has
    the rest unread. -/
structure InStep (start : Decoder) (past : List (Moment Decoder Event)) (d : Decoder) : Prop where
  pos_le : d.pos ≤ d.buffer.length
  limit_eq : d.limit = start.limit
  bytes_fed : Frame.encodeAll (decoded past) ++ d.unread = fed past
  admitted : ∀ p ∈ decoded past, Admitted start.limit p
  frames_eq : d.frames = start.frames + (decoded past).length
  bytes_eq : d.bytes = start.bytes + ((decoded past).map List.length).sum
  rejected_eq : d.rejected = start.rejected + (past.flatMap refused).length

theorem inStep_start {start : Decoder} (hpos : start.pos ≤ start.buffer.length) (hunread : start.unread = []) :
    InStep start [] start where
  pos_le := hpos
  limit_eq := rfl
  bytes_fed := hunread
  admitted _ hp := (List.not_mem_nil hp).elim
  frames_eq := rfl
  bytes_eq := rfl
  rejected_eq := rfl

section
variable {start d : Decoder} {past : List (Moment Decoder Event)}

/-- An event that hands out nothing appends what it feeds to the unread bytes. -/
theorem InStep.snoc (h : InStep start past d) {e : Event} {d' : Decoder} (hnone : handed ⟨d, e⟩ = [])
    (hunread : d'.unread = d.unread ++ e.data) (hpos : d'.pos ≤ d'.buffer.length) (hlimit : d'.limit = d.limit)
    (hframes : d'.frames = d.frames) (hbytes : d'.bytes = d.bytes)
    (hrejected : d'.rejected = d.rejected + (refused ⟨d, e⟩).length) : InStep start (past ++ [⟨d, e⟩]) d' := by
  have hdecoded : decoded (past ++ [⟨d, e⟩]) = decoded past := by
    rw [decoded, History.flatMap_snoc, hnone]
    exact List.append_nil _
  have hfed : fed (past ++ [⟨d, e⟩]) = fed past ++ e.data := History.flatMap_snoc _ _ _ _
  constructor
  · exact hpos
  · exact hlimit.trans h.limit_eq
  · rw [hdecoded, hfed, hunread, ← h.bytes_fed, List.append_assoc]
  · rw [hdecoded]
    exact h.admitted
  · rw [hdecoded]
    exact hframes.trans h.frames_eq
  · rw [hdecoded]
    exact hbytes.trans h.bytes_eq
  · rw [hrejected, h.rejected_eq, History.flatMap_snoc, List.length_append, Nat.add_assoc]

theorem inStep_feed (h : InStep start past d) (data : Bytes) :
    InStep start (past ++ [⟨d, .feed data⟩]) (d.next (.feed data)) :=
  h.snoc rfl (unread_feed h.pos_le data) (pos_le_feed h.pos_le data) (limit_feed d data) (frames_feed d data)
    (bytes_feed d data) (rejected_feed d data)

theorem inStep_decode (h : InStep start past d) : InStep start (past ++ [⟨d, .decode⟩]) (d.next .decode) := by
  rcases d.decode_cases with ⟨hd, -⟩ | ⟨len, hd, -⟩ | ⟨payload, d', hd, hy⟩
  · have hnext : d.next .decode = d := by rw [next, hd]
    rw [hnext]
    exact h.snoc (by simp [handed, hd]) (List.append_nil _).symm h.pos_le rfl rfl rfl (by simp [refused, hd])
  · have hnext : d.next .decode = { d with rejected := d.rejected + 1 } := by rw [next, hd]
    rw [hnext]
    exact h.snoc (by simp [handed, hd]) (List.append_nil _).symm h.pos_le rfl rfl rfl (by simp [refused, hd])
  · have hnext : d.next .decode = d' := by rw [next, hd]
    have hdecoded : decoded (past ++ [⟨d, .decode⟩]) = decoded past ++ [payload] := by
      rw [decoded, History.flatMap_snoc]
      simp [decoded, handed, hd]
    have hfed : fed (past ++ [⟨d, .decode⟩]) = fed past := by
      rw [fed, History.flatMap_snoc]
      exact List.append_nil _
    rw [hnext]
    constructor
    · exact hy.pos_le h.pos_le
    · exact hy.limit_eq.trans h.limit_eq
    · rw [hdecoded, hfed, ← h.bytes_fed, hy.unread_eq, Frame.encodeAll, List.flatMap_append, List.append_assoc]
      simp [Frame.encodeAll]
    · rw [hdecoded]
      intro p hp
      rcases List.mem_append.mp hp with hp | hp
      · exact h.admitted p hp
      · rw [List.mem_singleton.mp hp, ← h.limit_eq]
        exact hy.admitted
    · rw [hdecoded, hy.frames_eq, h.frames_eq, List.length_append, List.length_singleton, Nat.add_assoc]
    · rw [hdecoded, hy.bytes_eq, h.bytes_eq, List.map_append, List.sum_append]
      simp [Nat.add_assoc]
    · rw [hy.rejected_eq, h.rejected_eq, History.flatMap_snoc]
      simp [refused, hd]

theorem inStep_next (h : InStep start past d) (e : Event) : InStep start (past ++ [⟨d, e⟩]) (d.next e) := by
  cases e with
  | feed data => exact inStep_feed h data
  | decode => exact inStep_decode h

theorem inStep (h : InStep start [] start) (events : List Event) :
    InStep start (History.moments next start events) (History.final next start events) :=
  History.along (InStep start) h (fun _ _ e hi => inStep_next hi e) events

theorem InStep.parse_eq (h : InStep start past d) :
    parse start.limit (fed past) =
      { parse d.limit d.unread with payloads := decoded past ++ (parse d.limit d.unread).payloads } := by
  rw [← h.bytes_fed, h.limit_eq]
  exact Framing.parse_encodeAll_append h.admitted d.unread

/-- A decode answers none where the stream so far ends unfinished. -/
theorem InStep.decode_none_iff (h : InStep start past d) :
    d.decode.1 = .ok none ↔
      decoded past = (parse start.limit (fed past)).payloads ∧ (parse start.limit (fed past)).ending = .unfinished := by
  rw [h.parse_eq]
  rcases d.decode_cases with ⟨hd, hp⟩ | ⟨len, hd, hp⟩ | ⟨payload, d', hd, hy⟩
  · simp [hd, hp]
  · simp [hd, hp]
  · simp [hd, hy.parse_eq, Framing.cons]

/-- A decode answers an error where the stream so far announces a length above the limit. -/
theorem InStep.decode_error_iff (h : InStep start past d) (e : Error) :
    d.decode.1 = .error e ↔ decoded past = (parse start.limit (fed past)).payloads ∧
      ∃ len, (parse start.limit (fed past)).ending = .oversized len ∧ e = .frameTooLarge len start.limit := by
  rw [h.parse_eq]
  rcases d.decode_cases with ⟨hd, hp⟩ | ⟨len, hd, hp⟩ | ⟨payload, d', hd, hy⟩
  · simp [hd, hp]
  · rw [hd, hp, h.limit_eq]
    constructor
    · intro he
      injection he with he
      exact ⟨(List.append_nil _).symm, len, rfl, he.symm⟩
    · rintro ⟨-, _, hlen, rfl⟩
      injection hlen with hlen
      rw [hlen]
  · simp [hd, hy.parse_eq, Framing.cons]

end

/-! ## After an error -/

structure Stuck (len : Nat) (d : Decoder) : Prop where
  pos_le : d.pos ≤ d.buffer.length
  parse_eq : parse d.limit d.unread = { rest := d.unread, ending := .oversized len }

theorem Stuck.decode_eq {len : Nat} {d : Decoder} (h : Stuck len d) :
    d.decode = (.error (.frameTooLarge len d.limit), { d with rejected := d.rejected + 1 }) :=
  decode_tooLarge (Framing.peek_of_oversized h.parse_eq)

theorem Stuck.next {len : Nat} {d : Decoder} (h : Stuck len d) (e : Event) :
    Stuck len (d.next e) ∧ (d.next e).limit = d.limit := by
  cases e with
  | feed data =>
    refine ⟨⟨pos_le_feed h.pos_le data, ?_⟩, limit_feed d data⟩
    show parse (d.feed data).limit (d.feed data).unread = { rest := (d.feed data).unread, ending := _ }
    rw [limit_feed, unread_feed h.pos_le]
    exact Framing.parse_append_of_oversized h.parse_eq data
  | decode =>
    rw [Decoder.next, h.decode_eq]
    exact ⟨⟨h.pos_le, h.parse_eq⟩, rfl⟩

/-- Once stuck, always: every decode gives the same error and counts one refusal. -/
theorem Stuck.decode_later {len : Nat} {d : Decoder} (h : Stuck len d) (events : List Event) :
    ∀ m ∈ History.moments Decoder.next d events, m.event = .decode →
      m.before.decode = (.error (.frameTooLarge len d.limit), { m.before with rejected := m.before.rejected + 1 }) := by
  induction events generalizing d with
  | nil =>
    intro m hm
    cases hm
  | cons e rest ih =>
    intro m hm hevent
    rcases List.mem_cons.mp hm with rfl | hm
    · exact h.decode_eq
    · rw [← (h.next e).2]
      exact ih (h.next e).1 m hm hevent

theorem InStep.stuck {start d : Decoder} {past : List (Moment Decoder Event)} (h : InStep start past d) {e : Error}
    (herror : d.decode.1 = .error e) : ∃ len, Stuck len d ∧ e = .frameTooLarge len d.limit := by
  rcases d.decode_cases with ⟨hd, -⟩ | ⟨len, hd, hp⟩ | ⟨payload, d', hd, -⟩
  · rw [hd] at herror
    cases herror
  · rw [hd] at herror
    injection herror with herror
    exact ⟨len, ⟨h.pos_le, hp⟩, herror.symm⟩
  · rw [hd] at herror
    cases herror

/-! ## Every run -/

/-- A decoder has nothing unread when it is new, whatever its limit, and after a reset,
    whatever happened before. -/
theorem inStep_fresh {start : Decoder} (h : start = ofLimit start.limit ∨ ∃ d : Decoder, start = d.reset) :
    InStep start [] start := by
  rcases h with h | ⟨d, rfl⟩
  · rw [h]
    exact inStep_start (Nat.le_refl 0) rfl
  · exact inStep_start (Nat.le_refl 0) (unread_reset d)

/-- A decoder that is new or was reset, after any feeds and decodes. The payloads decoded
    are the first that the stream fed so far holds; with the unread bytes they account for
    all of it, and the counts for them. A decode answers none where the frames of the
    stream so far are all decoded and the next is unfinished, and an error where they are
    and the next announces a length above the limit; the same error is all that is
    answered from then on, each time as one more refusal. -/
theorem reads_as_parsed (start : Decoder) (fresh : start = ofLimit start.limit ∨ ∃ d : Decoder, start = d.reset)
    (events : List Event) :
    let past := History.moments next start events
    let d := History.final next start events
    decoded past <+: (parse start.limit (fed past)).payloads ∧
    Frame.encodeAll (decoded past) ++ d.unread = fed past ∧
    d.frames = start.frames + (decoded past).length ∧
    d.bytes = start.bytes + ((decoded past).map List.length).sum ∧
    d.rejected = start.rejected + (past.flatMap refused).length ∧
    (d.hasUnread = true ↔ d.unread ≠ []) ∧
    ∀ first m later, past = first ++ m :: later → m.event = .decode →
      (m.before.decode.1 = .ok none ↔
        decoded first = (parse start.limit (fed first)).payloads ∧
          (parse start.limit (fed first)).ending = .unfinished) ∧
      (∀ e, m.before.decode.1 = .error e ↔
        decoded first = (parse start.limit (fed first)).payloads ∧
          ∃ len, (parse start.limit (fed first)).ending = .oversized len ∧ e = .frameTooLarge len start.limit) ∧
      ∀ e, m.before.decode.1 = .error e → ∀ m' ∈ m :: later, m'.event = .decode →
        m'.before.decode = (.error e, { m'.before with rejected := m'.before.rejected + 1 }) := by
  intro past d
  have hstart := inStep_fresh fresh
  have h : InStep start past d := inStep hstart events
  refine ⟨?_, h.bytes_fed, h.frames_eq, h.bytes_eq, h.rejected_eq, d.hasUnread_iff, ?_⟩
  · rw [h.parse_eq]
    exact List.prefix_append _ _
  · intro first m later hpast hevent
    obtain ⟨before, after, -, rfl, hm, rfl⟩ := History.moments_split hpast
    have hat : InStep start _ m.before := hm ▸ inStep hstart before
    refine ⟨hat.decode_none_iff, hat.decode_error_iff, ?_⟩
    intro e herror
    obtain ⟨len, hstuck, rfl⟩ := hat.stuck herror
    intro m' hm'
    exact hstuck.decode_later (m.event :: after) m' hm'

/-- For a used decoder, reset: a frame in two pieces, the second of which ends behind a
    length above the limit, and more behind it. -/
def pieces : List Event :=
  [.feed [0, 0], .decode, .feed [0, 1, 7, 0, 0, 0, 9], .decode, .decode, .feed [0, 0, 0, 0], .decode]

theorem pieces_read :
    let start : Decoder := ({ buffer := [0, 0, 0, 1], limit := 4, frames := 3, bytes := 5 } : Decoder).reset
    let past := History.moments next start pieces
    let d := History.final next start pieces
    decoded past = [[7]] ∧ decoded past <+: (parse 4 (fed past)).payloads ∧ d.frames = 4 ∧ d.bytes = 6 ∧
    d.unread = [0, 0, 0, 9, 0, 0, 0, 0] ∧ d.hasUnread = true ∧
    ∃ first m later, past = first ++ m :: later ∧ (parse 4 (fed first)).ending = .oversized 9 ∧ later.length = 2 ∧
      ∀ m' ∈ m :: later, m'.event = .decode →
        m'.before.decode = (.error (.frameTooLarge 9 4), { m'.before with rejected := m'.before.rejected + 1 }) := by
  intro start past d
  obtain ⟨hfound, -, hframes, hbytes, -, hunread, hdecodes⟩ := reads_as_parsed start (.inr ⟨_, rfl⟩) pieces
  have hdecoded : decoded past = [[7]] := by decide
  have hrest : d.unread = [0, 0, 0, 9, 0, 0, 0, 0] := by decide
  obtain ⟨first, m, later, hsplit, hlater, hevent, hmeets⟩ : ∃ first m later, past = first ++ m :: later ∧
      later.length = 2 ∧ m.event = .decode ∧ m.before.decode.1 = .error (.frameTooLarge 9 4) :=
    ⟨past.take 4, past[4], past.drop 5, by rw [List.getElem_cons_drop, List.take_append_drop],
      by decide, by decide, rfl⟩
  obtain ⟨-, herror, hstuck⟩ := hdecodes first m later hsplit hevent
  obtain ⟨-, len, hlen, he⟩ := (herror _).mp hmeets
  injection he with he
  refine ⟨hdecoded, hfound, ?_, ?_, hrest, hunread.mpr (by rw [hrest]; decide), first, m, later, hsplit, ?_, hlater, ?_⟩
  · exact hframes.trans (by rw [hdecoded]; rfl)
  · exact hbytes.trans (by rw [hdecoded]; rfl)
  · exact he ▸ hlen
  · exact hstuck _ hmeets

/-! ## The counters -/

structure Tallies (past : List (Moment Decoder Event)) (d : Decoder) : Prop where
  pos_le : d.pos ≤ d.buffer.length
  tally_eq : d.tally = (fed past).length
  rejected_le : d.rejected ≤ past.length

theorem Tallies.next {past : List (Moment Decoder Event)} {d : Decoder} (t : Tallies past d) (e : Event) :
    Tallies (past ++ [⟨d, e⟩]) (d.next e) := by
  have hfed : (fed (past ++ [⟨d, e⟩])).length = (fed past).length + e.data.length := by
    rw [fed, History.flatMap_snoc, List.length_append]
    rfl
  have hmore : d.rejected + 1 ≤ (past ++ [(⟨d, e⟩ : Moment Decoder Event)]).length := by
    rw [List.length_append]
    exact Nat.succ_le_succ t.rejected_le
  cases e with
  | feed data =>
    refine ⟨pos_le_feed t.pos_le data, ?_, ?_⟩
    · rw [hfed, ← t.tally_eq]
      exact tally_feed t.pos_le data
    · rw [Decoder.next, rejected_feed]
      exact Nat.le_of_succ_le hmore
  | decode =>
    have hsame : d.tally = (fed (past ++ [⟨d, .decode⟩])).length := t.tally_eq.trans hfed.symm
    rw [Decoder.next]
    rcases d.decode_cases with ⟨hd, -⟩ | ⟨len, hd, -⟩ | ⟨payload, d', hd, hy⟩
    · rw [hd]
      exact ⟨t.pos_le, hsame, Nat.le_of_succ_le hmore⟩
    · rw [hd]
      exact ⟨t.pos_le, hsame, hmore⟩
    · rw [hd]
      exact ⟨hy.pos_le t.pos_le, hy.tally_eq.trans hsame, hy.rejected_eq ▸ Nat.le_of_succ_le hmore⟩

/-- A new decoder counts no bytes but those it was fed, headers and all, and no refusals but one a
    decode: fewer than 2^64 bytes and events fit in counters of 64 bits. -/
theorem counts_le (limit : Nat) (events : List Event) :
    let d := History.final Decoder.next (ofLimit limit) events
    Frame.headerSize * d.frames + d.bytes ≤ (events.flatMap Event.data).length ∧ d.rejected ≤ events.length := by
  intro d
  have t : Tallies (History.moments Decoder.next (ofLimit limit) events) d :=
    History.along Tallies ⟨Nat.le_refl 0, rfl, Nat.le_refl 0⟩ (fun _ _ e t => t.next e) events
  have htally := t.tally_eq
  have hrejected := t.rejected_le
  rw [fed_moments, tally] at htally
  rw [History.length_moments] at hrejected
  exact ⟨by omega, hrejected⟩

/-! ## Decoding until nothing is left -/

/-- Draining finds all that the unread bytes hold. -/
theorem drain_spec (d : Decoder) :
    let found := parse d.limit d.unread
    d.drain.1 = found.payloads ∧ d.drain.2.1 = found.ending.refusal d.limit ∧
    d.drain.2.2.unread = found.rest ∧ d.drain.2.2.frames = d.frames + found.payloads.length ∧
    d.drain.2.2.bytes = d.bytes + (found.payloads.map List.length).sum ∧
    d.drain.2.2.rejected = d.rejected + (found.ending.refusal d.limit).toList.length := by
  induction hn : d.unread.length using Nat.strongRecOn generalizing d with
  | ind n ih =>
    rcases d.decode_cases with ⟨hd, hp⟩ | ⟨len, hd, hp⟩ | ⟨payload, d', hd, hy⟩
    · rw [drain_of_none hd, hp]
      exact ⟨rfl, rfl, rfl, rfl, rfl, rfl⟩
    · rw [drain_of_error hd, hp]
      exact ⟨rfl, rfl, rfl, rfl, rfl, rfl⟩
    · obtain ⟨h1, h2, h3, h4, h5, h6⟩ := ih d'.unread.length (hn ▸ length_unread_decode hd) d' rfl
      simp only [drain_of_payload hd, hy.parse_eq, Framing.cons, List.length_cons, List.map_cons, List.sum_cons]
      rw [h1, h2, h3, h4, h5, h6, hy.limit_eq, hy.frames_eq, hy.bytes_eq, hy.rejected_eq]
      exact ⟨rfl, rfl, rfl, by omega, by omega, rfl⟩

/-- A new decoder that is fed the first bytes of some frames, in any pieces. Decoding until
    nothing is left finds the first of them, and all of them once all bytes are fed. -/
theorem drain_of_cut {limit : Nat} {payloads : List Bytes} (h : ∀ p ∈ payloads, Admitted limit p) {events : List Event}
    {more : Bytes} (hcut : events.flatMap Event.data ++ more = Frame.encodeAll payloads) :
    let past := History.moments next (ofLimit limit) events
    ∃ left last, (History.final next (ofLimit limit) events).drain = (left, none, last) ∧
      decoded past ++ left <+: payloads ∧ (more = [] → decoded past ++ left = payloads ∧ last.hasUnread = false) := by
  intro past
  have hstart : InStep (ofLimit limit) [] (ofLimit limit) := inStep_fresh (.inl rfl)
  have hfed : fed past = events.flatMap Event.data := fed_moments (ofLimit limit) events
  rw [← hfed] at hcut
  have hstep : InStep (ofLimit limit) past _ := inStep hstart events
  generalize History.final next (ofLimit limit) events = d at hstep
  have hparse : parse limit (fed past) = _ := hstep.parse_eq
  obtain ⟨hending, later, hpayloads, hlater⟩ := Framing.parse_of_cut h hcut
  obtain ⟨hleft, hanswer, hunread, -⟩ := d.drain_spec
  have hfound : decoded past ++ d.drain.1 = (parse limit (fed past)).payloads := by rw [hparse, hleft]
  rw [hparse] at hending
  rw [hending] at hanswer
  refine ⟨d.drain.1, d.drain.2.2, Prod.ext rfl (Prod.ext hanswer rfl), ⟨later, by rw [hfound, hpayloads]⟩, ?_⟩
  rintro rfl
  rw [List.append_nil] at hcut
  have hwhole := Framing.parse_encodeAll h
  rw [← hcut] at hwhole
  refine ⟨hfound.trans (congrArg Framing.payloads hwhole), ?_⟩
  rw [hparse] at hwhole
  rw [← Bool.not_eq_true, hasUnread_iff, hunread, congrArg Framing.rest hwhole]
  exact fun hne => hne rfl

/-- While the whole stream ends unfinished, no decode on the way fails. -/
theorem decode_ok_of_unfinished {start : Decoder} (hstart : InStep start [] start) {events : List Event}
    (hend : (parse start.limit (fed (History.moments next start events))).ending = .unfinished) :
    ∀ m ∈ History.moments next start events, m.event = .decode → ∃ answer, m.before.decode.1 = .ok answer := by
  intro m hm hevent
  obtain ⟨first, later, hpast⟩ := List.append_of_mem hm
  obtain ⟨before, -, -, hfirst, hbefore, -⟩ := History.moments_split hpast
  have hat : InStep start first m.before := hfirst ▸ hbefore ▸ inStep hstart before
  cases hanswer : m.before.decode.1 with
  | ok answer => exact ⟨answer, rfl⟩
  | error e =>
    -- a length above the limit would still be one in the whole stream
    obtain ⟨-, len, hlen, -⟩ := (hat.decode_error_iff e).mp hanswer
    have hall := Framing.ending_append_of_oversized hlen (fed (m :: later))
    rw [fed, fed, ← List.flatMap_append, ← hpast] at hall
    cases hend.symm.trans hall

theorem refused_eq_nil {past : List (Moment Decoder Event)}
    (h : ∀ m ∈ past, m.event = .decode → ∃ answer, m.before.decode.1 = .ok answer) : past.flatMap refused = [] := by
  rw [List.flatMap_eq_nil_iff]
  intro m hm
  cases hevent : m.event with
  | feed data => simp [refused, hevent]
  | decode =>
    obtain ⟨answer, hanswer⟩ := h m hm hevent
    simp [refused, hevent, hanswer]

/-- A new decoder that is fed the frames of some payloads, each within its limit and
    short enough for its header, in any pieces, with any decodes in between. None of these
    decodes fails, and decoding on until nothing is left has handed out exactly these
    payloads, in order, and counted them. -/
theorem reads_what_was_encoded {limit : Nat} {payloads : List Bytes}
    (short : ∀ p ∈ payloads, p.length < 2 ^ 32 ∧ p.length ≤ limit) (events : List Event)
    (pieces : events.flatMap Event.data = Frame.encodeAll payloads) :
    let past := History.moments next (ofLimit limit) events
    (∀ m ∈ past, m.event = .decode → ∃ answer, m.before.decode.1 = .ok answer) ∧
    ∃ left last, (History.final next (ofLimit limit) events).drain = (left, none, last) ∧
      decoded past ++ left = payloads ∧ last.hasUnread = false ∧ last.frames = payloads.length ∧
      last.bytes = (payloads.map List.length).sum ∧ last.rejected = 0 := by
  intro past
  have hstart : InStep (ofLimit limit) [] (ofLimit limit) := inStep_fresh (.inl rfl)
  have hstream : parse (ofLimit limit).limit (fed past) = { payloads, rest := [], ending := .unfinished } := by
    rw [fed_moments, pieces]
    exact Framing.parse_encodeAll fun p hp => ⟨(short p hp).2, (short p hp).1⟩
  have hok := decode_ok_of_unfinished hstart (congrArg Framing.ending hstream)
  refine ⟨hok, ?_⟩
  have h : InStep (ofLimit limit) past _ := inStep hstart events
  generalize History.final next (ofLimit limit) events = d at h
  -- the unread bytes hold the payloads that are not decoded yet, and nothing else
  have hleft := hstream.symm.trans h.parse_eq
  injection hleft with hpayloads hrest hending
  obtain ⟨h1, h2, h3, h4, h5, h6⟩ := d.drain_spec
  rw [← hending] at h2 h6
  refine ⟨d.drain.1, d.drain.2.2, Prod.ext rfl (Prod.ext h2 rfl), ?_, ?_, ?_, ?_, ?_⟩
  · rw [h1, hpayloads]
  · rw [← hrest] at h3
    rw [← Bool.not_eq_true, hasUnread_iff, h3]
    exact fun hne => hne rfl
  · rw [h4, h.frames_eq, hpayloads, List.length_append]
    exact congrArg (· + _) (Nat.zero_add _)
  · rw [h5, h.bytes_eq, hpayloads, List.map_append, List.sum_append]
    exact congrArg (· + _) (Nat.zero_add _)
  · rw [h6, h.rejected_eq, refused_eq_nil hok]
    rfl

/-- Three frames, cut within a header and within a payload, with an empty piece. -/
def cuts : List Event :=
  [.decode, .feed [0, 0, 0], .decode, .feed [1, 7, 0], .decode, .feed [], .decode, .feed [0, 0, 0, 0, 0, 0, 2, 8],
    .feed [9]]

theorem cuts_read :
    let past := History.moments next (ofLimit 2) cuts
    (∀ p ∈ ([[7], [], [8, 9]] : List Bytes), p.length < 2 ^ 32 ∧ p.length ≤ 2) ∧
    cuts.flatMap Event.data = Frame.encodeAll [[7], [], [8, 9]] ∧ decoded past = [[7]] ∧
    ∃ last, (History.final next (ofLimit 2) cuts).drain = ([[], [8, 9]], none, last) ∧ last.hasUnread = false ∧
      last.frames = 3 ∧ last.bytes = 3 ∧ last.rejected = 0 := by
  intro past
  have hshort : ∀ p ∈ ([[7], [], [8, 9]] : List Bytes), p.length < 2 ^ 32 ∧ p.length ≤ 2 := by decide
  have hcuts : cuts.flatMap Event.data = Frame.encodeAll [[7], [], [8, 9]] := by decide
  have hfirst : decoded past = [[7]] := by decide
  obtain ⟨-, left, last, hdrain, hall, hrest⟩ := reads_what_was_encoded hshort cuts hcuts
  obtain rfl : left = [[], [8, 9]] := by
    rw [show decoded (History.moments next (ofLimit 2) cuts) = [[7]] from hfirst] at hall
    exact List.append_cancel_left hall
  exact ⟨hshort, hcuts, hfirst, last, hdrain, hrest⟩

/-! ## One frame alone -/

/-- Any reader whose limit admits `frame` finds it in the bytes, and nothing else. -/
def ReadAlone (bytes frame : Bytes) : Prop :=
  ∀ limit, frame.length ≤ limit →
    ∃ last, ((ofLimit limit).feed bytes).drain = ([frame], none, last) ∧ last.hasUnread = false

theorem drain_fed (limit : Nat) (bytes : Bytes) :
    let d := (ofLimit limit).feed bytes
    d.drain.1 = (parse limit bytes).payloads ∧ d.drain.2.1 = (parse limit bytes).ending.refusal limit ∧
    d.drain.2.2.unread = (parse limit bytes).rest := by
  intro d
  have hlimit : d.limit = limit := limit_feed (ofLimit limit) bytes
  have hunread : d.unread = bytes := unread_feed (Nat.le_refl 0) bytes
  obtain ⟨hpayloads, hending, hrest, -⟩ := d.drain_spec
  rw [hlimit, hunread] at hpayloads hending hrest
  exact ⟨hpayloads, hending, hrest⟩

/-- A payload is read back alone just if its header can tell its length. -/
theorem readAlone_iff (payload : Bytes) :
    ReadAlone (Frame.encode payload) payload ↔ payload.length < BigEndian.range Frame.headerSize := by
  constructor
  · intro halone
    obtain ⟨last, hdrain, -⟩ := halone payload.length (Nat.le_refl _)
    obtain ⟨hpayloads, -, -⟩ := drain_fed payload.length (Frame.encode payload)
    rw [hdrain] at hpayloads
    -- what is found in a stream has a length that a header told
    have hfound : payload ∈ (parse payload.length (Frame.encode payload)).payloads := hpayloads ▸ List.mem_singleton_self _
    exact ((Framing.accounts_parse payload.length (Frame.encode payload)).admitted payload hfound).2
  · intro hshort limit hlimit
    have hnil : parse limit [] = { rest := [], ending := .unfinished } := Framing.parse_short (by decide)
    have hparse := Framing.parse_encode_append hlimit hshort []
    rw [List.append_nil, hnil] at hparse
    obtain ⟨hpayloads, hending, hrest⟩ := drain_fed limit (Frame.encode payload)
    rw [hparse] at hpayloads hending hrest
    refine ⟨((ofLimit limit).feed (Frame.encode payload)).drain.2.2, Prod.ext hpayloads (Prod.ext hending rfl), ?_⟩
    rw [← Bool.not_eq_true, hasUnread_iff, hrest]
    exact fun hne => hne rfl

/-- The payloads that decoders with this limit hand out are those that it admits. -/
theorem exists_decode_iff (limit : Nat) (payload : Bytes) :
    (∃ d d' : Decoder, d.limit = limit ∧ d.decode = (.ok (some payload), d')) ↔ Admitted limit payload := by
  constructor
  · rintro ⟨d, d', rfl, hdecode⟩
    exact (yields_of_decode hdecode).admitted
  · rintro ⟨hlimit, hshort⟩
    have halone : ReadAlone (Frame.encode payload) payload := (readAlone_iff payload).mpr hshort
    obtain ⟨last, hdrain, -⟩ := halone limit hlimit
    refine ⟨(ofLimit limit).feed (Frame.encode payload), ?_⟩
    rcases ((ofLimit limit).feed (Frame.encode payload)).decode_cases with ⟨hd, -⟩ | ⟨len, hd, -⟩ | ⟨found, d', hd, -⟩
    · rw [drain_of_none hd] at hdrain
      cases hdrain
    · rw [drain_of_error hd] at hdrain
      cases hdrain
    · rw [drain_of_payload hd] at hdrain
      injection hdrain with hpayloads
      injection hpayloads with hfound
      rw [hfound] at hd
      exact ⟨d', limit_feed _ _, hd⟩

end Decoder

end MessageBroker.Wire
