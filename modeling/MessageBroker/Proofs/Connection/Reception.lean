/-
  MessageBroker.Proofs.Connection.Reception — a handler is given what the peer has sent.

  A connection goes through units of work, each with a socket of its own: what has arrived
  by then, and what can be written. All that its reads brought is one stream
  (`received`), and `Framing.parse` says what that holds.
  - `SameInput`: what polling and writing leave as it is.
  - `work_served`: after the frames are handled a unit changes nothing of them, and closes
    the connection if they ended with a length above the limit.
  - `Keeps`: the invariant. The handler was given what the stream holds, and while the
    connection is open its decoder has just the rest of it; kept by every unit
    (`keeps_work`).
  - `frames_as_parsed`: what this says of every run in which no read fails.
-/

import Mathlib.Data.List.Permutation
import MessageBroker.Proofs.Connection.Stages
import MessageBroker.Proofs.History

namespace MessageBroker.Connection

open Wire
open Framing (parse)

variable {σ : Type}

def framesOf (calls : List Callback) : List Bytes :=
  calls.flatMap fun
    | .frame payload => [payload]
    | .poll | .closes => []

theorem framesOf_append (first second : List Callback) :
    framesOf (first ++ second) = framesOf first ++ framesOf second :=
  List.flatMap_append

theorem framesOf_frames (payloads : List Bytes) : framesOf (payloads.map .frame) = payloads := by
  simp [framesOf, List.flatMap_map]

/-! ## Behind the handling of frames -/

structure SameInput (c c' : Connection (Watched σ)) : Prop where
  decoder : c'.decoder = c.decoder
  readBudget : c'.readBudget = c.readBudget
  framesIn : c'.stats.framesIn = c.stats.framesIn
  bytesIn : c'.stats.bytesIn = c.stats.bytesIn
  frames : framesOf c'.handler.calls = framesOf c.handler.calls
  closed : c'.closed = c.closed

theorem SameInput.refl (c : Connection (Watched σ)) : SameInput c c := ⟨rfl, rfl, rfl, rfl, rfl, rfl⟩

theorem SameInput.trans {a b c : Connection (Watched σ)} (hab : SameInput a b) (hbc : SameInput b c) : SameInput a c :=
  ⟨hbc.decoder.trans hab.decoder, hbc.readBudget.trans hab.readBudget, hbc.framesIn.trans hab.framesIn,
    hbc.bytesIn.trans hab.bytesIn, hbc.frames.trans hab.frames, hbc.closed.trans hab.closed⟩

theorem sameInput_poll (h : Handler σ) (c : Connection (Watched σ)) : SameInput c (c.poll h.watched).2 := by
  cases hended : c.peerClosed with
  | true =>
    rw [poll_of_ended hended]
    exact .refl c
  | false =>
    rw [poll_eq hended]
    refine ⟨rfl, rfl, rfl, rfl, ?_, rfl⟩
    simp [Handler.watched, framesOf]

theorem sameInput_flush (c : Connection (Watched σ)) (acceptances : List Acceptance) :
    SameInput c (c.flush acceptances).2.1 := by
  rw [flush_eq]
  exact ⟨rfl, rfl, rfl, rfl, rfl, rfl⟩

section
variable {h : Handler σ} {c : Connection (Watched σ)} {socket : Socket}

theorem sameInput_drive (hread : (endOf (reads c.readBudget socket.arrivals)).toEnding = .returned (.ok ())) :
    SameInput (c.served h.watched socket) (drive h.watched c.begun socket).connection := by
  cases drives h.watched c socket with
  | reading outcome ended => exact absurd (outcome.trans hread) ended
  | handling _ _ _ connection =>
    rw [connection]
    exact .refl _
  | polling _ _ _ _ connection =>
    rw [connection]
    exact sameInput_poll h _
  | writing _ _ _ _ connection =>
    rw [connection]
    exact (sameInput_poll h _).trans (sameInput_flush _ _)

/-- Behind the handling of frames a unit of work changes nothing of them. It leaves the
    connection open only if they did not end with an error. -/
theorem work_served (hopen : c.closed = false)
    (hread : (endOf (reads c.readBudget socket.arrivals)).toEnding = .returned (.ok ())) :
    ∃ last, SameInput (c.served h.watched socket) last ∧
      (((c.work h.watched socket).connection = last ∧
          ∀ e, ((c.filled socket).handleFrames h.watched).1 ≠ .returned (.error e)) ∨
        (c.work h.watched socket).connection = (last.close h.watched).2) := by
  refine ⟨_, sameInput_drive hread, ?_⟩
  rw [work_eq h.watched hopen]
  have hstages := drives h.watched c socket
  generalize drive h.watched c.begun socket = driven at hstages
  have hfine : (∀ e, driven.outcome ≠ .returned (.error e)) →
      ∀ e, ((c.filled socket).handleFrames h.watched).1 ≠ .returned (.error e) := by
    intro hnone e he
    cases hstages with
    | reading outcome ended => exact ended (outcome.trans hread)
    | handling _ outcome => exact hnone e (outcome.trans he)
    | polling _ handled | writing _ handled => cases handled.symm.trans he
  cases finishes h.watched driven with
  | goesOn ending _ result =>
    rw [result]
    exact .inl ⟨rfl, hfine fun e he => by cases ending.symm.trans he⟩
  | faults fault ending result =>
    rw [result]
    exact .inl ⟨rfl, hfine fun e he => by cases ending.symm.trans he⟩
  | closes _ _ _ _ connection => exact .inr connection

/-- A unit of work whose frames end with an error closes the connection there. -/
theorem work_refused (hopen : c.closed = false)
    (hread : (endOf (reads c.readBudget socket.arrivals)).toEnding = .returned (.ok ())) {e : Error}
    (herror : ((c.filled socket).handleFrames h.watched).1 = .returned (.error e)) :
    (c.work h.watched socket).connection = ((c.served h.watched socket).close h.watched).2 ∧
    (c.work h.watched socket).outcome = match ((c.served h.watched socket).close h.watched).1 with
      | .returned () => .returned true
      | .raised fault => .raised fault := by
  rw [work_eq h.watched hopen]
  have hstages := drives h.watched c socket
  generalize drive h.watched c.begun socket = driven at hstages
  cases hstages with
  | reading outcome ended => exact absurd (outcome.trans hread) ended
  | polling _ handled | writing _ handled => cases handled.symm.trans herror
  | handling _ outcome _ connection =>
    rw [herror] at outcome
    rw [← connection]
    cases finishes h.watched driven with
    | goesOn ending | faults _ ending => cases ending.symm.trans outcome
    | closes _ _ _ outcome connection => exact ⟨connection, outcome⟩

theorem close_watched (hopen : c.closed = false) :
    (c.close h.watched).2 = { c with
      closed := true
      decoder := c.decoder.reset
      handler := ⟨(h.onClose c.handler.state).2, c.handler.calls ++ [.closes]⟩ } := by
  simp [close, hopen, Handler.watched]

end

/-! ## Every run -/

def worked (h : Handler σ) (c : Connection σ) (socket : Socket) : Connection σ := (c.work h socket).connection

def received (past : List (Moment (Connection σ) Socket)) : Bytes :=
  past.flatMap fun m => brought (m.before.readsIn m.event)

/-- The handler was given what the stream so far holds, and while the connection is open
    its decoder has the rest of the stream, in which no further frame is found yet. -/
structure Keeps (limit budget : Nat) (past : List (Moment (Connection (Watched σ)) Socket))
    (c : Connection (Watched σ)) : Prop where
  limit_eq : c.decoder.limit = limit
  budget_eq : c.readBudget = budget
  pos_le : c.decoder.pos ≤ c.decoder.buffer.length
  frames_eq : framesOf c.handler.calls = (parse limit (received past)).payloads
  framesIn_eq : c.stats.framesIn = (parse limit (received past)).payloads.length
  bytesIn_eq : c.stats.bytesIn = (received past).length
  waiting : c.closed = false →
    c.decoder.unread = (parse limit (received past)).rest ∧ (parse limit (received past)).ending = .unfinished

theorem keeps_new (s : σ) (limit budget : Nat) :
    Keeps limit (max budget 1) [] (new (⟨s, []⟩ : Watched σ) limit budget) where
  limit_eq := rfl
  budget_eq := rfl
  pos_le := Nat.le_refl 0
  frames_eq := by rw [received, List.flatMap_nil, Framing.parse_short (by decide)]; rfl
  framesIn_eq := by rw [received, List.flatMap_nil, Framing.parse_short (by decide)]; rfl
  bytesIn_eq := rfl
  waiting _ := by rw [received, List.flatMap_nil, Framing.parse_short (by decide)]; exact ⟨rfl, rfl⟩

theorem calls_give (h : Handler σ) (payloads : List Bytes) (x : Watched σ × Outbox) :
    (payloads.foldl (give h.watched) x).1.calls = x.1.calls ++ payloads.map .frame := by
  induction payloads generalizing x with
  | nil => exact (List.append_nil _).symm
  | cons payload rest ih =>
    rw [List.foldl_cons, ih, List.map_cons, ← List.singleton_append, ← List.append_assoc]
    rfl

section
variable {h : Handler σ} {limit budget : Nat} {past : List (Moment (Connection (Watched σ)) Socket)}
  {c : Connection (Watched σ)} {socket : Socket}

/-- An open connection once it has handled what the unit read. -/
structure ServedAs (c served : Connection (Watched σ)) (new : Bytes) (found : Framing) : Prop where
  limit_eq : served.decoder.limit = c.decoder.limit
  budget_eq : served.readBudget = c.readBudget
  pos_le : served.decoder.pos ≤ served.decoder.buffer.length
  unread_eq : served.decoder.unread = found.rest
  calls_eq : served.handler.calls = c.handler.calls ++ found.payloads.map .frame
  framesIn_eq : served.stats.framesIn = c.stats.framesIn + found.payloads.length
  bytesIn_eq : served.stats.bytesIn = c.stats.bytesIn + new.length
  closed_eq : served.closed = c.closed

theorem servedAs (socket : Socket)
    (accepts : ∀ payload s outbox, (h.onFrame payload s outbox).outcome = .returned (.ok ()))
    (hpos : c.decoder.pos ≤ c.decoder.buffer.length) :
    let new := brought (reads c.readBudget socket.arrivals)
    let found := parse c.decoder.limit (c.decoder.unread ++ new)
    ServedAs c (c.served h.watched socket) new found ∧
      ((c.filled socket).handleFrames h.watched).1 =
        .returned (match found.ending.refusal c.decoder.limit with
          | none => .ok ()
          | some e => .error e) := by
  intro new found
  obtain ⟨hunread, hlimit, hpos'⟩ := filled_feeds hpos socket
  have hspec := handleFrames_spec (h := h.watched) (c := c.filled socket) fun p _ s outbox => accepts p s.state outbox
  rw [hlimit, hunread] at hspec
  refine ⟨⟨hspec.limit_eq.trans hlimit, ?_, ?_, hspec.unread_eq, ?_, ?_, ?_, ?_⟩, hlimit ▸ hspec.ending_eq⟩
  · rw [served, handleFrames_keeps, filled_eq]
    rfl
  · exact hspec.pos_le hpos'
  · rw [served, hspec.connection_eq, calls_give, filled_eq]
    rfl
  · rw [served, hspec.connection_eq, filled_eq]
    rfl
  · rw [served, handleFrames_keeps, filled_eq]
  · rw [served, handleFrames_keeps, filled_eq]
    rfl

theorem Keeps.parse_next (hkeeps : Keeps limit budget past c) (hopen : c.closed = false) (socket : Socket) :
    received (past ++ [⟨c, socket⟩]) = received past ++ brought (reads c.readBudget socket.arrivals) ∧
    parse limit (received (past ++ [⟨c, socket⟩])) =
      { parse limit (c.decoder.unread ++ brought (reads c.readBudget socket.arrivals)) with
        payloads := (parse limit (received past)).payloads ++
          (parse limit (c.decoder.unread ++ brought (reads c.readBudget socket.arrivals))).payloads } := by
  have hreceived : received (past ++ [⟨c, socket⟩]) = received past ++ brought (reads c.readBudget socket.arrivals) := by
    rw [received, History.flatMap_snoc, readsIn, if_neg (by simp [hopen])]
    rfl
  refine ⟨hreceived, ?_⟩
  rw [hreceived, Framing.parse_append, (hkeeps.waiting hopen).1]

theorem keeps_closed (hkeeps : Keeps limit budget past c) (hclosed : c.closed = true) (socket : Socket) :
    Keeps limit budget (past ++ [⟨c, socket⟩]) (worked h.watched c socket) := by
  have hsame : worked h.watched c socket = c := by simp [worked, work, hclosed]
  have hreceived : received (past ++ [⟨c, socket⟩]) = received past := by
    rw [received, History.flatMap_snoc, readsIn, if_pos hclosed]
    exact List.append_nil _
  rw [hsame]
  exact ⟨hkeeps.limit_eq, hkeeps.budget_eq, hkeeps.pos_le, hreceived ▸ hkeeps.frames_eq, hreceived ▸ hkeeps.framesIn_eq,
    hreceived ▸ hkeeps.bytesIn_eq, hreceived ▸ hkeeps.waiting⟩

theorem keeps_open (accepts : ∀ payload s outbox, (h.onFrame payload s outbox).outcome = .returned (.ok ()))
    (hkeeps : Keeps limit budget past c) (hopen : c.closed = false)
    (hread : (endOf (reads c.readBudget socket.arrivals)).toEnding = .returned (.ok ())) :
    Keeps limit budget (past ++ [⟨c, socket⟩]) (worked h.watched c socket) := by
  obtain ⟨hreceived, hparse⟩ := hkeeps.parse_next hopen socket
  obtain ⟨hserved, hending⟩ := servedAs socket accepts hkeeps.pos_le
  rw [hkeeps.limit_eq] at hserved hending
  obtain ⟨last, hlast, hwork⟩ := work_served (h := h) hopen hread
  -- the stages behind the handling keep what it left, so all but the buffer is settled
  have hlimit : last.decoder.limit = limit := by rw [hlast.decoder, hserved.limit_eq, hkeeps.limit_eq]
  have hbudget : last.readBudget = budget := by rw [hlast.readBudget, hserved.budget_eq, hkeeps.budget_eq]
  have hframes : framesOf last.handler.calls = (parse limit (received (past ++ [⟨c, socket⟩]))).payloads := by
    rw [hlast.frames, hserved.calls_eq, framesOf_append, framesOf_frames, hkeeps.frames_eq, hparse]
  have hframesIn : last.stats.framesIn = (parse limit (received (past ++ [⟨c, socket⟩]))).payloads.length := by
    rw [hlast.framesIn, hserved.framesIn_eq, hkeeps.framesIn_eq, hparse, List.length_append]
  have hbytesIn : last.stats.bytesIn = (received (past ++ [⟨c, socket⟩])).length := by
    rw [hlast.bytesIn, hserved.bytesIn_eq, hkeeps.bytesIn_eq, hreceived, List.length_append]
  rw [worked]
  rcases hwork with ⟨hconnection, hfine⟩ | hconnection
  · rw [hconnection]
    refine ⟨hlimit, hbudget, by rw [hlast.decoder]; exact hserved.pos_le, hframes, hframesIn, hbytesIn, fun _ => ?_⟩
    rw [hparse, hlast.decoder]
    refine ⟨hserved.unread_eq, ?_⟩
    cases hfound : (parse limit (c.decoder.unread ++ brought (reads c.readBudget socket.arrivals))).ending with
    | unfinished => rfl
    | oversized len =>
      rw [hfound] at hending
      exact absurd hending (hfine _)
  · have hlastOpen : last.closed = false := by rw [hlast.closed, hserved.closed_eq, hopen]
    rw [hconnection, close_watched hlastOpen]
    refine ⟨hlimit, hbudget, Nat.le_refl 0, ?_, hframesIn, hbytesIn, nofun⟩
    rw [framesOf_append, hframes]
    exact List.append_nil _

def Unfailing (m : Moment (Connection (Watched σ)) Socket) : Prop :=
  ∀ x ∈ m.before.readsIn m.event, ∀ e, x.answer ≠ .failed e

theorem Unfailing.read (h : Unfailing ⟨c, socket⟩) (hopen : c.closed = false) :
    (endOf (reads c.readBudget socket.arrivals)).toEnding = .returned (.ok ()) := by
  refine toEnding_of_unfailing ?_
  rwa [Unfailing, readsIn, if_neg (by simp [hopen])] at h

theorem keeps_work (accepts : ∀ payload s outbox, (h.onFrame payload s outbox).outcome = .returned (.ok ()))
    (hkeeps : Keeps limit budget past c) (hread : Unfailing ⟨c, socket⟩) :
    Keeps limit budget (past ++ [⟨c, socket⟩]) (worked h.watched c socket) := by
  cases hclosed : c.closed with
  | true => exact keeps_closed hkeeps hclosed socket
  | false => exact keeps_open accepts hkeeps hclosed (hread.read hclosed)

/-- A unit of work that completes a length above the limit handles the frames before it and
    closes the connection. -/
theorem closes_oversized (accepts : ∀ payload s outbox, (h.onFrame payload s outbox).outcome = .returned (.ok ()))
    (hkeeps : Keeps limit budget past c) (hopen : c.closed = false) (hread : Unfailing ⟨c, socket⟩) {len : Nat}
    (hlen : (parse limit (received (past ++ [⟨c, socket⟩]))).ending = .oversized len) :
    (c.work h.watched socket).outcome ≠ .returned false ∧ (c.work h.watched socket).connection.closed = true ∧
    ∃ frames, (c.work h.watched socket).connection.handler.calls =
        c.handler.calls ++ frames.map .frame ++ [.closes] ∧
      (parse limit (received (past ++ [⟨c, socket⟩]))).payloads = (parse limit (received past)).payloads ++ frames := by
  obtain ⟨-, hparse⟩ := hkeeps.parse_next hopen socket
  obtain ⟨hserved, hending⟩ := servedAs socket accepts hkeeps.pos_le
  rw [hparse] at hlen ⊢
  rw [hkeeps.limit_eq, hlen] at hending
  rw [hkeeps.limit_eq] at hserved
  obtain ⟨hconnection, houtcome⟩ := work_refused hopen (hread.read hopen) hending
  rw [hconnection, close_watched (hserved.closed_eq.trans hopen), houtcome]
  refine ⟨?_, rfl, _, ?_, rfl⟩
  · split <;> nofun
  · rw [hserved.calls_eq]

end

theorem keeps {h : Handler σ} (accepts : ∀ payload s outbox, (h.onFrame payload s outbox).outcome = .returned (.ok ()))
    (s : σ) (limit budget : Nat) {sockets : List Socket}
    (hread : ∀ m ∈ History.moments (worked h.watched) (new ⟨s, []⟩ limit budget) sockets, Unfailing m) :
    Keeps limit (max budget 1) (History.moments (worked h.watched) (new ⟨s, []⟩ limit budget) sockets)
      (History.final (worked h.watched) (new ⟨s, []⟩ limit budget) sockets) := by
  refine History.along (fun past c => (∀ m ∈ past, Unfailing m) → Keeps limit (max budget 1) past c) ?_ ?_ sockets hread
  · exact fun _ => keeps_new s limit budget
  · intro past c socket ih hall
    exact keeps_work accepts (ih fun m hm => hall m (List.mem_append_left _ hm))
      (hall _ (List.mem_append_right _ List.mem_cons_self))

/-- A connection whose handler accepts every payload, with any limit and budget, after any
    units of work none of whose reads fails: whatever its sockets bring and take, and
    however the handler is polled and closed. The handler was given exactly the frames
    that a reader of the whole stream finds, up to the first length above the limit; the
    bytes and the frames are counted; no unit reads more than its budget, or one byte if
    that is none; and a unit that completes a length above the limit handles the frames
    before it and then closes the connection. -/
theorem frames_as_parsed (h : Handler σ)
    (accepts : ∀ payload s outbox, (h.onFrame payload s outbox).outcome = .returned (.ok ()))
    (s : σ) (limit budget : Nat) (sockets : List Socket)
    (unfailing : ∀ m ∈ History.moments (worked h.watched) (new ⟨s, []⟩ limit budget) sockets,
      ∀ x ∈ m.before.readsIn m.event, ∀ e, x.answer ≠ .failed e) :
    let past := History.moments (worked h.watched) (new ⟨s, []⟩ limit budget) sockets
    let c := History.final (worked h.watched) (new ⟨s, []⟩ limit budget) sockets
    framesOf c.handler.calls = (parse limit (received past)).payloads ∧
    c.stats.bytesIn = (received past).length ∧
    c.stats.framesIn = (parse limit (received past)).payloads.length ∧
    (∀ m ∈ past, (brought (m.before.readsIn m.event)).length ≤ max budget 1) ∧
    ∀ first m later, past = first ++ m :: later → m.before.closed = false →
      (parse limit (received first)).ending = .unfinished ∧
      ∀ len, (parse limit (received (first ++ [m]))).ending = .oversized len →
        let unit := m.before.work h.watched m.event
        unit.outcome ≠ .returned false ∧ unit.connection.closed = true ∧
        ∃ frames, unit.connection.handler.calls = m.before.handler.calls ++ frames.map .frame ++ [.closes] ∧
          (parse limit (received (first ++ [m]))).payloads = (parse limit (received first)).payloads ++ frames := by
  intro past c
  have hkeeps : Keeps limit (max budget 1) past c := keeps accepts s limit budget unfailing
  -- the invariant at the start of every unit
  have hat : ∀ first m later, past = first ++ m :: later →
      Keeps limit (max budget 1) first m.before ∧ Unfailing m := by
    intro first m later hsplit
    obtain ⟨before, after, -, rfl, hm, -⟩ := History.moments_split hsplit
    refine ⟨hm ▸ keeps accepts s limit budget fun m' hm' => unfailing m' ?_, unfailing m ?_⟩
    · show m' ∈ past
      rw [hsplit]
      exact List.mem_append_left _ hm'
    · show m ∈ past
      rw [hsplit]
      exact List.mem_append_right _ List.mem_cons_self
  refine ⟨hkeeps.frames_eq, hkeeps.bytesIn_eq, hkeeps.framesIn_eq, ?_, ?_⟩
  · intro m hm
    obtain ⟨first, later, hsplit⟩ := List.append_of_mem hm
    have hreads := readInput_spec m.before.decoder m.before.readBudget m.event.arrivals
    have hle := hreads.count_eq ▸ hreads.count_le
    rw [readsIn, ← (hat first m later hsplit).1.budget_eq]
    split
    · exact Nat.zero_le _
    · exact hle
  · intro first m later hsplit hopen
    obtain ⟨hfirst, hread⟩ := hat first m later hsplit
    refine ⟨(hfirst.waiting hopen).2, fun len hlen => ?_⟩
    exact closes_oversized accepts hfirst hopen hread hlen

/-- Three bytes may be read at a time, and payloads of two bytes be handled. A frame comes in
    pieces over three units of work, the last of which it shares with the start of a length
    above the limit; the fourth completes that, and the fifth finds the connection closed. -/
def visits : List Socket :=
  [{ arrivals := [.bytes [0, 0], .interrupted, .bytes [0]] }, { arrivals := [.bytes [2], .blocked] },
    { arrivals := [.bytes [7, 8, 0]], acceptances := [.failed .wroteNothing] }, { arrivals := [.bytes [0, 0, 9]] },
    { arrivals := [.bytes [1]] }]

theorem visits_parsed :
    let h : Handler Unit := { onFrame := fun _ s outbox => ⟨.returned (.ok ()), s, outbox⟩ }
    let past := History.moments (worked h.watched) (new ⟨(), []⟩ 2 3) visits
    let c := History.final (worked h.watched) (new ⟨(), []⟩ 2 3) visits
    framesOf c.handler.calls = [[7, 8]] ∧ c.stats.bytesIn = 10 ∧ c.stats.framesIn = 1 ∧
    (∀ m ∈ past, (brought (m.before.readsIn m.event)).length ≤ 3) ∧
    ∃ first m later, past = first ++ m :: later ∧ first.length = 3 ∧ m.before.closed = false ∧
      (m.before.work h.watched m.event).connection.closed = true := by
  intro h past c
  have hevents : past.map Moment.event = visits := History.map_event_moments _ _
  have unfailing : ∀ m ∈ past, ∀ x ∈ m.before.readsIn m.event, ∀ e, x.answer ≠ .failed e := by
    intro m hm x hx e he
    rw [readsIn] at hx
    split at hx
    · cases hx
    · have hfailed := failed_mem hx he
      have hnone : ∀ socket ∈ visits, .failed e ∉ socket.arrivals := by simp [visits]
      exact hnone m.event (hevents ▸ List.mem_map_of_mem hm) hfailed
  obtain ⟨hframes, hbytes, hcount, hbudget, hcloses⟩ :=
    frames_as_parsed h (fun _ _ _ => rfl) () 2 3 visits unfailing
  have hreceived : received past = [0, 0, 0, 2, 7, 8, 0, 0, 0, 9] := by cbv
  have hparse : parse 2 [0, 0, 0, 2, 7, 8, 0, 0, 0, 9] = ⟨[[7, 8]], [0, 0, 0, 9], .oversized 9⟩ := by cbv
  rw [hreceived, hparse] at hframes hcount
  rw [hreceived] at hbytes
  refine ⟨hframes, hbytes, hcount, hbudget, past.take 3, past[3], past.drop 4, rfl, rfl, by cbv, ?_⟩
  have hlen : (parse 2 (received (past.take 3 ++ [past[3]]))).ending = .oversized 9 := by cbv
  exact ((hcloses _ _ _ rfl (by cbv)).2 9 hlen).2.1

end MessageBroker.Connection
