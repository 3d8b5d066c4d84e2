/-
  MessageBroker.Proofs.Connection.Closing — a connection is closed once, whoever does it.

  A connection is given units of work and is told to close, in any order, and in the end it
  is dropped. Its sockets and its handler do as they like; a handler may raise a fault out
  of any of its callbacks, and a unit of work that it cuts short so neither fails nor ends:
  the connection stays as it is by then.
  - `Ends`: the uses that end a connection. `used_ends` / `used_goesOn`: what they do to an
    open one, and what the others do.
  - `exists_end`: a run that leaves its connection closed has a first use that ended it.
  - `givenOf`: what a handler is given of the payloads that are there.
  - `Follows`: the invariant. All that an open connection has read is what its handler was
    given and what is unread (`follows`).
  - `told_once`: what this comes to for every run.
-/

import MessageBroker.Proofs.Connection.Reception

namespace MessageBroker.Connection

open Wire
open Framing (parse Admitted)

variable {σ : Type}

/-! ## Uses of a connection -/

inductive Use where
  | work (socket : Socket)
  | close
  | drop
  deriving DecidableEq, Repr

def used (h : Handler σ) (c : Connection σ) : Use → Connection σ
  | .work socket => (c.work h socket).connection
  | .close | .drop => (c.close h).2

/-- The connection as an open one is by a use, but for being closed. -/
def beforeClosing (h : Handler σ) (c : Connection σ) : Use → Connection σ
  | .work socket => (drive h c.begun socket).connection
  | .close | .drop => c

/-- A unit of work finds that the input has ended, or a unit before it did. -/
def MeetsEnd (c : Connection σ) (socket : Socket) : Prop :=
  c.peerClosed = true ∨ endOf (reads c.readBudget socket.arrivals) = .inputEnded

/-- A use that ends an open connection: it is closed or dropped, or a unit of work fails, or
    does well and the input has ended. -/
def Ends (h : Handler σ) (c : Connection σ) : Use → Prop
  | .work socket =>
    (∃ e, (drive h c.begun socket).outcome = .returned (.error e)) ∨
      ((drive h c.begun socket).outcome = .returned (.ok ()) ∧ c.MeetsEnd socket)
  | .close | .drop => True

section
variable {h : Handler σ} {c : Connection σ}

theorem peerClosed_drive (h : Handler σ) (c : Connection σ) (socket : Socket) :
    (drive h c.begun socket).connection.peerClosed = true ↔ c.MeetsEnd socket := by
  have hkeeps : (drive h c.begun socket).connection.peerClosed = (c.filled socket).peerClosed :=
    drive_keeps Connection.peerClosed (fun c => by rw [handleFrames_keeps]) (peerClosed_poll h) peerClosed_flush c socket
  rw [hkeeps, filled_eq, MeetsEnd]
  simp

theorem closed_beforeClosing (hopen : c.closed = false) (u : Use) : (c.beforeClosing h u).closed = false := by
  cases u with
  | work socket =>
    have hbegun : c.begun.closed = false := hopen
    show (drive h c.begun socket).connection.closed = false
    exact (drive_path hbegun socket).2
  | close | drop => exact hopen

theorem work_ends (hopen : c.closed = false) {socket : Socket} (hends : Ends h c (.work socket)) :
    (c.work h socket).connection = ((c.beforeClosing h (.work socket)).close h).2 ∧
    (c.work h socket).outcome = match ((c.beforeClosing h (.work socket)).close h).1 with
      | .returned () => .returned true
      | .raised fault => .raised fault := by
  have hmeets := peerClosed_drive h c socket
  rw [work_eq h hopen]
  cases finishes h (drive h c.begun socket) with
  | goesOn ending going =>
    rcases hends with ⟨e, herror⟩ | ⟨-, hmet⟩
    · cases ending.symm.trans herror
    · rw [hmeets.mpr hmet] at going
      cases going
  | faults fault ending =>
    rcases hends with ⟨e, herror⟩ | ⟨hok, -⟩
    · cases ending.symm.trans herror
    · cases ending.symm.trans hok
  | closes _ _ _ outcome connection => exact ⟨connection, outcome⟩

theorem used_ends (hopen : c.closed = false) {u : Use} (hends : Ends h c u) :
    c.used h u = ((c.beforeClosing h u).close h).2 := by
  cases u with
  | work socket => exact (work_ends hopen hends).1
  | close | drop => rfl

/-- A unit of work that does not end its connection leaves it as its stages do: the input goes
    on, or a fault has cut it short. -/
theorem work_goesOn (hopen : c.closed = false) {socket : Socket} (hgoes : ¬Ends h c (.work socket)) :
    (c.work h socket).connection = c.beforeClosing h (.work socket) ∧
    (((c.work h socket).outcome = .returned false ∧ ¬c.MeetsEnd socket) ∨
      ∃ fault, (c.work h socket).outcome = .raised fault) := by
  have hmeets := peerClosed_drive h c socket
  rw [work_eq h hopen]
  cases finishes h (drive h c.begun socket) with
  | goesOn _ going result =>
    rw [result]
    refine ⟨rfl, .inl ⟨rfl, fun hmet => ?_⟩⟩
    rw [hmeets.mpr hmet] at going
    cases going
  | faults fault _ result =>
    rw [result]
    exact ⟨rfl, .inr ⟨fault, rfl⟩⟩
  | closes result ending reason =>
    cases result with
    | error e => exact absurd (.inl ⟨e, ending⟩) hgoes
    | ok _ => exact absurd (.inr ⟨ending, hmeets.mp (reason rfl)⟩) hgoes

theorem used_goesOn (hopen : c.closed = false) {u : Use} (hgoes : ¬Ends h c u) :
    c.used h u = c.beforeClosing h u ∧ ∃ socket, u = .work socket := by
  cases u with
  | close | drop => exact absurd trivial hgoes
  | work socket => exact ⟨(work_goesOn hopen hgoes).1, socket, rfl⟩

theorem used_closed (hclosed : c.closed = true) (u : Use) :
    c.used h u = c ∧ ∀ socket, (c.work h socket).outcome = .returned true := by
  cases u with
  | work socket => simp [used, work, hclosed]
  | close | drop => simp [used, close, work, hclosed]

theorem close_told (hopen : c.closed = false) : (c.close h).1 = (h.onClose c.handler).1 := by
  simp [close, hopen]

/-! ## The use that ends a connection -/

theorem run_closed (hclosed : c.closed = true) (uses : List Use) :
    History.final (used h) c uses = c ∧ ∀ m ∈ History.moments (used h) c uses, m.before = c := by
  induction uses with
  | nil => exact ⟨rfl, fun m hm => absurd hm List.not_mem_nil⟩
  | cons u rest ih =>
    have hsame : c.used h u = c := (used_closed hclosed u).1
    have hmoments : History.moments (used h) c (u :: rest) = ⟨c, u⟩ :: History.moments (used h) (c.used h u) rest := rfl
    have hfinal : History.final (used h) c (u :: rest) = History.final (used h) (c.used h u) rest := rfl
    rw [hmoments, hfinal, hsame]
    refine ⟨ih.1, fun m hm => ?_⟩
    rcases List.mem_cons.mp hm with rfl | hm
    · rfl
    · exact ih.2 m hm

structure EndsAt (h : Handler σ) (first : List (Moment (Connection σ) Use)) (m : Moment (Connection σ) Use)
    (later : List (Moment (Connection σ) Use)) : Prop where
  isOpen : m.before.closed = false
  ends : Ends h m.before m.event
  /-- It is the first. -/
  goesOn : ∀ m' ∈ first, m'.before.closed = false ∧ ¬Ends h m'.before m'.event
  /-- Nothing happens later. -/
  stays : ∀ m' ∈ later, m'.before = m.before.used h m.event

theorem exists_end (hopen : c.closed = false) {uses : List Use}
    (hclosed : (History.final (used h) c uses).closed = true) :
    ∃ first m later, History.moments (used h) c uses = first ++ m :: later ∧ EndsAt h first m later ∧
      History.final (used h) c uses = m.before.used h m.event := by
  induction uses generalizing c with
  | nil =>
    rw [History.final, List.foldl_nil, hopen] at hclosed
    cases hclosed
  | cons u rest ih =>
    by_cases hends : Ends h c u
    · have hnow : (c.used h u).closed = true := by
        rw [used_ends hopen hends]
        exact closed_close h _
      obtain ⟨hfinal, hlater⟩ := run_closed (h := h) hnow rest
      have hnone : ∀ m' ∈ ([] : List (Moment (Connection σ) Use)), m'.before.closed = false ∧ ¬Ends h m'.before m'.event :=
        fun m' hm' => absurd hm' List.not_mem_nil
      exact ⟨[], ⟨c, u⟩, _, rfl, ⟨hopen, hends, hnone, hlater⟩, hfinal⟩
    · have hnow : (c.used h u).closed = false := by
        rw [(used_goesOn hopen hends).1]
        exact closed_beforeClosing hopen u
      obtain ⟨first, m, later, hmoments, hat, hfinal⟩ := ih hnow hclosed
      refine ⟨⟨c, u⟩ :: first, m, later, congrArg (_ :: ·) hmoments, ⟨hat.isOpen, hat.ends, ?_, hat.stays⟩, hfinal⟩
      intro m' hm'
      rcases List.mem_cons.mp hm' with rfl | hm'
      · exact ⟨hopen, hends⟩
      · exact hat.goesOn m' hm'

end

/-! ## What a handler is given -/

/-- The payloads that a handler is given of those that are there: up to the first that it
    does not accept. -/
def givenOf (h : Handler σ) : σ → Outbox → List Bytes → List Bytes
  | _, _, [] => []
  | s, outbox, payload :: rest =>
    let handled := h.onFrame payload s outbox
    payload :: match handled.outcome with
      | .returned (.ok ()) => givenOf h handled.state handled.outbox rest
      | _ => []

structure Gives (c c' : Connection (Watched σ)) (given : List Bytes) : Prop where
  calls_eq : c'.handler.calls = c.handler.calls ++ given.map .frame
  unread_eq : Frame.encodeAll given ++ c'.decoder.unread = c.decoder.unread
  admitted : ∀ p ∈ given, Admitted c.decoder.limit p
  limit_eq : c'.decoder.limit = c.decoder.limit
  pos_le : c.decoder.pos ≤ c.decoder.buffer.length → c'.decoder.pos ≤ c'.decoder.buffer.length

theorem Gives.nothing {c c' : Connection (Watched σ)} (hcalls : c'.handler.calls = c.handler.calls)
    (hunread : c'.decoder.unread = c.decoder.unread) (hlimit : c'.decoder.limit = c.decoder.limit)
    (hpos : c.decoder.pos ≤ c.decoder.buffer.length → c'.decoder.pos ≤ c'.decoder.buffer.length) : Gives c c' [] :=
  ⟨hcalls.trans (List.append_nil _).symm, hunread, nofun, hlimit, hpos⟩

theorem Gives.cons {c next c' : Connection (Watched σ)} {payload : Bytes} {given : List Bytes}
    (hyields : c.decoder.Yields payload next.decoder) (hcalls : next.handler.calls = c.handler.calls ++ [.frame payload])
    (hrest : Gives next c' given) : Gives c c' (payload :: given) := by
  refine ⟨?_, ?_, ?_, hrest.limit_eq.trans hyields.limit_eq, hrest.pos_le ∘ hyields.pos_le⟩
  · rw [hrest.calls_eq, hcalls, List.append_assoc]
    rfl
  · rw [hyields.unread_eq, ← hrest.unread_eq, ← List.append_assoc]
    rfl
  · intro p hp
    rcases List.mem_cons.mp hp with rfl | hp
    · exact hyields.admitted
    · exact hyields.limit_eq ▸ hrest.admitted p hp

theorem handleFrames_gives (h : Handler σ) (c : Connection (Watched σ)) :
    Gives c (c.handleFrames h.watched).2
      (givenOf h c.handler.state c.outbox (parse c.decoder.limit c.decoder.unread).payloads) := by
  fun_induction handleFrames h.watched c with
  | case1 c e decoder heq =>
    obtain ⟨rfl, len, rfl, hp⟩ := Decoder.error_of_decode heq
    rw [hp]
    exact Gives.nothing rfl rfl rfl id
  | case2 c decoder heq =>
    obtain ⟨rfl, hp⟩ := Decoder.none_of_decode heq
    rw [hp]
    exact Gives.nothing rfl rfl rfl id
  | case3 c payload decoder heq handled next hok ih =>
    have hyields : c.decoder.Yields payload next.decoder := Decoder.yields_of_decode heq
    have hcalls : next.handler.calls = c.handler.calls ++ [.frame payload] := rfl
    have hok' : (h.onFrame payload c.handler.state c.outbox).outcome = .returned (.ok ()) := hok
    rw [hyields.parse_eq]
    simp only [Framing.cons, givenOf, hok']
    exact Gives.cons hyields hcalls ih
  | case4 c payload decoder heq handled next hrefused =>
    have hyields : c.decoder.Yields payload next.decoder := Decoder.yields_of_decode heq
    have hcalls : next.handler.calls = c.handler.calls ++ [.frame payload] := rfl
    have hnone : givenOf h c.handler.state c.outbox (payload :: (parse next.decoder.limit next.decoder.unread).payloads) =
        [payload] := by
      rw [givenOf]
      split
      · rename_i hok
        exact absurd hok hrefused
      · rfl
    rw [hyields.parse_eq, Framing.cons, hnone]
    exact Gives.cons hyields hcalls (.nothing rfl rfl rfl id)

/-! ## All that was read -/

def broughtIn (past : List (Moment (Connection σ) Use)) : Bytes :=
  past.flatMap fun m =>
    match m.event with
    | .work socket => brought (m.before.readsIn socket)
    | .close | .drop => []

/-- All that an open connection has read is what its handler was given and what is unread. -/
structure Follows (limit : Nat) (past : List (Moment (Connection (Watched σ)) Use)) (c : Connection (Watched σ)) :
    Prop where
  limit_eq : c.decoder.limit = limit
  pos_le : c.decoder.pos ≤ c.decoder.buffer.length
  stream_eq : Frame.encodeAll (framesOf c.handler.calls) ++ c.decoder.unread = broughtIn past
  admitted : ∀ p ∈ framesOf c.handler.calls, Admitted limit p

section
variable {h : Handler σ} {limit : Nat} {past : List (Moment (Connection (Watched σ)) Use)}
  {c : Connection (Watched σ)} {socket : Socket}

def pending (c : Connection σ) (socket : Socket) : List Bytes :=
  (parse c.decoder.limit (c.decoder.unread ++ brought (reads c.readBudget socket.arrivals))).payloads

theorem broughtIn_work (hopen : c.closed = false) (past : List (Moment (Connection (Watched σ)) Use)) (socket : Socket) :
    broughtIn (past ++ [⟨c, .work socket⟩]) = broughtIn past ++ brought (reads c.readBudget socket.arrivals) := by
  rw [broughtIn, History.flatMap_snoc, ← readsIn_open hopen]
  rfl

theorem served_gives (h : Handler σ) (hpos : c.decoder.pos ≤ c.decoder.buffer.length) (socket : Socket) :
    Gives (c.filled socket) (c.served h.watched socket) (givenOf h c.handler.state c.outbox (c.pending socket)) := by
  obtain ⟨hunread, hlimit, -⟩ := filled_feeds hpos socket
  have hgives := handleFrames_gives h (c.filled socket)
  have hhandler : (c.filled socket).handler = c.handler := by rw [filled_eq]; rfl
  have houtbox : (c.filled socket).outbox = c.outbox := by rw [filled_eq]; rfl
  rwa [hunread, hlimit, hhandler, houtbox] at hgives

theorem calls_served (hpos : c.decoder.pos ≤ c.decoder.buffer.length) :
    (c.served h.watched socket).handler.calls =
      c.handler.calls ++ (givenOf h c.handler.state c.outbox (c.pending socket)).map .frame := by
  rw [(served_gives h hpos socket).calls_eq, filled_eq]
  rfl

/-- A unit of work whose reading fails ends its connection. -/
theorem read_of_goesOn {h : Handler σ} {c : Connection σ} (hgoes : ¬Ends h c (.work socket)) :
    (endOf (reads c.readBudget socket.arrivals)).toEnding = .returned (.ok ()) := by
  cases hend : endOf (reads c.readBudget socket.arrivals) with
  | blocked | budgetSpent | inputEnded => rfl
  | failed e =>
    have hfails : (ReadEnd.failed e).toEnding ≠ .returned (.ok ()) := nofun
    refine absurd (.inl ⟨.io e, ?_⟩) hgoes
    have hstages := drives h c socket
    cases hstages with
    | reading outcome => rw [outcome, hend]; rfl
    | handling read | polling read | writing read => exact absurd (hend ▸ read) hfails

theorem follows_new (s : σ) (limit budget : Nat) : Follows limit [] (new (⟨s, []⟩ : Watched σ) limit budget) :=
  ⟨rfl, Nat.le_refl 0, rfl, nofun⟩

theorem Follows.work (hfollows : Follows limit past c) (hopen : c.closed = false)
    (hgoes : ¬Ends h.watched c (.work socket)) :
    Follows limit (past ++ [⟨c, .work socket⟩]) (c.used h.watched (.work socket)) := by
  have hsame : SameInput (c.served h.watched socket) (c.used h.watched (.work socket)) := by
    rw [(used_goesOn hopen hgoes).1]
    exact sameInput_drive (read_of_goesOn hgoes)
  obtain ⟨hunread, hlimit, hpos⟩ := filled_feeds hfollows.pos_le socket
  have hgives := served_gives h hfollows.pos_le socket
  have hframes : framesOf (c.used h.watched (.work socket)).handler.calls =
      framesOf c.handler.calls ++ givenOf h c.handler.state c.outbox (c.pending socket) := by
    rw [hsame.frames, calls_served hfollows.pos_le, framesOf_append, framesOf_frames]
  refine ⟨?_, ?_, ?_, ?_⟩
  · rw [hsame.decoder, hgives.limit_eq, hlimit, hfollows.limit_eq]
  · rw [hsame.decoder]
    exact hgives.pos_le hpos
  · rw [hframes, hsame.decoder, Frame.encodeAll_append, List.append_assoc, hgives.unread_eq, hunread, ← List.append_assoc,
      hfollows.stream_eq, broughtIn_work hopen]
  · intro p hp
    rw [hframes] at hp
    rcases List.mem_append.mp hp with hp | hp
    · exact hfollows.admitted p hp
    · have hadmitted := hgives.admitted p hp
      rwa [hlimit, hfollows.limit_eq] at hadmitted

theorem follows (h : Handler σ) (s : σ) (limit budget : Nat) (uses : List Use)
    (hopen : (History.final (used h.watched) (new ⟨s, []⟩ limit budget) uses).closed = false) :
    Follows limit (History.moments (used h.watched) (new ⟨s, []⟩ limit budget) uses)
      (History.final (used h.watched) (new ⟨s, []⟩ limit budget) uses) := by
  refine History.along (fun past c => c.closed = false → Follows limit past c) ?_ ?_ uses hopen
  · exact fun _ => follows_new s limit budget
  · intro past c u ih hnow
    by_cases hclosed : c.closed = true
    · rw [(used_closed hclosed u).1, hclosed] at hnow
      cases hnow
    · have hbefore : c.closed = false := by simpa using hclosed
      by_cases hends : Ends h.watched c u
      · rw [used_ends hbefore hends, closed_close] at hnow
        cases hnow
      · obtain ⟨-, socket, rfl⟩ := used_goesOn hbefore hends
        exact (ih hbefore).work hbefore hends

/-- All that was read holds what the handler was given and then what is there for it. -/
theorem Follows.parse_eq (hfollows : Follows limit past c) (hopen : c.closed = false) (socket : Socket) :
    (parse limit (broughtIn (past ++ [⟨c, .work socket⟩]))).payloads = framesOf c.handler.calls ++ c.pending socket := by
  rw [broughtIn_work hopen, ← hfollows.stream_eq, List.append_assoc, Framing.parse_encodeAll_append hfollows.admitted, pending,
    hfollows.limit_eq]

/-! ## The unit of work that meets the end of the input -/

/-- A unit of work that meets the end of the input handles what is there and does not poll; then
    the connection is closed, unless the handler has cut the unit short. -/
theorem calls_of_meetsEnd (hpos : c.decoder.pos ≤ c.decoder.buffer.length) (hopen : c.closed = false)
    (hread : (endOf (reads c.readBudget socket.arrivals)).toEnding = .returned (.ok ())) (hmeets : c.MeetsEnd socket) :
    let frames := (givenOf h c.handler.state c.outbox (c.pending socket)).map Callback.frame
    (Ends h.watched c (.work socket) →
      (c.used h.watched (.work socket)).handler.calls = c.handler.calls ++ frames ++ [.closes]) ∧
    (¬Ends h.watched c (.work socket) → (c.used h.watched (.work socket)).handler.calls = c.handler.calls ++ frames ∧
      ∃ fault, (c.work h.watched socket).outcome = .raised fault) := by
  intro frames
  have hended : (c.served h.watched socket).peerClosed = true := by
    rw [(served_frame h.watched c socket).2.2]
    simpa [MeetsEnd] using hmeets
  have hpolled : c.polled h.watched socket = c.served h.watched socket := by rw [polled, poll_of_ended hended]
  have hcalls : (c.beforeClosing h.watched (.work socket)).handler.calls = c.handler.calls ++ frames := by
    rw [← calls_served hpos]
    show (drive h.watched c.begun socket).connection.handler.calls = _
    cases drives h.watched c socket with
    | reading outcome ended => exact absurd (outcome.trans hread) ended
    | handling _ _ _ connection => rw [connection]
    | polling _ _ _ _ connection => rw [connection, hpolled]
    | writing _ _ _ _ connection => rw [connection, flush_eq, hpolled]
  refine ⟨fun hends => ?_, fun hgoes => ⟨?_, ?_⟩⟩
  · rw [used_ends hopen hends, close_watched (closed_beforeClosing hopen _)]
    exact congrArg (· ++ [Callback.closes]) hcalls
  · rw [(used_goesOn hopen hgoes).1]
    exact hcalls
  · rcases (work_goesOn hopen hgoes).2 with ⟨-, hnot⟩ | hfault
    · exact absurd hmeets hnot
    · exact hfault

end

/-! ## Every run -/

theorem used_path (h : Handler σ) (c : Connection σ) (u : Use) : Path h c (c.used h u) := by
  cases u with
  | work socket => exact work_path h c socket
  | close | drop => exact close_path h c

theorem beforeClosing_path {h : Handler σ} {c : Connection σ} (hopen : c.closed = false) (u : Use) :
    Path h c (c.beforeClosing h u) := by
  cases u with
  | work socket =>
    have hstep : Step h c c.begun := .quiet rfl rfl rfl
    have hbegun : c.begun.closed = false := hopen
    show Path h c (drive h c.begun socket).connection
    exact .head hstep (drive_path hbegun socket).1
  | close | drop => exact .refl

theorem not_told (h : Handler σ) (s : σ) (limit budget : Nat) (uses : List Use) (u : Use)
    (hopen : (History.final (used h.watched) (new ⟨s, []⟩ limit budget) uses).closed = false) :
    .closes ∉ ((History.final (used h.watched) (new ⟨s, []⟩ limit budget) uses).beforeClosing h.watched u).handler.calls := by
  have hlife : Life h.watched (new ⟨s, []⟩ limit budget) (History.final (used h.watched) (new ⟨s, []⟩ limit budget) uses) :=
    History.along (fun _ c => Life h.watched (new ⟨s, []⟩ limit budget) c) .refl
      (fun _ c u hlife => hlife.trans (used_path h.watched c u).life) uses
  have honce := Life.closesOnce (hlife.trans (beforeClosing_path hopen u).life) (show ClosesOnce _ from List.not_mem_nil)
  rwa [ClosesOnce, closed_beforeClosing hopen u, if_neg (by simp)] at honce

/-- Of every connection, whatever units of work it does and however often it is told to close
    before it is dropped, whatever its sockets bring and take, and whatever its handler
    answers, faults out of any callback included.

    Its handler is told once that the connection closes, by the first use that ends it. That
    is the last callback and the statistics do not change any more; the use, if it is a unit
    of work, returns that the connection is closed, or raises what the handler raised when
    it was told; nothing happens to the connection later, and each later unit of work
    returns that it is closed.

    A unit of work that meets the end of the input, and none of whose reads fails, gives the
    handler all frames that were read and not given yet, in order, up to the first that it
    does not accept, and does not poll it; then the connection is closed. If instead the
    handler has cut the unit short by a fault, it waits for the next use. -/
theorem told_once (h : Handler σ) (s : σ) (limit budget : Nat) (uses : List Use) :
    let past := History.moments (used h.watched) (new ⟨s, []⟩ limit budget) (uses ++ [.drop])
    let last := History.final (used h.watched) (new ⟨s, []⟩ limit budget) (uses ++ [.drop])
    last.handler.calls.count .closes = 1 ∧
    (∃ (first : List (Moment (Connection (Watched σ)) Use)) (m : Moment (Connection (Watched σ)) Use)
        (later : List (Moment (Connection (Watched σ)) Use)), past = first ++ m :: later ∧ EndsAt h.watched first m later ∧
      let met := m.before.beforeClosing h.watched m.event
      last.handler.calls = met.handler.calls ++ [.closes] ∧ last.stats = met.stats ∧
      (∀ socket, m.event = .work socket → (m.before.work h.watched socket).outcome =
        match (h.onClose met.handler.state).1 with
        | .returned () => .returned true
        | .raised fault => .raised fault) ∧
      ∀ m' ∈ later, m'.before = last ∧ ∀ socket, (m'.before.work h.watched socket).outcome = .returned true) ∧
    ∀ (first : List (Moment (Connection (Watched σ)) Use)) (m : Moment (Connection (Watched σ)) Use)
        (later : List (Moment (Connection (Watched σ)) Use)) (socket : Socket),
      past = first ++ m :: later → m.event = .work socket → m.before.closed = false →
      (∀ x ∈ m.before.readsIn socket, ∀ e, x.answer ≠ .failed e) → m.before.MeetsEnd socket →
      let frames := (givenOf h m.before.handler.state m.before.outbox (m.before.pending socket)).map Callback.frame
      let after := m.before.used h.watched m.event
      (parse limit (broughtIn (first ++ [m]))).payloads = framesOf m.before.handler.calls ++ m.before.pending socket ∧
      (Ends h.watched m.before m.event → after.handler.calls = m.before.handler.calls ++ frames ++ [.closes]) ∧
      (¬Ends h.watched m.before m.event → after.handler.calls = m.before.handler.calls ++ frames ∧
        ∃ fault, (m.before.work h.watched socket).outcome = .raised fault) := by
  intro past last
  have hlastClosed : last.closed = true := by
    show (History.final (used h.watched) (new ⟨s, []⟩ limit budget) (uses ++ [.drop])).closed = true
    rw [History.final_append]
    exact closed_close h.watched _
  obtain ⟨first, m, later, hsplit, hat, hlast⟩ := exists_end (h := h.watched) (c := new ⟨s, []⟩ limit budget) rfl hlastClosed
  obtain ⟨before, -, -, -, hbefore, -⟩ := History.moments_split hsplit
  have hmet := closed_beforeClosing (h := h.watched) hat.isOpen m.event
  have hclose := close_watched (h := h) hmet
  rw [← used_ends hat.isOpen hat.ends, ← hlast] at hclose
  have hcalls : last.handler.calls = (m.before.beforeClosing h.watched m.event).handler.calls ++ [.closes] := by
    show (History.final (used h.watched) (new ⟨s, []⟩ limit budget) (uses ++ [.drop])).handler.calls = _
    rw [hclose]
  have hstats : last.stats = (m.before.beforeClosing h.watched m.event).stats := by
    show (History.final (used h.watched) (new ⟨s, []⟩ limit budget) (uses ++ [.drop])).stats = _
    rw [hclose]
  refine ⟨?_, ⟨first, m, later, hsplit, hat, hcalls, hstats, fun socket hsocket => ?_, fun m' hm' => ?_⟩, ?_⟩
  · have hopen := hat.isOpen
    rw [hbefore] at hopen
    have hnot := not_told h s limit budget before m.event hopen
    rw [← hbefore] at hnot
    rw [hcalls, List.count_append, List.count_eq_zero_of_not_mem hnot]
    rfl
  · have hends := hat.ends
    rw [hsocket] at hends hmet ⊢
    rw [(work_ends hat.isOpen hends).2, close_told hmet]
    rfl
  · have hsame : m'.before = last := (hat.stays m' hm').trans hlast.symm
    refine ⟨hsame, (used_closed ?_ m'.event).2⟩
    rw [hsame]
    exact hlastClosed
  · intro first m later socket hsplit hsocket hopen hunfailing hmeets
    obtain ⟨before, after, -, hfirst, hm, -⟩ := History.moments_split hsplit
    have hread : (endOf (reads m.before.readBudget socket.arrivals)).toEnding = .returned (.ok ()) := by
      rw [readsIn_open hopen] at hunfailing
      exact toEnding_of_unfailing hunfailing
    have hfollows : Follows limit first m.before := by
      rw [hm] at hopen ⊢
      rw [hfirst]
      exact follows h s limit budget before hopen
    obtain ⟨c, u⟩ := m
    obtain rfl : u = .work socket := hsocket
    exact ⟨hfollows.parse_eq hopen socket, calls_of_meetsEnd hfollows.pos_le hopen hread hmeets⟩

/-- A handler that refuses nothing, but raises a fault at a payload of one and when it is told
    that its connection closes. -/
def raising : Handler Unit where
  onFrame payload s outbox := ⟨if payload = [1] then .raised .untold else .returned (.ok ()), s, outbox⟩
  onClose s := (.raised .untold, s)

/-- The second of three frames cuts the first unit of work short; the second brings one more
    frame and the end of the input. -/
def visitsToTheEnd : List Use :=
  [.work { arrivals := [.bytes [0, 0, 0, 1, 7, 0, 0, 0, 1, 1, 0, 0, 0, 1, 8]] },
    .work { arrivals := [.bytes [0, 0, 0, 1, 9], .bytes []] }, .close, .work {}]

theorem visitsToTheEnd_told :
    let past := History.moments (used raising.watched) (new ⟨(), []⟩ 4 64) (visitsToTheEnd ++ [.drop])
    let last := History.final (used raising.watched) (new ⟨(), []⟩ 4 64) (visitsToTheEnd ++ [.drop])
    last.handler.calls = [.frame [7], .frame [1], .frame [8], .frame [9], .closes] ∧
    last.handler.calls.count .closes = 1 ∧
    ∃ first m later socket, past = first ++ m :: later ∧ m.event = .work socket ∧ first.length = 1 ∧
      m.before.MeetsEnd socket ∧ m.before.pending socket = [[8], [9]] ∧
      (parse 4 (broughtIn (first ++ [m]))).payloads = framesOf m.before.handler.calls ++ m.before.pending socket := by
  intro past last
  obtain ⟨honce, -, hmeets⟩ := told_once raising () 4 64 visitsToTheEnd
  have hcalls : (History.final (used raising.watched) (new ⟨(), []⟩ 4 64) (visitsToTheEnd ++ [.drop])).handler.calls =
      [.frame [7], .frame [1], .frame [8], .frame [9], .closes] := by cbv
  have hended : past[1].before.MeetsEnd { arrivals := [.bytes [0, 0, 0, 1, 9], .bytes []] } := .inr (by cbv)
  have hunfailing : ∀ x ∈ past[1].before.readsIn { arrivals := [.bytes [0, 0, 0, 1, 9], .bytes []] }, ∀ e,
      x.answer ≠ .failed e := by
    intro x hx e he
    rw [readsIn] at hx
    split at hx
    · cases hx
    · have hfailed := failed_mem hx he
      simp at hfailed
  obtain ⟨hparse, -⟩ := hmeets (past.take 1) past[1] (past.drop 2) _ rfl rfl (by cbv) hunfailing hended
  exact ⟨hcalls, honce, past.take 1, past[1], past.drop 2, _, rfl, rfl, rfl, hended, by cbv, hparse⟩

end MessageBroker.Connection
