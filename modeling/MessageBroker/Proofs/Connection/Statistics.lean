/-
  MessageBroker.Proofs.Connection.Statistics — what a connection counts of its output.

  A handler queues payloads and may discard what is unwritten; each unit of work ends with a
  flush, of which the socket takes what it likes. The bytes that the socket took are counted
  as they go. Frames are counted once the flush is over: all that were queued by then.
  - `Handler.Account`: what each call of a handler does to the outbox.
  - `Emits`: what a whole unit of work does to it (`emits_work`).
  - `Counts`: the invariant. All that was queued is accounted for, and so is every byte that
    the socket took; kept by every unit (`Counts.work`).
  - `framesOut_exact_iff`: what the statistics say after a unit of work, and when the count of
    frames is that of the frames the socket took to their last byte.
  - `framesOut_ahead`: a unit after which it is not.
-/

import MessageBroker.Loopback.Handler
import MessageBroker.Proofs.Connection.Reception
import MessageBroker.Proofs.Wire.Departure

namespace MessageBroker

open Wire
open Outbox (Change)

namespace Connection

variable {σ : Type}

/-! ## Handlers that keep an account of their outbox -/

/-- What each call of a handler does to its outbox, if it only queues and discards. -/
structure Handler.Account (h : Handler σ) where
  frame : Bytes → σ → Outbox → List Change
  poll : σ → Outbox → List Change
  onFrame_eq : ∀ payload s outbox,
    (h.onFrame payload s outbox).outbox = (frame payload s outbox).foldl Outbox.changed outbox
  pollPending_eq : ∀ s outbox, (h.pollPending s outbox).outbox = (poll s outbox).foldl Outbox.changed outbox

structure Logged (σ : Type) where
  state : σ
  changes : List Change := []

/-- The same handler, writing down what it does to its outbox. -/
def Handler.logged (h : Handler σ) (a : h.Account) : Handler (Logged σ) where
  onFrame payload s outbox :=
    let handled := h.onFrame payload s.state outbox
    ⟨handled.outcome, ⟨handled.state, s.changes ++ a.frame payload s.state outbox⟩, handled.outbox⟩
  pollPending s outbox :=
    let handled := h.pollPending s.state outbox
    ⟨handled.outcome, ⟨handled.state, s.changes ++ a.poll s.state outbox⟩, handled.outbox⟩
  onClose s := ((h.onClose s.state).1, ⟨(h.onClose s.state).2, s.changes⟩)

/-! ## Before the flush -/

structure Fills (c : Connection (Logged σ)) (changes : List Change) (c' : Connection (Logged σ)) : Prop where
  changes_eq : c'.handler.changes = c.handler.changes ++ changes
  outbox_eq : c'.outbox = changes.foldl Outbox.changed c.outbox
  bytesOut_eq : c'.stats.bytesOut = c.stats.bytesOut

section
variable {h : Handler σ} {a : h.Account} {c c₁ c₂ : Connection (Logged σ)}

theorem Fills.nothing (hhandler : c₁.handler = c.handler) (houtbox : c₁.outbox = c.outbox)
    (hbytes : c₁.stats.bytesOut = c.stats.bytesOut) : Fills c [] c₁ :=
  ⟨by rw [hhandler, List.append_nil], houtbox, hbytes⟩

theorem Fills.trans {first second : List Change} (h₁ : Fills c first c₁) (h₂ : Fills c₁ second c₂) :
    Fills c (first ++ second) c₂ where
  changes_eq := by rw [h₂.changes_eq, h₁.changes_eq, List.append_assoc]
  outbox_eq := by rw [h₂.outbox_eq, h₁.outbox_eq, List.foldl_append]
  bytesOut_eq := h₂.bytesOut_eq.trans h₁.bytesOut_eq

theorem fills_filled (c : Connection (Logged σ)) (socket : Socket) : Fills c [] (c.filled socket) := by
  rw [filled_eq]
  exact .nothing rfl rfl rfl

theorem fills_handleFrames (a : h.Account) (c : Connection (Logged σ)) :
    ∃ changes, Fills c changes (c.handleFrames (h.logged a)).2 := by
  fun_induction handleFrames (h.logged a) c with
  | case1 | case2 => exact ⟨[], .nothing rfl rfl rfl⟩
  | case3 c payload decoder _ handled next _ ih =>
    obtain ⟨changes, hrest⟩ := ih
    have hnext : Fills c (a.frame payload c.handler.state c.outbox) next :=
      ⟨rfl, a.onFrame_eq payload c.handler.state c.outbox, rfl⟩
    exact ⟨_, hnext.trans hrest⟩
  | case4 c payload decoder _ handled next =>
    exact ⟨_, rfl, a.onFrame_eq payload c.handler.state c.outbox, rfl⟩

theorem fills_poll (a : h.Account) (c : Connection (Logged σ)) :
    ∃ changes, Fills c changes (c.poll (h.logged a)).2 := by
  cases hended : c.peerClosed with
  | true =>
    rw [poll_of_ended hended]
    exact ⟨[], .nothing rfl rfl rfl⟩
  | false =>
    rw [poll_eq hended]
    exact ⟨_, rfl, a.pollPending_eq c.handler.state c.outbox, rfl⟩

theorem fills_served (a : h.Account) (c : Connection (Logged σ)) (socket : Socket) :
    ∃ changes, Fills c changes (c.served (h.logged a) socket) := by
  obtain ⟨changes, hserved⟩ := fills_handleFrames a (c.filled socket)
  exact ⟨_, (fills_filled c socket).trans hserved⟩

theorem fills_polled (a : h.Account) (c : Connection (Logged σ)) (socket : Socket) :
    ∃ changes, Fills c changes (c.polled (h.logged a) socket) := by
  obtain ⟨first, hserved⟩ := fills_served a c socket
  obtain ⟨second, hpolled⟩ := fills_poll a (c.served (h.logged a) socket)
  exact ⟨_, hserved.trans hpolled⟩

/-! ## A whole unit of work -/

/-- The outbox is changed as the handler has written down, and then `written` goes from the
    front of it to the socket. -/
structure Emits (c : Connection (Logged σ)) (changes : List Change) (written : Bytes) (c' : Connection (Logged σ)) :
    Prop where
  changes_eq : c'.handler.changes = c.handler.changes ++ changes
  unwritten_eq : (changes.foldl Outbox.changed c.outbox).unwritten = written ++ c'.outbox.unwritten
  queued_eq : c'.outbox.queued = (changes.foldl Outbox.changed c.outbox).queued
  offset_le : (changes.foldl Outbox.changed c.outbox).offset ≤ (changes.foldl Outbox.changed c.outbox).buffer.length →
    c'.outbox.offset ≤ c'.outbox.buffer.length
  bytesOut_eq : c'.stats.bytesOut = c.stats.bytesOut + written.length

theorem Fills.emits {changes : List Change} (hfills : Fills c changes c₁) : Emits c changes [] c₁ where
  changes_eq := hfills.changes_eq
  unwritten_eq := by rw [hfills.outbox_eq, List.nil_append]
  queued_eq := by rw [hfills.outbox_eq]
  offset_le hle := by rwa [hfills.outbox_eq]
  bytesOut_eq := hfills.bytesOut_eq

theorem Fills.flush {changes : List Change} (hfills : Fills c changes c₁) (acceptances : List Acceptance) :
    Emits c changes (c₁.flush acceptances).2.2.1 (c₁.flush acceptances).2.1 := by
  have hwrites := writeOutput_spec c₁.outbox acceptances
  rw [flush_eq]
  refine ⟨hfills.changes_eq, ?_, ?_, ?_, ?_⟩
  · rw [← hfills.outbox_eq]
    exact hwrites.unwritten_eq
  · rw [← hfills.outbox_eq]
    exact hwrites.queued_eq
  · rw [← hfills.outbox_eq]
    exact hwrites.offset_le
  · simp only [hfills.bytesOut_eq]

theorem written_drive (h : Handler σ) (c : Connection σ) (socket : Socket) :
    let driven := drive h c.begun socket
    (driven.written = [] ∧ (driven.connection = c.filled socket ∨ driven.connection = c.served h socket ∨
      driven.connection = c.polled h socket)) ∨
    (driven.written = ((c.polled h socket).flush socket.acceptances).2.2.1 ∧
      driven.connection = ((c.polled h socket).flush socket.acceptances).2.1) := by
  intro driven
  simp only [driven]
  unfold drive
  split
  · rename_i filled arrivals hfilled
    obtain rfl : c.filled socket = filled := congrArg (·.2.1) hfilled
    split
    · rename_i served hserved
      obtain rfl : c.served h socket = served := congrArg Prod.snd hserved
      split
      · rename_i polled hpolled
        obtain rfl : c.polled h socket = polled := congrArg Prod.snd hpolled
        exact .inr ⟨rfl, rfl⟩
      · rename_i outcome polled _ hpolled
        exact .inl ⟨rfl, .inr (.inr (congrArg Prod.snd hpolled).symm)⟩
    · rename_i outcome served _ hserved
      exact .inl ⟨rfl, .inr (.inl (congrArg Prod.snd hserved).symm)⟩
  · rename_i outcome filled arrivals _ hfilled
    exact .inl ⟨rfl, .inl (congrArg (·.2.1) hfilled).symm⟩

theorem emits_drive (a : h.Account) (c : Connection (Logged σ)) (socket : Socket) :
    ∃ changes, Emits c changes (drive (h.logged a) c.begun socket).written
      (drive (h.logged a) c.begun socket).connection := by
  obtain ⟨served, hserved⟩ := fills_served a c socket
  obtain ⟨polled, hpolled⟩ := fills_polled a c socket
  rcases written_drive (h.logged a) c socket with ⟨hnone, hfilled | hfilled | hfilled⟩ | ⟨hwritten, hflushed⟩
  · rw [hnone, hfilled]
    exact ⟨[], (fills_filled c socket).emits⟩
  · rw [hnone, hfilled]
    exact ⟨served, hserved.emits⟩
  · rw [hnone, hfilled]
    exact ⟨polled, hpolled.emits⟩
  · rw [hwritten, hflushed]
    exact ⟨polled, hpolled.flush socket.acceptances⟩

theorem Emits.close {changes : List Change} {written : Bytes} (hemits : Emits c changes written c₁) :
    Emits c changes written (c₁.close (h.logged a)).2 := by
  unfold Connection.close
  split
  · exact hemits
  · exact ⟨hemits.changes_eq, hemits.unwritten_eq, hemits.queued_eq, hemits.offset_le, hemits.bytesOut_eq⟩

theorem written_finish (h : Handler σ) (driven : Worked (Except Error Unit) σ) :
    (finish h driven).written = driven.written := by
  unfold finish
  split
  · rfl
  · split
    · rfl
    · split <;> rfl

/-- Whatever becomes of a unit of work, the connection has changed its outbox so. -/
theorem emits_work (a : h.Account) (c : Connection (Logged σ)) (socket : Socket) :
    ∃ changes, Emits c changes (c.work (h.logged a) socket).written (c.work (h.logged a) socket).connection := by
  cases hclosed : c.closed with
  | true =>
    have hwork : c.work (h.logged a) socket = { outcome := .returned true, connection := c, socket } := by
      rw [work, if_pos hclosed]
    rw [hwork]
    exact ⟨[], (Fills.nothing rfl rfl rfl).emits⟩
  | false =>
    obtain ⟨changes, hdriven⟩ := emits_drive a c socket
    rw [work_eq (h.logged a) hclosed, written_finish]
    refine ⟨changes, ?_⟩
    cases finishes (h.logged a) (drive (h.logged a) c.begun socket) with
    | goesOn _ _ result | faults _ _ result =>
      rw [result]
      exact hdriven
    | closes _ _ _ _ connection =>
      rw [connection]
      exact hdriven.close

end

/-! ## Every run -/

section
variable {τ : Type}

def writtenAt (h : Handler τ) (m : Moment (Connection τ) Socket) : Bytes := (m.before.work h m.event).written

def accepted (h : Handler τ) (past : List (Moment (Connection τ) Socket)) : Bytes := past.flatMap (writtenAt h)

def changesAt (h : Handler (Logged σ)) (m : Moment (Connection (Logged σ)) Socket) : List Change :=
  (m.before.worked h m.event).handler.changes.drop m.before.handler.changes.length

/-- What left the outbox in one unit of work: what the handler discarded, and then what the
    socket took. -/
def departuresAt (h : Handler (Logged σ)) (m : Moment (Connection (Logged σ)) Socket) : List Departure :=
  Departure.ofBytes false (m.before.outbox.discards (changesAt h m)) ++ Departure.ofBytes true (writtenAt h m)

def departures (h : Handler (Logged σ)) (past : List (Moment (Connection (Logged σ)) Socket)) : List Departure :=
  past.flatMap (departuresAt h)

def Logged.queued (s : Logged σ) : List Bytes := s.changes.flatMap Change.queues

theorem accepted_eq (h : Handler (Logged σ)) (past : List (Moment (Connection (Logged σ)) Socket)) :
    accepted h past = ((departures h past).filter (·.taken)).map (·.byte) := by
  induction past with
  | nil => rfl
  | cons m past ih =>
    have hat : ((departuresAt h m).filter (·.taken)).map (·.byte) = writtenAt h m := by
      rw [departuresAt, List.filter_append, List.filter_eq_nil_iff.mpr, List.filter_eq_self.mpr]
      · exact Departure.map_byte_ofBytes true _
      · exact fun d hd => Departure.taken_of_mem_ofBytes hd
      · intro d hd
        rw [Departure.taken_of_mem_ofBytes hd]
        exact Bool.false_ne_true
    rw [accepted, departures, List.flatMap_cons, List.flatMap_cons, List.filter_append, List.map_append, hat]
    exact congrArg (_ ++ ·) ih

end

/-- All that was queued is accounted for, and what the socket took is counted. -/
structure Counts (h : Handler (Logged σ)) (past : List (Moment (Connection (Logged σ)) Socket))
    (c : Connection (Logged σ)) : Prop where
  books : Outbox.Books c.handler.queued (departures h past) c.outbox
  bytesOut_eq : c.stats.bytesOut = (accepted h past).length
  /-- A handler that discards nothing leaves everything to the socket. -/
  kept : .clear ∉ c.handler.changes → ∀ d ∈ departures h past, d.taken = true

theorem counts_new (h : Handler (Logged σ)) (s : σ) (limit budget : Nat) :
    Counts h [] (new ⟨s, []⟩ limit budget) :=
  ⟨Outbox.books_empty, rfl, fun _ => nofun⟩

theorem discards_of_kept {changes : List Change} (hkept : .clear ∉ changes) (outbox : Outbox) :
    outbox.discards changes = [] := by
  induction changes generalizing outbox with
  | nil => rfl
  | cons e rest ih =>
    obtain ⟨hne, hrest⟩ := not_or.mp (mt List.mem_cons.mpr hkept)
    cases e with
    | push payload => exact ih hrest _
    | clear => exact absurd rfl hne

section
variable {h : Handler σ} {a : h.Account} {past : List (Moment (Connection (Logged σ)) Socket)}
  {c : Connection (Logged σ)}

theorem Counts.work (hcounts : Counts (h.logged a) past c) (socket : Socket) :
    Counts (h.logged a) (past ++ [⟨c, socket⟩]) (c.worked (h.logged a) socket) := by
  obtain ⟨changes, hemits⟩ := emits_work a c socket
  have hchanges : changesAt (h.logged a) ⟨c, socket⟩ = changes := by
    rw [changesAt, worked, hemits.changes_eq, List.drop_left]
  have hbooks := (hcounts.books.changes changes).write hemits.unwritten_eq hemits.queued_eq
    (hemits.offset_le (hcounts.books.changes changes).offset_le)
  refine ⟨?_, ?_, ?_⟩
  · rw [departures, History.flatMap_snoc, departuresAt, hchanges, ← List.append_assoc, Logged.queued, worked,
      hemits.changes_eq, List.flatMap_append]
    exact hbooks
  · rw [accepted, History.flatMap_snoc, List.length_append, worked, hemits.bytesOut_eq, hcounts.bytesOut_eq]
    rfl
  · intro hkept d hd
    rw [worked, hemits.changes_eq, List.mem_append, not_or] at hkept
    rw [departures, History.flatMap_snoc, departuresAt, hchanges, discards_of_kept hkept.2] at hd
    rcases List.mem_append.mp hd with hd | hd
    · exact hcounts.kept hkept.1 d hd
    · exact Departure.taken_of_mem_ofBytes hd

theorem counts (a : h.Account) (s : σ) (limit budget : Nat) (sockets : List Socket) :
    Counts (h.logged a) (History.moments (worked (h.logged a)) (new ⟨s, []⟩ limit budget) sockets)
      (History.final (worked (h.logged a)) (new ⟨s, []⟩ limit budget) sockets) :=
  History.along (Counts (h.logged a)) (counts_new (h.logged a) s limit budget) (fun _ _ socket h => h.work socket) sockets

theorem Counts.accepted_eq_iff (hcounts : Counts (h.logged a) past c) :
    accepted (h.logged a) past = Frame.encodeAll c.handler.queued ↔
      c.outbox.unwritten = [] ∧ ∀ d ∈ departures (h.logged a) past, d.taken = true := by
  have hstream := hcounts.books.stream_eq
  have hlength := hcounts.books.length_eq
  rw [accepted_eq]
  constructor
  · intro hall
    have hle := List.length_filter_le (fun d : Departure => d.taken) (departures (h.logged a) past)
    have htotal := congrArg List.length hall
    rw [List.length_map] at htotal
    have hsame : ((departures (h.logged a) past).filter (·.taken)).length = (departures (h.logged a) past).length := by
      omega
    exact ⟨List.length_eq_zero_iff.mp (by omega), List.length_filter_eq_length_iff.mp hsame⟩
  · rintro ⟨hnone, htaken⟩
    rw [hnone, List.append_nil] at hstream
    rw [List.filter_eq_self.mpr htaken, hstream]

end

/-- After a unit of work that ends well, the frames queued so far are those counted. -/
theorem framesOut_of_goesOn {h : Handler σ} {c : Connection σ} {socket : Socket}
    (goesOn : (c.work h socket).outcome = .returned false) :
    (c.worked h socket).stats.framesOut = (c.worked h socket).outbox.queued := by
  have hwell := work_goesOn_iff.mp goesOn
  have hflushed := hwell.flushed
  have hwrites := writeOutput_spec (c.polled h socket).outbox socket.acceptances
  rw [worked, hwell.work.2.1]
  rw [flush_eq] at hflushed ⊢
  cases hresult : (writeOutput (c.polled h socket).outbox socket.acceptances).result with
  | error e => simp [hresult] at hflushed
  | ok _ => simp [Except.isOk, Except.toBool, hwrites.queued_eq]

/-- A new connection with any handler that queues payloads and discards what is unwritten, as it
    likes; any units of work, and then one that leaves the connection open. All bytes that
    left its outbox and those still in it are the frames queued, in order, and counted are the
    bytes that the socket took. Counted as well is every frame queued, whether the socket
    took it or not. So never too few frames are counted, and just those whose last byte the
    socket took exactly if it took all that was queued; if nothing is ever discarded, exactly
    if the outbox is empty. -/
theorem framesOut_exact_iff (h : Handler σ) (a : h.Account) (s : σ) (limit budget : Nat) (sockets : List Socket)
    (socket : Socket)
    (goesOn : ((History.final (worked (h.logged a)) (new ⟨s, []⟩ limit budget) sockets).work (h.logged a) socket).outcome =
      .returned false) :
    let past := History.moments (worked (h.logged a)) (new ⟨s, []⟩ limit budget) (sockets ++ [socket])
    let c := History.final (worked (h.logged a)) (new ⟨s, []⟩ limit budget) (sockets ++ [socket])
    let gone := departures (h.logged a) past
    let sent := framesSent c.handler.queued gone
    gone.map (·.byte) ++ c.outbox.unwritten = Frame.encodeAll c.handler.queued ∧
    (gone.filter (·.taken)).map (·.byte) = accepted (h.logged a) past ∧
    c.stats.bytesOut = (accepted (h.logged a) past).length ∧
    c.stats.framesOut = c.handler.queued.length ∧
    sent ≤ c.stats.framesOut ∧
    (c.stats.framesOut = sent ↔ accepted (h.logged a) past = Frame.encodeAll c.handler.queued) ∧
    (.clear ∉ c.handler.changes → (c.stats.framesOut = sent ↔ c.outbox.isEmpty = true)) := by
  intro past c gone sent
  have hcounts : Counts (h.logged a) past c := counts a s limit budget (sockets ++ [socket])
  have hqueued : c.stats.framesOut = c.outbox.queued := by
    have hlast : c = (History.final (worked (h.logged a)) (new ⟨s, []⟩ limit budget) sockets).worked (h.logged a) socket :=
      History.final_append _ sockets [socket]
    rw [hlast]
    exact framesOut_of_goesOn goesOn
  have hsent := hcounts.books.framesSent_eq_iff
  refine ⟨hcounts.books.stream_eq, (accepted_eq _ past).symm, hcounts.bytesOut_eq, ?_, ?_, ?_, ?_⟩
  · rw [hqueued, hcounts.books.queued_eq]
  · rw [hqueued]
    exact hcounts.books.framesSent_le
  · rw [hqueued, eq_comm, hcounts.accepted_eq_iff]
    exact hsent
  · intro hkept
    rw [hqueued, eq_comm, hsent, Outbox.isEmpty_iff]
    exact and_iff_left (hcounts.kept hkept)

end Connection

/-! ## The loopback protocol -/

namespace Loopback

open Connection Delivery

def passPayloads : List Bytes → Nat → Session Bytes → List Bytes
  | [], _, _ => []
  | message :: rest, left, session =>
    if left = 0 ∨ session.hasCredit = false then []
    else
      match session.deliver message with
      | .error _ => []
      | .ok (tag, session) => delivery tag message :: passPayloads rest (left - 1) session

theorem outbox_deliverPending (pending : List Bytes) (left : Nat) (session : Session Bytes) (outbox : Outbox) :
    (Engine.deliverPending pending left session outbox).outbox =
      ((passPayloads pending left session).map .push).foldl Outbox.changed outbox := by
  induction pending generalizing left session outbox with
  | nil => rfl
  | cons message rest ih =>
    by_cases hstop : left = 0 ∨ session.hasCredit = false
    · simp only [Engine.deliverPending, passPayloads, if_pos hstop]
      rfl
    · simp only [Engine.deliverPending, passPayloads, if_neg hstop]
      cases session.deliver message with
      | error e => rfl
      | ok delivered => exact ih (left - 1) delivered.2 (outbox.push (delivery delivered.1 message))

def account : handler.Account where
  frame _ _ _ := []
  poll c _ := (passPayloads c.engine.pending c.engine.batch c.engine.session).map .push
  onFrame_eq payload c outbox := by
    simp only [handler]
    split <;> rfl
  pollPending_eq c outbox := outbox_deliverPending c.engine.pending c.engine.batch c.engine.session outbox

/-- One body is published. What delivers it is fourteen bytes long; the socket takes five. -/
def firstVisit : Socket :=
  { arrivals := [.bytes [0, 0, 0, 2, 1, 65]], acceptances := [.bytes 5, .blocked] }

def secondVisit : Socket := { acceptances := [.interrupted, .bytes 100] }

/-- After the first visit a frame is counted, and the socket has taken the last byte of none. -/
theorem framesOut_ahead :
    let h := handler.logged account
    let c := Connection.new (⟨⟨.new none 1, {}⟩, []⟩ : Logged Client) 16 64
    let past := History.moments (worked h) c [firstVisit]
    let after := c.worked h firstVisit
    (c.work h firstVisit).outcome = .returned false ∧
    accepted h past = [0, 0, 0, 10, 129] ∧ after.stats.bytesOut = 5 ∧
    after.handler.queued = [[129, 0, 0, 0, 0, 0, 0, 0, 1, 65]] ∧
    framesSent after.handler.queued (departures h past) = 0 ∧ after.stats.framesOut = 1 := by
  refine ⟨?_, ?_, ?_, ?_, ?_, ?_⟩ <;> cbv

/-- After the second visit all is written, and the count is right. -/
theorem framesOut_in_the_end :
    let h := handler.logged account
    let c := Connection.new (⟨⟨.new none 1, {}⟩, []⟩ : Logged Client) 16 64
    let past := History.moments (worked h) c [firstVisit, secondVisit]
    let after := History.final (worked h) c [firstVisit, secondVisit]
    ((c.worked h firstVisit).work h secondVisit).outcome = .returned false ∧
    after.handler.queued = [[129, 0, 0, 0, 0, 0, 0, 0, 1, 65]] ∧ after.outbox.isEmpty = true ∧
    after.stats.bytesOut = 14 ∧ after.stats.framesOut = 1 ∧ framesSent after.handler.queued (departures h past) = 1 ∧
    accepted h past = [0, 0, 0, 10, 129, 0, 0, 0, 0, 0, 0, 0, 1, 65] := by
  intro h c past after
  have goesOn : ((History.final (worked h) c [firstVisit]).work h secondVisit).outcome = .returned false := by cbv
  have hchanges : (History.final (worked h) c [firstVisit, secondVisit]).handler.changes =
      [.push [129, 0, 0, 0, 0, 0, 0, 0, 1, 65]] := by cbv
  have hempty : (History.final (worked h) c [firstVisit, secondVisit]).outbox.isEmpty = true := by cbv
  have hqueued : after.handler.queued = [[129, 0, 0, 0, 0, 0, 0, 0, 1, 65]] := congrArg (List.flatMap Change.queues) hchanges
  have hkept : .clear ∉ after.handler.changes := by
    rw [hchanges]
    decide
  obtain ⟨-, -, hbytes, hframes, -, hexact, hopen⟩ :=
    framesOut_exact_iff handler account ⟨.new none 1, {}⟩ 16 64 [firstVisit] secondVisit goesOn
  have hone : after.stats.framesOut = 1 := hframes.trans (congrArg List.length hqueued)
  have hsent : after.stats.framesOut = framesSent after.handler.queued (departures h past) := (hopen hkept).mpr hempty
  have haccepted : accepted h past = Frame.encodeAll after.handler.queued := hexact.mp hsent
  rw [hqueued] at haccepted
  exact ⟨goesOn, hqueued, hempty, hbytes.trans (congrArg List.length haccepted), hone, hsent.symm.trans hone, haccepted⟩

end Loopback

end MessageBroker
