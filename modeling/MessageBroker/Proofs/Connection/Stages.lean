/-
  MessageBroker.Proofs.Connection.Stages — a unit of work, stage by stage.

  A unit reads, gives each whole payload to the handler, polls it, and writes. `begun`,
  `filled`, `served` and `polled` are the connection between the stages.
  - `read_eq` / `poll_eq` / `flush_eq`: what a stage answers and changes.
  - `handleFrames_spec`: a handler that accepts what the unread bytes hold is given just
    that, in order, and the end of it decides how the stage ends.
  - `drives` / `work_eq`: how far the stages come, and what the unit makes of it.
  - `drive_keeps`: what the stages behind the reading leave alone.
  - `work_goesOn_iff`: a unit leaves its connection open exactly if every stage ends well
    and the input has not ended.
-/

import MessageBroker.Proofs.Connection.Callbacks
import MessageBroker.Proofs.Connection.Exchange
import MessageBroker.Proofs.Wire.Decoding

namespace MessageBroker.Connection

open Wire
open Framing (parse)

variable {σ : Type}

/-! ## The connection between the stages -/

def begun (c : Connection σ) : Connection σ :=
  { c with
    stateChanged := false
    partialRead := false
    stats := { c.stats with unitsOfWork := c.stats.unitsOfWork + 1 } }

def filled (c : Connection σ) (socket : Socket) : Connection σ := (c.begun.read socket.arrivals).2.1

def served (h : Handler σ) (c : Connection σ) (socket : Socket) : Connection σ := ((c.filled socket).handleFrames h).2

def polled (h : Handler σ) (c : Connection σ) (socket : Socket) : Connection σ := ((c.served h socket).poll h).2

/-- The reads of a unit of work; a closed connection makes none. -/
def readsIn (c : Connection σ) (socket : Socket) : List Read :=
  if c.closed then [] else reads c.readBudget socket.arrivals

theorem readsIn_open {c : Connection σ} (hopen : c.closed = false) (socket : Socket) :
    c.readsIn socket = reads c.readBudget socket.arrivals := by
  rw [readsIn, if_neg (by simp [hopen])]

/-- The writes of a unit of work all of whose other stages end well. -/
def writesIn (h : Handler σ) (c : Connection σ) (socket : Socket) : List Write :=
  writes (c.polled h socket).outbox socket.acceptances

/-! ## What a stage answers and changes -/

def ReadEnd.toEnding : ReadEnd → Ending
  | .failed e => .returned (.error (.io e))
  | _ => .returned (.ok ())

theorem toEnding_of_unfailing {log : List Read} (h : ∀ x ∈ log, ∀ e, x.answer ≠ .failed e) :
    (endOf log).toEnding = .returned (.ok ()) := by
  cases hend : endOf log with
  | failed e =>
    obtain ⟨x, hx, he⟩ := mem_of_failed hend
    exact absurd he (h x hx e)
  | blocked | budgetSpent | inputEnded => rfl

theorem read_eq (c : Connection σ) (arrivals : List Arrival) :
    let log := reads c.readBudget arrivals
    let reading := readInput c.decoder c.readBudget arrivals
    c.read arrivals =
      ((endOf log).toEnding,
      { c with
        decoder := reading.decoder
        partialRead := c.partialRead || endOf log = .budgetSpent
        peerClosed := c.peerClosed || endOf log = .inputEnded
        stats := { c.stats with
          bytesIn := c.stats.bytesIn + (brought log).length
          partialReads := c.stats.partialReads + if endOf log = .budgetSpent then 1 else 0 } },
      reading.rest) := by
  intro log reading
  have hread : ReadsAs c.readBudget arrivals log reading := readInput_spec ..
  rw [← hread.ending_eq, ← hread.count_eq]
  unfold read
  simp only
  cases hending : reading.ending <;> simp [reading, ReadEnd.toEnding]

theorem poll_of_ended {h : Handler σ} {c : Connection σ} (hended : c.peerClosed = true) :
    c.poll h = (.returned (.ok ()), c) := by
  simp [poll, hended]

theorem poll_eq {h : Handler σ} {c : Connection σ} (hgoing : c.peerClosed = false) :
    let handled := h.pollPending c.handler c.outbox
    c.poll h =
      (match handled.outcome with
        | .returned _ => .returned (.ok ())
        | .raised fault => .raised fault,
      { c with
        handler := handled.state
        outbox := handled.outbox
        stateChanged := c.stateChanged || handled.outcome = .returned true }) := by
  intro handled
  unfold poll
  rw [if_neg (by simp [hgoing])]
  simp only
  cases handled.outcome <;> simp [handled]

theorem flush_eq (c : Connection σ) (acceptances : List Acceptance) :
    let writing := writeOutput c.outbox acceptances
    c.flush acceptances =
      (match writing.result with
        | .ok () => .returned (.ok ())
        | .error e => .returned (.error (.io e)),
      { c with
        outbox := writing.outbox
        stats := { c.stats with
          bytesOut := c.stats.bytesOut + writing.written.length
          framesOut := if writing.result.isOk then c.outbox.queued else c.stats.framesOut } },
      writing.written, writing.rest) := by
  intro writing
  unfold flush
  simp only
  cases hresult : writing.result <;> simp [writing, Except.isOk, Except.toBool]

@[simp] theorem readBudget_poll (h : Handler σ) (c : Connection σ) : (c.poll h).2.readBudget = c.readBudget := by
  cases hended : c.peerClosed with
  | true => rw [poll_of_ended hended]
  | false => rw [poll_eq hended]

@[simp] theorem peerClosed_poll (h : Handler σ) (c : Connection σ) : (c.poll h).2.peerClosed = c.peerClosed := by
  cases hended : c.peerClosed with
  | true => rw [poll_of_ended hended, hended]
  | false => rw [poll_eq hended, hended]

@[simp] theorem peerClosed_flush (c : Connection σ) (acceptances : List Acceptance) :
    (c.flush acceptances).2.1.peerClosed = c.peerClosed := by
  rw [flush_eq]

/-! ## Handling frames -/

def give (h : Handler σ) (x : σ × Outbox) (payload : Bytes) : σ × Outbox :=
  ((h.onFrame payload x.1 x.2).state, (h.onFrame payload x.1 x.2).outbox)

structure Serves (h : Handler σ) (c : Connection σ) (found : Framing) (r : Ending × Connection σ) : Prop where
  ending_eq : r.1 = .returned (match found.ending.refusal c.decoder.limit with
    | none => .ok ()
    | some e => .error e)
  connection_eq : r.2 = { c with
    decoder := r.2.decoder
    handler := (found.payloads.foldl (give h) (c.handler, c.outbox)).1
    outbox := (found.payloads.foldl (give h) (c.handler, c.outbox)).2
    stats := { c.stats with framesIn := c.stats.framesIn + found.payloads.length } }
  unread_eq : r.2.decoder.unread = found.rest
  limit_eq : r.2.decoder.limit = c.decoder.limit
  pos_le : c.decoder.pos ≤ c.decoder.buffer.length → r.2.decoder.pos ≤ r.2.decoder.buffer.length

theorem handleFrames_spec {h : Handler σ} {c : Connection σ}
    (accepts : ∀ p ∈ (parse c.decoder.limit c.decoder.unread).payloads, ∀ s outbox,
      (h.onFrame p s outbox).outcome = .returned (.ok ())) :
    Serves h c (parse c.decoder.limit c.decoder.unread) (c.handleFrames h) := by
  fun_induction handleFrames h c with
  | case1 c e decoder heq =>
    obtain ⟨rfl, len, rfl, hp⟩ := Decoder.error_of_decode heq
    rw [hp]
    exact ⟨rfl, rfl, rfl, rfl, id⟩
  | case2 c decoder heq =>
    obtain ⟨rfl, hp⟩ := Decoder.none_of_decode heq
    rw [hp]
    exact ⟨rfl, rfl, rfl, rfl, id⟩
  | case3 c payload decoder heq handled next _ ih =>
    have hy := Decoder.yields_of_decode heq
    rw [hy.parse_eq] at accepts ⊢
    have hrest := ih fun p hp => accepts p (List.mem_cons_of_mem payload hp)
    refine ⟨?_, ?_, hrest.unread_eq, hrest.limit_eq.trans hy.limit_eq, hrest.pos_le ∘ hy.pos_le⟩
    · exact hy.limit_eq ▸ hrest.ending_eq
    · rw [hrest.connection_eq]
      simp [next, Framing.cons, give, handled, Nat.add_comm, Nat.add_assoc]
  | case4 c payload decoder heq handled next hrefused =>
    have hy := Decoder.yields_of_decode heq
    rw [hy.parse_eq] at accepts
    exact absurd (accepts payload List.mem_cons_self c.handler c.outbox) hrefused

/-- Whatever the handler does, handling its frames changes nothing else of a connection. -/
theorem handleFrames_keeps (h : Handler σ) (c : Connection σ) :
    (c.handleFrames h).2 = { c with
      decoder := (c.handleFrames h).2.decoder
      handler := (c.handleFrames h).2.handler
      outbox := (c.handleFrames h).2.outbox
      stats := { c.stats with framesIn := (c.handleFrames h).2.stats.framesIn } } := by
  fun_induction handleFrames h c with
  | case1 | case2 | case4 => rfl
  | case3 c payload decoder heq handled next _ ih =>
    conv => lhs; rw [ih]

theorem unfinished_of_handleFrames {h : Handler σ} {c : Connection σ} (hok : (c.handleFrames h).1 = .returned (.ok ())) :
    parse (c.handleFrames h).2.decoder.limit (c.handleFrames h).2.decoder.unread =
      { rest := (c.handleFrames h).2.decoder.unread, ending := .unfinished } := by
  fun_induction handleFrames h c with
  | case1 => cases hok
  | case2 c decoder heq =>
    obtain ⟨rfl, hp⟩ := Decoder.none_of_decode heq
    exact hp
  | case3 c payload decoder heq handled next _ ih => exact ih hok
  | case4 c payload decoder heq handled next hrefused => exact absurd hok hrefused

theorem filled_eq (c : Connection σ) (socket : Socket) :
    let log := reads c.readBudget socket.arrivals
    c.filled socket = { c.begun with
      decoder := (readInput c.decoder c.readBudget socket.arrivals).decoder
      partialRead := decide (endOf log = .budgetSpent)
      peerClosed := c.peerClosed || endOf log = .inputEnded
      stats := { c.begun.stats with
        bytesIn := c.stats.bytesIn + (brought log).length
        partialReads := c.stats.partialReads + if endOf log = .budgetSpent then 1 else 0 } } := by
  intro log
  rw [filled, read_eq]
  rfl

theorem filled_feeds {c : Connection σ} (hpos : c.decoder.pos ≤ c.decoder.buffer.length) (socket : Socket) :
    (c.filled socket).decoder.unread = c.decoder.unread ++ brought (reads c.readBudget socket.arrivals) ∧
    (c.filled socket).decoder.limit = c.decoder.limit ∧
    (c.filled socket).decoder.pos ≤ (c.filled socket).decoder.buffer.length := by
  obtain ⟨hunread, hpos'⟩ := readInput_feeds hpos c.readBudget socket.arrivals
  rw [filled_eq]
  exact ⟨hunread, limit_readInput _ _ _, hpos'⟩

theorem served_frame (h : Handler σ) (c : Connection σ) (socket : Socket) :
    (c.served h socket).stateChanged = false ∧
    (c.served h socket).partialRead = decide (endOf (reads c.readBudget socket.arrivals) = .budgetSpent) ∧
    (c.served h socket).peerClosed = (c.peerClosed || endOf (reads c.readBudget socket.arrivals) = .inputEnded) := by
  rw [served, handleFrames_keeps, filled_eq]
  exact ⟨rfl, rfl, rfl⟩

/-! ## The whole unit -/

inductive Drives (h : Handler σ) (c : Connection σ) (socket : Socket) (w : Worked (Except Error Unit) σ) : Prop
  | reading (outcome : w.outcome = (endOf (reads c.readBudget socket.arrivals)).toEnding)
      (ended : w.outcome ≠ .returned (.ok ())) (connection : w.connection = c.filled socket)
  | handling (read : (endOf (reads c.readBudget socket.arrivals)).toEnding = .returned (.ok ()))
      (outcome : w.outcome = ((c.filled socket).handleFrames h).1) (ended : w.outcome ≠ .returned (.ok ()))
      (connection : w.connection = c.served h socket)
  | polling (read : (endOf (reads c.readBudget socket.arrivals)).toEnding = .returned (.ok ()))
      (handled : ((c.filled socket).handleFrames h).1 = .returned (.ok ()))
      (outcome : w.outcome = ((c.served h socket).poll h).1) (ended : w.outcome ≠ .returned (.ok ()))
      (connection : w.connection = c.polled h socket)
  | writing (read : (endOf (reads c.readBudget socket.arrivals)).toEnding = .returned (.ok ()))
      (handled : ((c.filled socket).handleFrames h).1 = .returned (.ok ()))
      (polled : ((c.served h socket).poll h).1 = .returned (.ok ()))
      (outcome : w.outcome = ((c.polled h socket).flush socket.acceptances).1)
      (connection : w.connection = ((c.polled h socket).flush socket.acceptances).2.1)
      (written : w.written = ((c.polled h socket).flush socket.acceptances).2.2.1)
      (arrivals : w.socket.arrivals = (readInput c.decoder c.readBudget socket.arrivals).rest)

theorem drives (h : Handler σ) (c : Connection σ) (socket : Socket) :
    Drives h c socket (drive h c.begun socket) := by
  have hread : (c.begun.read socket.arrivals).1 = (endOf (reads c.readBudget socket.arrivals)).toEnding := by
    rw [read_eq]
    rfl
  have hrest : (c.begun.read socket.arrivals).2.2 = (readInput c.decoder c.readBudget socket.arrivals).rest := by
    rw [read_eq]
    rfl
  unfold drive
  split
  · rename_i filled arrivals hfilled
    rw [hfilled] at hread hrest
    obtain rfl : c.filled socket = filled := congrArg (·.2.1) hfilled
    split
    · rename_i served hserved
      have hhandled := congrArg Prod.fst hserved
      obtain rfl : c.served h socket = served := congrArg Prod.snd hserved
      split
      · rename_i polled hpolled
        have hwell := congrArg Prod.fst hpolled
        obtain rfl : c.polled h socket = polled := congrArg Prod.snd hpolled
        exact .writing hread.symm hhandled hwell rfl rfl rfl hrest
      · rename_i outcome polled hended hpolled
        exact .polling hread.symm hhandled (congrArg Prod.fst hpolled).symm hended (congrArg Prod.snd hpolled).symm
    · rename_i outcome served hended hserved
      exact .handling hread.symm (congrArg Prod.fst hserved).symm hended (congrArg Prod.snd hserved).symm
  · rename_i outcome filled arrivals hended hfilled
    rw [hfilled] at hread hrest
    exact .reading hread hended (congrArg (·.2.1) hfilled).symm

/-- What none of the stages behind the reading changes. -/
theorem drive_keeps {α : Type} {h : Handler σ} (f : Connection σ → α) (handled : ∀ c, f (c.handleFrames h).2 = f c)
    (polled : ∀ c, f (c.poll h).2 = f c) (flushed : ∀ c acceptances, f (flush c acceptances).2.1 = f c) (c : Connection σ)
    (socket : Socket) : f (drive h c.begun socket).connection = f (c.filled socket) := by
  have hserved : f (c.served h socket) = f (c.filled socket) := handled _
  have hpolled : f (c.polled h socket) = f (c.filled socket) := (polled _).trans hserved
  cases drives h c socket with
  | reading _ _ connection => rw [connection]
  | handling _ _ _ connection => rw [connection, hserved]
  | polling _ _ _ _ connection => rw [connection, hpolled]
  | writing _ _ _ _ connection => rw [connection, flushed, hpolled]

def finish (h : Handler σ) (driven : Worked (Except Error Unit) σ) : Worked Bool σ :=
  match driven.outcome with
  | .raised fault => { driven with outcome := .raised fault }
  | .returned result =>
    if result.isOk && !driven.connection.peerClosed then { driven with outcome := .returned false }
    else
      match driven.connection.close h with
      | (.returned (), connection) => { driven with outcome := .returned true, connection }
      | (.raised fault, connection) => { driven with outcome := .raised fault, connection }

inductive Finishes (h : Handler σ) (driven : Worked (Except Error Unit) σ) (w : Worked Bool σ) : Prop
  | goesOn (ending : driven.outcome = .returned (.ok ())) (going : driven.connection.peerClosed = false)
      (result : w = { driven with outcome := .returned false })
  | faults (fault : Fault) (ending : driven.outcome = .raised fault)
      (result : w = { driven with outcome := .raised fault })
  | closes (result : Except Error Unit) (ending : driven.outcome = .returned result)
      (reason : result = .ok () → driven.connection.peerClosed = true)
      (outcome : w.outcome = match (driven.connection.close h).1 with
        | .returned () => .returned true
        | .raised fault => .raised fault)
      (connection : w.connection = (driven.connection.close h).2)

theorem finishes (h : Handler σ) (driven : Worked (Except Error Unit) σ) : Finishes h driven (finish h driven) := by
  unfold finish
  split
  · rename_i fault hfault
    exact .faults fault hfault rfl
  · rename_i result hresult
    split
    · rename_i hgoing
      cases result with
      | ok _ => exact .goesOn hresult (by simpa [Except.isOk, Except.toBool] using hgoing) rfl
      | error e => simp [Except.isOk, Except.toBool] at hgoing
    · rename_i hends
      have hreason : result = .ok () → driven.connection.peerClosed = true := by
        rintro rfl
        simpa [Except.isOk, Except.toBool] using hends
      split
      · rename_i connection hclose
        exact .closes result hresult hreason (by rw [hclose]) (by rw [hclose])
      · rename_i fault connection hclose
        exact .closes result hresult hreason (by rw [hclose]) (by rw [hclose])

theorem work_eq (h : Handler σ) {c : Connection σ} (hopen : c.closed = false) (socket : Socket) :
    c.work h socket = finish h (drive h c.begun socket) := by
  rw [work, if_neg (by simp [hopen])]
  rfl

structure EndsWell (h : Handler σ) (c : Connection σ) (socket : Socket) : Prop where
  isOpen : c.closed = false
  read : (endOf (reads c.readBudget socket.arrivals)).toEnding = .returned (.ok ())
  handled : ((c.filled socket).handleFrames h).1 = .returned (.ok ())
  polled : ((c.served h socket).poll h).1 = .returned (.ok ())
  flushed : ((c.polled h socket).flush socket.acceptances).1 = .returned (.ok ())
  going : ((c.polled h socket).flush socket.acceptances).2.1.peerClosed = false

section
variable {h : Handler σ} {c : Connection σ} {socket : Socket}

theorem EndsWell.work (hwell : EndsWell h c socket) :
    (c.work h socket).outcome = .returned false ∧
    (c.work h socket).connection = ((c.polled h socket).flush socket.acceptances).2.1 ∧
    (c.work h socket).written = ((c.polled h socket).flush socket.acceptances).2.2.1 ∧
    (c.work h socket).socket.arrivals = (readInput c.decoder c.readBudget socket.arrivals).rest := by
  rw [work_eq h hwell.isOpen]
  cases drives h c socket with
  | reading outcome ended => exact absurd (outcome.trans hwell.read) ended
  | handling _ outcome ended => exact absurd (outcome.trans hwell.handled) ended
  | polling _ _ outcome ended => exact absurd (outcome.trans hwell.polled) ended
  | writing _ _ _ outcome connection written arrivals =>
    have hgoing : (drive h c.begun socket).connection.peerClosed = false := by
      rw [connection]
      exact hwell.going
    cases finishes h (drive h c.begun socket) with
    | goesOn _ _ result =>
      rw [result]
      exact ⟨rfl, connection, written, arrivals⟩
    | faults fault ending => cases ending.symm.trans (outcome.trans hwell.flushed)
    | closes result ending reason =>
      obtain rfl : result = .ok () := Outcome.returned.inj (ending.symm.trans (outcome.trans hwell.flushed))
      cases hgoing.symm.trans (reason rfl)

theorem EndsWell.inputGoesOn (hwell : EndsWell h c socket) : (c.served h socket).peerClosed = false := by
  have hgoing := hwell.going
  rwa [peerClosed_flush, Connection.polled, peerClosed_poll] at hgoing

theorem EndsWell.polled_eq (hwell : EndsWell h c socket) :
    let handled := h.pollPending (c.served h socket).handler (c.served h socket).outbox
    ∃ more, handled.outcome = .returned more ∧ c.polled h socket = { c.served h socket with
      handler := handled.state
      outbox := handled.outbox
      stateChanged := more } := by
  intro handled
  have heq := poll_eq (h := h) hwell.inputGoesOn
  have hpolled := hwell.polled
  rw [Connection.polled, heq]
  rw [heq] at hpolled
  cases houtcome : handled.outcome with
  | raised fault =>
    simp only [handled] at houtcome
    rw [houtcome] at hpolled
    cases hpolled
  | returned more =>
    refine ⟨more, rfl, ?_⟩
    simp only [handled] at houtcome ⊢
    simp [(served_frame h c socket).1]

/-- A unit of work leaves its connection open exactly if every stage ends well and the
    input goes on. -/
theorem work_goesOn_iff : (c.work h socket).outcome = .returned false ↔ EndsWell h c socket := by
  refine ⟨fun hgoes => ?_, fun hwell => hwell.work.1⟩
  have hopen : c.closed = false := by
    cases hclosed : c.closed with
    | false => rfl
    | true => simp [Connection.work, hclosed] at hgoes
  rw [work_eq h hopen] at hgoes
  cases finishes h (drive h c.begun socket) with
  | goesOn ending going =>
    cases drives h c socket with
    | reading _ ended | handling _ _ ended | polling _ _ _ ended => exact absurd ending ended
    | writing read handled polled outcome connection =>
      exact ⟨hopen, read, handled, polled, outcome.symm.trans ending, connection ▸ going⟩
  | faults fault _ result =>
    rw [result] at hgoes
    cases hgoes
  | closes _ _ _ outcome =>
    rw [outcome] at hgoes
    split at hgoes <;> cases hgoes

end

end MessageBroker.Connection
