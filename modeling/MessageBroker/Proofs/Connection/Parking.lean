/-
  MessageBroker.Proofs.Connection.Parking — what a parked connection waits for.

  A worker parks a connection after a unit of work that left both signals down, and nobody
  looks at it again before its socket is ready. So whatever could be done without that has
  to be done, or a signal has to be up.
  - `parks_iff`: a worker parks a connection exactly if its unit left it open and both
    signals are down.
  - `ready_of_poll`: a loopback engine's poll answers whether it could deliver more.
  - `parked_waits_for_others`: what this says of every unit of work.
-/

import MessageBroker.Loopback.Handler
import MessageBroker.Proofs.Connection.Stages
import MessageBroker.Proofs.Pool.Moves

namespace MessageBroker

open Wire Connection
open Framing (parse)

namespace Pool.State

variable {ι : Type} {s : State ι} {w : Nat}

theorem stage_step {stage : Stage ι} (h : s.stages[w]? = some stage) (reply : Reply) :
    (s.step w reply).stages[w]? = some (s.advance w reply stage).1 := by
  have hlt : w < s.stages.length := (List.getElem?_eq_some_iff.mp h).1
  rw [step_eq h, setStage, (advance_moves s w reply stage).stages_eq]
  exact List.getElem?_set_self hlt

/-- A worker that was told how a unit of work ended, and then its signals, parks the
    connection exactly if it is open and nothing is left to do. -/
theorem parks_iff {c : ι} (h : s.stages[w]? = some (.working c)) (outcome : Reply) (changed cutShort : Bool) :
    (((s.step w outcome).step w (.returned changed)).step w (.returned cutShort)).stages[w]? = some (.parking c) ↔
      outcome = .returned false ∧ changed = false ∧ cutShort = false := by
  have h₁ := stage_step h outcome
  have h₂ := stage_step h₁ (.returned changed)
  rw [stage_step h₂ (.returned cutShort)]
  cases outcome with
  | raised fault => simp [advance]
  | returned ended =>
    cases ended with
    | true =>
      -- the worker is rid of the connection and looks at the queue
      simp only [advance]
      split <;> simp
      split <;> simp
    | false =>
      cases changed with
      | true =>
        simp only [advance, goOn]
        split <;> simp
      | false => cases cutShort <;> simp [advance]

end Pool.State

namespace Connection

variable {σ : Type}

/-- How a unit of work leaves a connection open. -/
structure Leaves (h : Handler σ) (c : Connection σ) (socket : Socket) (after : Connection σ) : Prop where
  /-- Reading stopped early, or the socket had no more. -/
  read : after.partialRead = false → ∃ n, (c.readsIn socket).getLast? = some ⟨n, .blocked⟩
  /-- No whole frame is left, and no length above the limit. -/
  decoded : parse after.decoder.limit after.decoder.unread = { rest := after.decoder.unread, ending := .unfinished }
  /-- The first signal is what the handler's poll answered, of which it has the state. -/
  polled : (h.pollPending (c.served h socket).handler (c.served h socket).outbox).outcome = .returned after.stateChanged
  handler : after.handler = (h.pollPending (c.served h socket).handler (c.served h socket).outbox).state
  written : after.outbox.unwritten = [] ∨ ∃ last, (c.writesIn h socket).getLast? = some last ∧ last.answer = .blocked

theorem EndsWell.leaves {h : Handler σ} {c : Connection σ} {socket : Socket} (hwell : EndsWell h c socket) :
    Leaves h c socket (c.work h socket).connection := by
  obtain ⟨more, hanswer, hpolled⟩ := hwell.polled_eq
  obtain ⟨-, hcut, hended⟩ := served_frame h c socket
  have hdecoded := unfinished_of_handleFrames hwell.handled
  have hwrites := writeOutput_spec (c.polled h socket).outbox socket.acceptances
  have hflushed := hwell.flushed
  rw [flush_eq] at hflushed
  rw [hwell.work.2.1, flush_eq]
  refine ⟨?_, ?_, ?_, ?_, ?_⟩
  · intro hpartial
    simp only [hpolled, hcut, decide_eq_false_iff_not] at hpartial
    rw [hwell.inputGoesOn] at hended
    have hread := hwell.read
    rw [readsIn, if_neg (by simp [hwell.isOpen])]
    apply last_of_blocked
    cases hlast : endOf (reads c.readBudget socket.arrivals) with
    | blocked => rfl
    | budgetSpent => exact absurd hlast hpartial
    | inputEnded => simp [hlast] at hended
    | failed e => simp [hlast, ReadEnd.toEnding] at hread
  · simp only [hpolled]
    exact hdecoded
  · simp only [hpolled]
    exact hanswer
  · simp only [hpolled]
  · have hok : (writeOutput (c.polled h socket).outbox socket.acceptances).result = .ok () := by
      cases hresult : (writeOutput (c.polled h socket).outbox socket.acceptances).result with
      | ok _ => rfl
      | error e => simp [hresult] at hflushed
    exact (hwrites.stopped hok).imp (Outbox.isEmpty_iff _).mp id

end Connection

namespace Loopback

/-- A poll answers whether the engine, as the poll leaves it, could deliver more. -/
theorem ready_of_poll (c : Client) (outbox : Outbox) :
    (handler.pollPending c outbox).outcome = .returned (handler.pollPending c outbox).state.engine.ready := rfl

theorem Engine.waits_of_not_ready {e : Engine} (h : e.ready = false) : e.pending = [] ∨ e.session.hasCredit = false := by
  simpa [Engine.ready, List.isEmpty_iff, imp_iff_not_or] using h

end Loopback

namespace Connection

open Loopback

/-- Of every unit of work that leaves its connection open, whatever the connection was like
    and whatever its socket and its handler do. If the signal for a cut reading is down,
    the last read found nothing more; nothing that has arrived is left to handle; the other
    signal is what the handler's poll answered; the outbox is empty or the last write was
    not taken, and the connection wants to be told when it can write exactly in the second
    case. A worker parks the connection exactly if both signals are down. A loopback
    engine whose signal is down has nothing to deliver or no credit. -/
theorem parked_waits_for_others :
    (∀ {σ : Type} (h : Handler σ) (c : Connection σ) (socket : Socket),
      (c.work h socket).outcome = .returned false →
      let after := (c.work h socket).connection
      let handled := c.served h socket
      (after.partialRead = false → ∃ n, (c.readsIn socket).getLast? = some ⟨n, .blocked⟩) ∧
      parse after.decoder.limit after.decoder.unread = { rest := after.decoder.unread, ending := .unfinished } ∧
      (h.pollPending handled.handler handled.outbox).outcome = .returned after.stateChanged ∧
      (after.outbox.unwritten = [] ∨ ∃ last, (c.writesIn h socket).getLast? = some last ∧ last.answer = .blocked) ∧
      (after.wantsToWrite = true ↔ after.outbox.unwritten ≠ [])) ∧
    (∀ {σ ι : Type} (h : Handler σ) (c : Connection σ) (socket : Socket) (pool : Pool.State ι) (w : Nat) (i : ι),
      pool.stages[w]? = some (.working i) →
      let unit := c.work h socket
      let told := ((pool.step w unit.outcome).step w (.returned unit.connection.stateChanged)).step w
        (.returned unit.connection.partialRead)
      told.stages[w]? = some (.parking i) ↔
        unit.outcome = .returned false ∧ unit.connection.stateChanged = false ∧ unit.connection.partialRead = false) ∧
    ∀ (c : Connection Client) (socket : Socket), (c.work Loopback.handler socket).outcome = .returned false →
      let after := (c.work Loopback.handler socket).connection
      after.stateChanged = false → after.handler.engine.pending = [] ∨ after.handler.engine.session.hasCredit = false := by
  refine ⟨?_, ?_, ?_⟩
  · intro σ h c socket hgoes after handled
    have hleaves := (work_goesOn_iff.mp hgoes).leaves
    refine ⟨hleaves.read, hleaves.decoded, hleaves.polled, hleaves.written, ?_⟩
    rw [wantsToWrite, Bool.not_eq_true', ← Bool.not_eq_true, Outbox.isEmpty_iff]
  · intro σ ι h c socket pool w i hworks
    exact Pool.State.parks_iff hworks _ _ _
  · intro c socket hgoes after hdown
    have hleaves := (work_goesOn_iff.mp hgoes).leaves
    have hready := hleaves.polled
    rw [ready_of_poll, ← hleaves.handler] at hready
    exact Engine.waits_of_not_ready ((Outcome.returned.inj hready).trans hdown)

/-- Two messages arrive in pieces while one may be in flight, and the socket takes only the
    start of what is sent. The connection is parked with one message waiting for credit and
    some output for the socket. -/
theorem waiting_for_both_is_parked :
    let c := Connection.new (⟨.new (some 1) 1, {}⟩ : Client) 16 64
    let socket : Socket :=
      { arrivals := [.bytes [0, 0, 0, 2, 1], .interrupted, .bytes [65, 0, 0, 0, 2, 1, 66]]
        acceptances := [.bytes 5, .interrupted, .bytes 4, .blocked] }
    let pool : Pool.State Nat := { stages := [.waiting, .working 7], metrics := .ofPoolSize 2 }
    let unit := c.work Loopback.handler socket
    let after := unit.connection
    let told := ((pool.step 1 unit.outcome).step 1 (.returned after.stateChanged)).step 1 (.returned after.partialRead)
    told.stages[1]? = some (.parking 7) ∧
    after.handler.engine.pending = [[66]] ∧ after.handler.engine.session.hasCredit = false ∧
    (∃ n, (c.readsIn socket).getLast? = some ⟨n, .blocked⟩) ∧
    parse 16 after.decoder.unread = { rest := [], ending := .unfinished } ∧
    after.outbox.unwritten = [0, 0, 0, 1, 65] ∧ after.wantsToWrite = true ∧
    ∃ last, (c.writesIn Loopback.handler socket).getLast? = some last ∧ last.answer = .blocked := by
  intro c socket pool unit after told
  have hgoes : (c.work Loopback.handler socket).outcome = .returned false := by cbv
  have hchanged : (c.work Loopback.handler socket).connection.stateChanged = false := by cbv
  have hcut : (c.work Loopback.handler socket).connection.partialRead = false := by cbv
  have hpending : (c.work Loopback.handler socket).connection.handler.engine.pending = [[66]] := by cbv
  have hlimit : (c.work Loopback.handler socket).connection.decoder.limit = 16 := by cbv
  have hunread : (c.work Loopback.handler socket).connection.decoder.unread = [] := by cbv
  have hunwritten : (c.work Loopback.handler socket).connection.outbox.unwritten = [0, 0, 0, 1, 65] := by cbv
  obtain ⟨hunit, hworker, hengine⟩ := parked_waits_for_others
  obtain ⟨hread, hdecoded, -, hwritten, hwants⟩ := hunit Loopback.handler c socket hgoes
  rw [hlimit, hunread] at hdecoded
  refine ⟨?_, hpending, ?_, hread hcut, ?_, hunwritten, ?_, ?_⟩
  · exact (hworker Loopback.handler c socket pool 1 7 rfl).mpr ⟨hgoes, hchanged, hcut⟩
  · refine (hengine c socket hgoes hchanged).resolve_left ?_
    rw [hpending]
    exact List.cons_ne_nil _ _
  · rw [hunread]
    exact hdecoded
  · exact hwants.mpr (by rw [hunwritten]; exact List.cons_ne_nil _ _)
  · refine hwritten.resolve_left ?_
    rw [hunwritten]
    exact List.cons_ne_nil _ _

end Connection

end MessageBroker
