/-
  MessageBroker.Proofs.Connection.Callbacks — what a connection goes through, callback by
  callback.

  `Step` is the list of what can happen to a connection at once: something that its
  handler does not see, or one callback. Whatever is done to a connection is a path of such
  steps (`work_path`, `close_path`), and its life is such paths and changes of its token.
  - `work_closed`: a unit of work that returns that the connection has ended has closed it.
  - `Handler.watched`: a handler that also writes down its callbacks.
  - `Life.closesOnce`: its last callback tells that the connection closes, once it does.
-/

import Mathlib.Logic.Relation
import MessageBroker.Connection.State

namespace MessageBroker

open Wire Connection

namespace Connection

variable {σ : Type}

/-! ## Steps and paths -/

/-- What a connection can go through at once. It keeps its token, and once closed it calls
    its handler no more. -/
inductive Step (h : Handler σ) (c c' : Connection σ) : Prop
  | quiet (token : c'.token = c.token) (closed : c'.closed = c.closed) (handler : c'.handler = c.handler)
  | frame (token : c'.token = c.token) (before : c.closed = false) (after : c'.closed = false) (payload : Bytes)
      (outbox : Outbox) (handler : c'.handler = (h.onFrame payload c.handler outbox).state)
  | poll (token : c'.token = c.token) (before : c.closed = false) (after : c'.closed = false) (outbox : Outbox)
      (handler : c'.handler = (h.pollPending c.handler outbox).state)
  | close (token : c'.token = c.token) (before : c.closed = false) (after : c'.closed = true)
      (handler : c'.handler = (h.onClose c.handler).2)

abbrev Path (h : Handler σ) : Connection σ → Connection σ → Prop := Relation.ReflTransGen (Step h)

/-- A connection's life: steps, and whatever becomes of its token. -/
abbrev Life (h : Handler σ) : Connection σ → Connection σ → Prop :=
  Relation.ReflTransGen fun c c' => Step h c c' ∨ ∃ token, c' = { c with token }

section
variable {h : Handler σ} {c c' : Connection σ}

theorem Path.token (hpath : Path h c c') : c'.token = c.token := by
  induction hpath with
  | refl => rfl
  | tail _ hstep ih =>
    cases hstep with
    | quiet token | frame token | poll token | close token => exact token.trans ih

theorem Path.life (hpath : Path h c c') : Life h c c' :=
  Relation.ReflTransGen.mono (fun _ _ => Or.inl) _ _ hpath

theorem Life.closed (hlife : Life h c c') (hc : c.closed = true) : c'.closed = true := by
  induction hlife with
  | refl => exact hc
  | tail _ hstep ih =>
    rcases hstep with hstep | ⟨token, rfl⟩
    · cases hstep with
      | quiet _ closed => exact closed.trans ih
      | frame _ before | poll _ before => rw [ih] at before; cases before
      | close _ _ after => exact after
    · exact ih

/-! ## One unit of work -/

theorem read_step (h : Handler σ) (c : Connection σ) (arrivals : List Arrival) :
    Step h c (c.read arrivals).2.1 := by
  unfold read
  dsimp only
  split <;> exact .quiet rfl rfl rfl

theorem closed_read (c : Connection σ) (arrivals : List Arrival) : (c.read arrivals).2.1.closed = c.closed := by
  unfold read
  dsimp only
  split <;> rfl

theorem flush_step (h : Handler σ) (c : Connection σ) (acceptances : List Acceptance) :
    Step h c (c.flush acceptances).2.1 := by
  unfold flush
  dsimp only
  split <;> exact .quiet rfl rfl rfl

theorem closed_flush (c : Connection σ) (acceptances : List Acceptance) :
    (c.flush acceptances).2.1.closed = c.closed := by
  unfold flush
  dsimp only
  split <;> rfl

theorem handleFrames_path (hopen : c.closed = false) :
    Path h c (c.handleFrames h).2 ∧ (c.handleFrames h).2.closed = false := by
  fun_induction handleFrames h c with
  | case1 | case2 => exact ⟨.single (.quiet rfl rfl rfl), hopen⟩
  | case3 c payload decoder _ handled next _ ih =>
    have hstep : Step h c next := .frame rfl hopen hopen payload c.outbox rfl
    exact ⟨.head hstep (ih hopen).1, (ih hopen).2⟩
  | case4 c payload decoder _ handled next =>
    exact ⟨.single (.frame rfl hopen hopen payload c.outbox rfl), hopen⟩

theorem poll_path (hopen : c.closed = false) : Path h c (c.poll h).2 ∧ (c.poll h).2.closed = false := by
  unfold poll
  split
  · exact ⟨.refl, hopen⟩
  · dsimp only
    split <;> exact ⟨.single (.poll rfl hopen hopen c.outbox rfl), hopen⟩

theorem drive_path (hopen : c.closed = false) (socket : Socket) :
    Path h c (drive h c socket).connection ∧ (drive h c socket).connection.closed = false := by
  have hread := read_step h c socket.arrivals
  have hopen₁ := (closed_read c socket.arrivals).trans hopen
  unfold drive
  split
  · rename_i c₁ arrivals heq
    rw [heq] at hread hopen₁
    have hframes := handleFrames_path (h := h) hopen₁
    split
    · rename_i c₂ heq
      rw [heq] at hframes
      have hpoll := poll_path (h := h) hframes.2
      split
      · rename_i c₃ heq
        rw [heq] at hpoll
        have hflush := flush_step h c₃ socket.acceptances
        have hopen₄ := (closed_flush c₃ socket.acceptances).trans hpoll.2
        exact ⟨.head hread (hframes.1.trans (hpoll.1.tail hflush)), hopen₄⟩
      · rename_i heq
        rw [heq] at hpoll
        exact ⟨.head hread (hframes.1.trans hpoll.1), hpoll.2⟩
    · rename_i heq
      rw [heq] at hframes
      exact ⟨.head hread hframes.1, hframes.2⟩
  · rename_i heq
    rw [heq] at hread hopen₁
    exact ⟨.single hread, hopen₁⟩

/-! ## Closing -/

theorem close_path (h : Handler σ) (c : Connection σ) : Path h c (c.close h).2 := by
  unfold close
  split
  · exact .refl
  · exact .single (.close rfl (by simpa using ‹¬c.closed = true›) rfl rfl)

theorem closed_close (h : Handler σ) (c : Connection σ) : (c.close h).2.closed = true := by
  unfold close
  split
  · assumption
  · rfl

/-- What a unit of work comes down to: nothing on a closed connection, else reading,
    handling, polling and writing, and closing the connection if it returns that that has
    ended. -/
theorem work_cases (h : Handler σ) (c : Connection σ) (socket : Socket) :
    (c.closed = true ∧ (c.work h socket).connection = c) ∨
      (c.closed = false ∧ ∃ driven, Path h c driven ∧ driven.closed = false ∧
        (((c.work h socket).connection = driven ∧ (c.work h socket).outcome ≠ .returned true) ∨
          (c.work h socket).connection = (driven.close h).2)) := by
  cases hclosed : c.closed with
  | true => exact .inl ⟨rfl, by simp [work, hclosed]⟩
  | false =>
    refine .inr ⟨rfl, ?_⟩
    let begun : Connection σ :=
      { c with
        stateChanged := false
        partialRead := false
        stats := { c.stats with unitsOfWork := c.stats.unitsOfWork + 1 } }
    have hbegun : Step h c begun := .quiet rfl rfl rfl
    have hdrive := drive_path (h := h) (c := begun) hclosed socket
    refine ⟨(drive h begun socket).connection, .head hbegun hdrive.1, hdrive.2, ?_⟩
    unfold work
    rw [if_neg (by simp [hclosed])]
    generalize drive h begun socket = worked
    obtain ⟨outcome, driven, written, socket⟩ := worked
    cases outcome with
    | raised fault => exact .inl ⟨rfl, nofun⟩
    | returned result =>
      dsimp only
      split
      · exact .inl ⟨rfl, by simp⟩
      · split
        · exact .inr (by simp [*])
        · exact .inr (by simp [*])

theorem work_path (h : Handler σ) (c : Connection σ) (socket : Socket) :
    Path h c (c.work h socket).connection := by
  rcases work_cases h c socket with ⟨_, heq⟩ | ⟨_, driven, hpath, _, ⟨heq, _⟩ | heq⟩
  · rw [heq]
  · rw [heq]
    exact hpath
  · rw [heq]
    exact hpath.trans (close_path h driven)

theorem work_closed {socket : Socket} (hended : (c.work h socket).outcome = .returned true) :
    (c.work h socket).connection.closed = true := by
  rcases work_cases h c socket with ⟨hclosed, heq⟩ | ⟨_, driven, _, _, ⟨_, hgoing⟩ | heq⟩
  · rw [heq]
    exact hclosed
  · exact absurd hended hgoing
  · rw [heq]
    exact closed_close h driven

end

/-! ## The callbacks of a handler, written down -/

inductive Callback where
  | frame (payload : Bytes)
  | poll
  | closes
  deriving DecidableEq, Repr

structure Watched (σ : Type) where
  state : σ
  calls : List Callback := []

/-- The same handler, writing down its callbacks. -/
def Handler.watched {σ : Type} (h : Handler σ) : Handler (Watched σ) where
  onFrame payload s outbox :=
    let handled := h.onFrame payload s.state outbox
    ⟨handled.outcome, ⟨handled.state, s.calls ++ [.frame payload]⟩, handled.outbox⟩
  pollPending s outbox :=
    let handled := h.pollPending s.state outbox
    ⟨handled.outcome, ⟨handled.state, s.calls ++ [.poll]⟩, handled.outbox⟩
  onClose s := ((h.onClose s.state).1, ⟨(h.onClose s.state).2, s.calls ++ [.closes]⟩)

variable {σ : Type} {h : Handler σ} {c c' : Connection (Watched σ)}

/-- The handler of a closed connection was told so once, after all its other callbacks;
    the handler of an open connection was not. -/
def ClosesOnce (c : Connection (Watched σ)) : Prop :=
  if c.closed then ∃ earlier, c.handler.calls = earlier ++ [.closes] ∧ .closes ∉ earlier
  else .closes ∉ c.handler.calls

theorem Life.closesOnce (hlife : Life h.watched c c') (hc : c.ClosesOnce) : c'.ClosesOnce := by
  induction hlife with
  | refl => exact hc
  | tail _ hstep ih =>
    rcases hstep with hstep | ⟨token, rfl⟩
    · cases hstep with
      | quiet _ closed handler => simpa only [ClosesOnce, closed, handler] using ih
      | frame _ before after payload outbox handler =>
        simp only [ClosesOnce, before, after, Bool.false_eq_true, if_false, handler, Handler.watched] at ih ⊢
        simpa using ih
      | poll _ before after outbox handler =>
        simp only [ClosesOnce, before, after, Bool.false_eq_true, if_false, handler, Handler.watched] at ih ⊢
        simpa using ih
      | close _ before after handler =>
        simp only [ClosesOnce, before, Bool.false_eq_true, if_false] at ih
        simp only [ClosesOnce, after, if_true, handler, Handler.watched]
        exact ⟨_, rfl, ih⟩
    · exact ih

end Connection

end MessageBroker
