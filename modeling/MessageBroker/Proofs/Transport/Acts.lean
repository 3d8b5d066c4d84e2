/-
  MessageBroker.Proofs.Transport.Acts — what each act of a service comes down to.

  Working on connections changes nothing else of a service: every operation below is a
  record update that says so, with the connections grown (`Grown`: each along a path of
  callbacks, under the token it had).
  - `stepWorker_cases`: a worker grows the connections, and what leaves the pool with its
    step is closed, or is handed to a selector that accepts it.
  - `dispatch_spec`: a connection that the thread dispatches is queued, or closed.
  - `takeReturn_cases`: one that the thread takes back is parked, or closed.
  - `closeAll_spec`: every connection that the thread gives up is closed.
  - `Effect`: the table of all that an act can do, as record updates (`step_effect`). To the
    pool an act is one event from outside, or none (`Effect.pool`).
  - `settle_run`, `shutdown_run`: letting a service settle, or shutting it down, is a run.
-/

import MessageBroker.Proofs.Connection.Callbacks
import MessageBroker.Proofs.Pool.Ending
import MessageBroker.Transport.Run

namespace MessageBroker.Transport

open Connection
open Pool (Reply Call)

variable {σ : Type}

/-! ## Connections by number -/

def closedAt (l : List (Served σ)) (c : Nat) : Bool := l[c]?.all (·.connection.closed)

def tokenAt (l : List (Served σ)) (c : Nat) : Option Selector.Token := l[c]?.bind (·.connection.token)

def Each (R : Connection σ → Connection σ → Prop) (l l' : List (Served σ)) : Prop :=
  ∀ c : Nat, Option.Rel (fun a b => R a.connection b.connection) l[c]? l'[c]?

/-- Every connection has gone through some steps. -/
abbrev Grown (h : Handler σ) : List (Served σ) → List (Served σ) → Prop := Each (Path h)

abbrev Lived (h : Handler σ) : List (Served σ) → List (Served σ) → Prop := Each (Life h)

section
variable {R S : Connection σ → Connection σ → Prop} {l l' l'' : List (Served σ)}

theorem Each.refl (hrefl : ∀ c, R c c) (l : List (Served σ)) : Each R l l := fun c => by
  cases l[c]? with
  | none => exact .none
  | some a => exact .some (hrefl a.connection)

theorem Each.trans (htrans : ∀ {a b c}, R a b → R b c → R a c) (h₁ : Each R l l') (h₂ : Each R l' l'') :
    Each R l l'' := fun c => by
  have hrel₁ := h₁ c
  have hrel₂ := h₂ c
  revert hrel₁ hrel₂
  cases l[c]? <;> cases l'[c]? <;> cases l''[c]? <;> rintro (hab | _) (hbc | _)
  · exact .none
  · exact .some (htrans hab hbc)

theorem Each.mono (himp : ∀ {a b}, R a b → S a b) (h : Each R l l') : Each S l l' := fun c => by
  have hrel := h c
  revert hrel
  cases l[c]? <;> cases l'[c]? <;> rintro (hab | _)
  · exact .none
  · exact .some (himp hab)

theorem Each.set (hrefl : ∀ c, R c c) {c : Nat} {a b : Served σ} (hc : l[c]? = some a)
    (hab : R a.connection b.connection) : Each R l (l.set c b) := fun d => by
  by_cases hdc : c = d
  · subst hdc
    rw [List.getElem?_set_self (List.getElem?_eq_some_iff.mp hc).1, hc]
    exact .some hab
  · rw [List.getElem?_set_ne hdc]
    exact Each.refl hrefl l d

theorem Each.modify (c : Nat) {f : Served σ → Served σ} (hf : ∀ a : Served σ, R a.connection (f a).connection)
    (hrefl : ∀ c, R c c) : Each R l (l.modify c f) := fun d => by
  rw [List.getElem?_modify]
  cases l[d]? with
  | none => exact .none
  | some a =>
    refine .some ?_
    dsimp only
    split
    · exact hf a
    · exact hrefl a.connection

end

section
variable {h : Handler σ} {l l' : List (Served σ)} {c : Nat}

theorem Grown.lived (hg : Grown h l l') : Lived h l l' := hg.mono Path.life

theorem Grown.tokenAt (hg : Grown h l l') (c : Nat) : tokenAt l' c = tokenAt l c := by
  have hrel := hg c
  unfold Transport.tokenAt
  revert hrel
  cases l[c]? <;> cases l'[c]? <;> rintro (hpath | _)
  · rfl
  · exact hpath.token

theorem Lived.closedAt (hl : Lived h l l') (hc : closedAt l c = true) : closedAt l' c = true := by
  have hrel := hl c
  unfold Transport.closedAt at hc ⊢
  revert hc hrel
  cases l[c]? <;> cases l'[c]? <;> rintro hc (hlife | _)
  · rfl
  · exact hlife.closed hc

end

def ThreadStage.isShut : ThreadStage → Bool
  | .draining _ | .ended _ => true
  | _ => false

def ThreadStage.hasEnded : ThreadStage → Bool
  | .ended _ => true
  | _ => false

def Served.watchedAs (served : Served σ) (token : Selector.Token) : Served σ :=
  { served with connection := { served.connection with token := some token } }

theorem lived_watchedAs {h : Handler σ} {l : List (Served σ)} {c : Nat} {served : Served σ}
    (hc : l[c]? = some served) (token : Selector.Token) : Lived h l (l.set c (served.watchedAs token)) :=
  Each.set (fun _ => .refl) hc (.single (.inr ⟨some token, rfl⟩))

namespace Service

/-! ## Working on connections -/

theorem notify_spec (s : Service σ) (c : Nat) (state : Pool.RunState) :
    ∃ l, s.modify c (·.notify state) = { s with served := l } ∧ Grown s.handler s.served l :=
  ⟨_, rfl, Each.modify c (fun _ => .single (.quiet rfl rfl rfl)) fun _ => .refl⟩

theorem close_spec (s : Service σ) (c : Nat) :
    ∃ l, (s.close c).2 = { s with served := l } ∧ Grown s.handler s.served l ∧ closedAt l c = true := by
  cases hc : s.served[c]? with
  | none => exact ⟨s.served, by simp [close, hc], Each.refl (fun _ => .refl) _, by simp [closedAt, hc]⟩
  | some served =>
    have hpath := close_path s.handler served.connection
    refine ⟨_, by simp only [close, hc]; rfl, Each.set (fun _ => .refl) hc hpath, ?_⟩
    have hlt := (List.getElem?_eq_some_iff.mp hc).1
    simp [closedAt, hlt, closed_close]

theorem unit_spec (s : Service σ) (c : Nat) (acceptances : List Acceptance) :
    ∃ l, (s.unit c acceptances).2 = { s with served := l } ∧ Grown s.handler s.served l ∧
      ((s.unit c acceptances).1 = .returned true → closedAt l c = true) := by
  cases hc : s.served[c]? with
  | none => exact ⟨s.served, by simp [unit, hc], Each.refl (fun _ => .refl) _, fun _ => by simp [closedAt, hc]⟩
  | some served =>
    have hpath := work_path s.handler served.connection { arrivals := served.inbox, acceptances }
    refine ⟨_, by simp only [unit, hc]; rfl, Each.set (fun _ => .refl) hc hpath, ?_⟩
    intro hended
    simp only [unit, hc] at hended
    have hlt := (List.getElem?_eq_some_iff.mp hc).1
    simp [closedAt, hlt, work_closed hended]

/-- Answering a call of the pool works on its connection, and closes it where the pool
    asks for that or the selector does not accept it; or the selector accepts it. -/
theorem answer_cases (s : Service σ) (c : Nat) (call : Call) :
    (∃ l, (s.answer c call).2 = { s with served := l } ∧ Grown s.handler s.served l ∧
        (call = .close ∨ call = .handOver → closedAt l c = true)) ∨
      (call = .handOver ∧ s.selector.accepting = true ∧
        s.answer c call =
          (.returned true, { s with selector := { s.selector with returned := s.selector.returned ++ [c] } })) := by
  have hself : Grown s.handler s.served s.served := Each.refl (fun _ => .refl) _
  have hclose : ∃ l, (s.answer c .close).2 = { s with served := l } ∧ Grown s.handler s.served l ∧
      closedAt l c = true := by
    obtain ⟨l, hl, hgrown, hclosed⟩ := s.close_spec c
    refine ⟨l, ?_, hgrown, hclosed⟩
    simp only [answer]
    split <;> rename_i heq <;> rw [heq] at hl <;> exact hl
  cases call with
  | notify state =>
    obtain ⟨l, hl, hgrown⟩ := s.notify_spec c state
    exact .inl ⟨l, hl, hgrown, by simp⟩
  | work | changed | partialRead => exact .inl ⟨_, rfl, hself, by simp⟩
  | close =>
    obtain ⟨l, hl, hgrown, hclosed⟩ := hclose
    exact .inl ⟨l, hl, hgrown, fun _ => hclosed⟩
  | handOver =>
    cases haccepting : s.selector.accepting with
    | true => exact .inr ⟨rfl, rfl, by simp [answer, Selector.State.offer, haccepting]⟩
    | false =>
      obtain ⟨l, hl, hgrown, hclosed⟩ := hclose
      refine .inl ⟨l, ?_, hgrown, fun _ => hclosed⟩
      rw [← hl]
      simp [answer, Selector.State.offer, haccepting]

/-- A worker goes on from any stage. What leaves the pool with that is closed, or is handed
    to a selector that accepts it. -/
theorem stepWorker_cases (s : Service σ) (w : Nat) (acceptances : List Acceptance) :
    ∃ reply,
      (∃ l, s.stepWorker w acceptances = { s with served := l, pool := s.pool.step w reply } ∧
          Grown s.handler s.served l ∧ ∀ c, s.pool.letsGo w reply = some c → closedAt l c = true) ∨
        (∃ c, s.pool.letsGo w reply = some c ∧ s.selector.accepting = true ∧
          s.stepWorker w acceptances =
            { s with
              selector := { s.selector with returned := s.selector.returned ++ [c] }
              pool := s.pool.step w reply }) := by
  have hself : Grown s.handler s.served s.served := Each.refl (fun _ => .refl) _
  unfold stepWorker
  split
  · rename_i c hw
    obtain ⟨l, hl, hgrown, hclosed⟩ := s.unit_spec c acceptances
    refine ⟨(s.unit c acceptances).1, .inl ⟨l, ?_, hgrown, fun d hgone => ?_⟩⟩
    · simp only [hl]
    · -- a unit of work lets its connection go when it returns that that has ended
      simp only [Pool.State.letsGo, hw, Option.bind_some, Pool.Stage.letsGo] at hgone
      split at hgone
      · cases hgone
        exact hclosed ‹_›
      · cases hgone
  · rename_i hunit
    split
    · rename_i c call hcall
      rcases s.answer_cases c call with ⟨l, hl, hgrown, hclosed⟩ | ⟨hcallEq, haccepting, hanswer⟩
      · refine ⟨(s.answer c call).1, .inl ⟨l, ?_, hgrown, fun d hgone => ?_⟩⟩
        · simp only [hl]
        · obtain ⟨rfl, hclose | hhand | ⟨state, fault, rfl, hraised⟩⟩ := Pool.State.letsGo_of_nextCall hcall hgone
          · exact hclosed (.inl hclose)
          · exact hclosed (.inr hhand)
          · cases hraised
      · refine ⟨.returned true, .inr ⟨c, ?_, haccepting, ?_⟩⟩
        · rw [hcallEq] at hcall
          exact Pool.State.letsGo_of_handOver hcall _
        · rw [hanswer]
    · rename_i hcall
      refine ⟨.returned true, .inl ⟨_, rfl, hself, fun d hgone => ?_⟩⟩
      rw [Pool.State.letsGo_of_nextCall_none hcall hunit] at hgone
      cases hgone

/-! ## The selector's thread -/

theorem closeOnThread_spec (s : Service σ) (c : Nat) :
    ∃ l thread, s.closeOnThread c = { s with served := l, thread } ∧
      (thread = s.thread ∨ thread = .shutting true) ∧ Grown s.handler s.served l ∧ closedAt l c = true := by
  obtain ⟨l, hl, hgrown, hclosed⟩ := s.close_spec c
  unfold closeOnThread
  split <;> rename_i heq <;> rw [heq] at hl <;> subst hl
  · exact ⟨l, _, rfl, .inl rfl, hgrown, hclosed⟩
  · exact ⟨l, _, rfl, .inr rfl, hgrown, hclosed⟩

/-- A connection that is dispatched is offered to the pool, and closed if that is closed. -/
theorem dispatch_spec (s : Service σ) (c : Nat) :
    ∃ l thread,
      s.dispatch c = { s with served := l, pool := (s.pool.schedule c (.returned true)).2, thread } ∧
        (thread = s.thread ∨ thread = .shutting true) ∧ Grown s.handler s.served l ∧
        (s.pool.isOpen = true ∨ closedAt l c = true) := by
  cases hopen : s.pool.isOpen with
  | true =>
    obtain ⟨l, hl, hgrown⟩ := s.notify_spec c .queued
    refine ⟨l, s.thread, ?_, .inl rfl, hgrown, .inl rfl⟩
    simp [dispatch, Pool.State.schedule, hopen, hl]
  | false =>
    obtain ⟨l, thread, hl, hthread, hgrown, hclosed⟩ :=
      closeOnThread_spec { s with pool := (s.pool.schedule c (.returned true)).2 } c
    refine ⟨l, thread, ?_, hthread, hgrown, .inr hclosed⟩
    rw [← hl]
    simp [dispatch, Pool.State.schedule, hopen]

theorem ready_cases (s : Service σ) (token : Selector.Token) :
    s.ready token = s ∨
      ∃ c, (token, c) ∈ s.selector.parked ∧
        s.ready token =
          dispatch { s with selector := { s.selector with parked := s.selector.parked.filter (·.1 != token) } } c := by
  cases hfind : s.selector.parked.find? (·.1 == token) with
  | none => exact .inl (by simp [ready, Selector.State.ready, hfind])
  | some entry =>
    obtain ⟨token', c⟩ := entry
    obtain rfl : token' = token := by simpa using List.find?_some hfind
    exact .inr ⟨c, List.mem_of_find?_eq_some hfind, by simp [ready, Selector.State.ready, hfind]⟩

/-- A connection that the thread takes back is parked; or it cannot be watched, and is
    closed. -/
theorem takeReturn_cases (s : Service σ) (reply : Except IoError Unit) :
    s.takeReturn reply = s ∨
      ∃ c rest, s.selector.returned = c :: rest ∧
        ((∃ served, s.served[c]? = some served ∧
            s.takeReturn reply =
              { s with
                served := s.served.set c (served.watchedAs (s.selector.watchFor served.connection.token).token)
                selector := s.selector.takeReturn served.connection.token true }) ∨
          ∃ l thread held warnings,
            s.takeReturn reply =
              { s with served := l, thread, selector := s.selector.takeReturn held false, warnings } ∧
            (thread = s.thread ∨ thread = .shutting true) ∧ Grown s.handler s.served l ∧ closedAt l c = true) := by
  cases hreturned : s.selector.returned with
  | nil => exact .inl (by simp [takeReturn, hreturned])
  | cons c rest =>
    refine .inr ⟨c, rest, rfl, ?_⟩
    cases hc : s.served[c]? with
    | none =>
      refine .inr ⟨s.served, s.thread, none, s.warnings, ?_, .inl rfl, Each.refl (fun _ => .refl) _,
        by simp [closedAt, hc]⟩
      simp [takeReturn, hreturned, hc]
    | some served =>
      have hsame : s.served.set c served = s.served := by
        obtain ⟨hlt, rfl⟩ := List.getElem?_eq_some_iff.mp hc
        exact List.set_getElem_self hlt
      cases reply with
      | ok =>
        refine .inl ⟨served, rfl, ?_⟩
        cases htoken : served.connection.token with
        | some token =>
          have hwatched : served.watchedAs token = served := by simp [Served.watchedAs, ← htoken]
          simp [takeReturn, hreturned, hc, htoken, Selector.State.watchFor, reregister, setServed, hwatched]
        | none =>
          simp [takeReturn, hreturned, hc, htoken, Selector.State.watchFor, register, setServed, Served.watchedAs]
      | error e =>
        -- the connection is as it was, and is closed
        obtain ⟨l, thread, hl, hthread, hgrown, hclosed⟩ :=
          closeOnThread_spec
            { s with
              selector := s.selector.takeReturn served.connection.token false
              warnings := s.warnings ++ [.cannotWatch c e] } c
        refine .inr ⟨l, thread, served.connection.token, _, Eq.trans ?_ hl, hthread, hgrown, hclosed⟩
        cases htoken : served.connection.token <;>
          simp [takeReturn, hreturned, hc, htoken, Selector.State.watchFor, register, reregister, setServed, hsame]

/-- Every connection that the thread gives up is closed, and watched no more. -/
theorem closeAll_spec (s : Service σ) (given : List Nat) :
    ∃ l, (s.closeAll given).2 = { s with served := l } ∧ Lived s.handler s.served l ∧
      (∀ c, tokenAt l c = tokenAt s.served c ∨ tokenAt l c = none) ∧ ∀ c ∈ given, closedAt l c = true := by
  induction given generalizing s with
  | nil => exact ⟨s.served, rfl, Each.refl (fun _ => .refl) _, fun _ => .inl rfl, nofun⟩
  | cons c rest ih =>
    let unwatched := s.modify c fun connection => (connection.deregister (.ok ())).2
    obtain ⟨l, hl, hgrown, hclosed⟩ := unwatched.close_spec c
    obtain ⟨l', hl', hlived, htokens, hgiven⟩ := ih { unwatched with served := l }
    have hunwatched : Lived s.handler s.served unwatched.served :=
      Each.modify c (fun _ => .single (.inr ⟨none, rfl⟩)) fun _ => .refl
    refine ⟨l', ?_, ?_, ?_, ?_⟩
    · simp only [closeAll]
      rw [show (unwatched.close c).2 = _ from hl, hl']
      rfl
    · exact hunwatched.trans (Relation.ReflTransGen.trans) (hgrown.lived.trans Relation.ReflTransGen.trans hlived)
    · intro d
      rcases htokens d with htoken | htoken
      · rw [htoken, show tokenAt l d = tokenAt unwatched.served d from hgrown.tokenAt d]
        simp only [unwatched, modify, tokenAt, List.getElem?_modify, deregister]
        cases s.served[d]? with
        | none => exact .inl rfl
        | some a => by_cases hcd : c = d <;> simp [hcd]
      · exact .inr htoken
    · intro d hd
      rcases List.mem_cons.mp hd with rfl | hd
      · exact hlived.closedAt hclosed
      · exact hgiven d hd

/-- The thread shuts the selector, drains it, or changes nothing else. -/
theorem turn_cases (s : Service σ) :
    (∃ thread, s.turn = { s with thread } ∧ thread.isShut = s.thread.isShut ∧
        thread.hasEnded = s.thread.hasEnded) ∨
      (∃ faulty, s.turn = { s with selector := s.selector.shut, thread := .draining faulty } ∧
        s.thread = .shutting faulty) ∨
      ∃ l faulty faulty',
        s.turn = { s with served := l, selector := s.selector.drain.2, thread := .ended faulty' } ∧
        s.thread = .draining faulty ∧ Lived s.handler s.served l ∧
        (∀ c, tokenAt l c = tokenAt s.served c ∨ tokenAt l c = none) ∧
        ∀ c ∈ s.selector.drain.1, closedAt l c = true := by
  cases hthread : s.thread with
  | looking =>
    refine .inl ⟨if s.selector.running then .serving else .shutting false, by simp [turn, hthread], ?_⟩
    split <;> exact ⟨rfl, rfl⟩
  | serving => exact .inl ⟨.looking, by simp [turn, hthread], rfl, rfl⟩
  | shutting faulty => exact .inr (.inl ⟨faulty, by simp [turn, hthread], rfl⟩)
  | draining faulty =>
    let drained : Service σ := { s with selector := s.selector.drain.2 }
    obtain ⟨l, hl, hlived, htokens, hclosed⟩ := drained.closeAll_spec s.selector.drain.1
    have hs : s.turn =
        { (drained.closeAll s.selector.drain.1).2 with
          thread := .ended (faulty || (drained.closeAll s.selector.drain.1).1) } := by
      simp only [turn, hthread, drained]
    rw [hl] at hs
    exact .inr (.inr ⟨l, faulty, _, hs, rfl, hlived, htokens, hclosed⟩)
  | ended faulty => exact .inl ⟨.ended faulty, by simp [turn, hthread], rfl, rfl⟩

/-! ## Shutting down -/

/-- A call of `shutdown` tells the selector to stop and closes the pool, and leaves the
    rest to others. -/
theorem stepShutdown_frame (s : Service σ) (i : Nat) :
    ∃ lifecycle running pool,
      s.stepShutdown i = { s with lifecycle, selector := { s.selector with running }, pool } ∧
      (pool = s.pool ∨ pool = s.pool.callClose) := by
  unfold stepShutdown
  split
  · cases s.lifecycle.hasSelector with
    | true => exact ⟨_, _, _, rfl, .inl rfl⟩
    | false => exact ⟨_, _, _, rfl, .inr rfl⟩
  · split
    · exact ⟨_, _, _, rfl, .inr rfl⟩
    · exact ⟨_, _, _, rfl, .inl rfl⟩
  · split
    · exact ⟨_, _, _, rfl, .inl rfl⟩
    · exact ⟨_, _, _, rfl, .inl rfl⟩
  · exact ⟨_, _, _, rfl, .inl rfl⟩

/-! ## The table of acts -/

def accepted (s : Service σ) (handler : σ) : Served σ :=
  { connection := Connection.new handler s.config.maxMessageSize.toNat s.config.readBudget.toNat }

inductive Effect (s : Service σ) : Act σ → Service σ → Prop
  /-- Its thread cannot take it, or it changes nothing. -/
  | idle {act : Act σ} : Effect s act s
  | arrive {c : Nat} {arrival : Arrival} {l : List (Served σ)} (grown : Grown s.handler s.served l) :
      Effect s (.arrive c arrival) { s with served := l }
  | turn {thread : ThreadStage} (shut : thread.isShut = s.thread.isShut)
      (ended : thread.hasEnded = s.thread.hasEnded) : Effect s .turn { s with thread }
  | shut {faulty : Bool} (stage : s.thread = .shutting faulty) :
      Effect s .turn { s with selector := s.selector.shut, thread := .draining faulty }
  | drain {faulty faulty' : Bool} {l : List (Served σ)} (stage : s.thread = .draining faulty)
      (lived : Lived s.handler s.served l)
      (tokens : ∀ c, tokenAt l c = tokenAt s.served c ∨ tokenAt l c = none)
      (closed : ∀ c ∈ s.selector.drain.1, closedAt l c = true) :
      Effect s .turn { s with served := l, selector := s.selector.drain.2, thread := .ended faulty' }
  | accept {handler : σ} {l : List (Served σ)} {thread : ThreadStage} (serving : s.thread = .serving)
      (unshut : thread.isShut = false) (grown : Grown s.handler (s.served ++ [s.accepted handler]) l)
      (placed : s.pool.isOpen = true ∨ closedAt l s.served.length = true) :
      Effect s (.accept handler)
        { s with served := l, pool := (s.pool.schedule s.served.length (.returned true)).2, thread }
  | ready {token : Selector.Token} {c : Nat} {l : List (Served σ)} {thread : ThreadStage}
      (serving : s.thread = .serving) (unshut : thread.isShut = false) (parked : (token, c) ∈ s.selector.parked)
      (grown : Grown s.handler s.served l) (placed : s.pool.isOpen = true ∨ closedAt l c = true) :
      Effect s (.ready token)
        { s with
          served := l
          selector := { s.selector with parked := s.selector.parked.filter (·.1 != token) }
          pool := (s.pool.schedule c (.returned true)).2
          thread }
  | park {reply : Except IoError Unit} {c : Nat} {rest : List Nat} {served : Served σ} (serving : s.thread = .serving)
      (returned : s.selector.returned = c :: rest) (present : s.served[c]? = some served) :
      Effect s (.takeReturn reply)
        { s with
          served := s.served.set c (served.watchedAs (s.selector.watchFor served.connection.token).token)
          selector := s.selector.takeReturn served.connection.token true }
  | giveUp {reply : Except IoError Unit} {c : Nat} {rest : List Nat} {l : List (Served σ)} {thread : ThreadStage}
      {held : Option Selector.Token} {warnings : List (Selector.Report Nat)} (serving : s.thread = .serving)
      (unshut : thread.isShut = false) (returned : s.selector.returned = c :: rest)
      (grown : Grown s.handler s.served l) (closed : closedAt l c = true) :
      Effect s (.takeReturn reply)
        { s with served := l, thread, selector := s.selector.takeReturn held false, warnings }
  | work {w : Nat} {acceptances : List Acceptance} {reply : Reply} {l : List (Served σ)}
      (grown : Grown s.handler s.served l) (closed : ∀ c, s.pool.letsGo w reply = some c → closedAt l c = true) :
      Effect s (.worker w acceptances) { s with served := l, pool := s.pool.step w reply }
  | handBack {w : Nat} {acceptances : List Acceptance} {reply : Reply} {c : Nat}
      (gone : s.pool.letsGo w reply = some c) (accepting : s.selector.accepting = true) :
      Effect s (.worker w acceptances)
        { s with
          selector := { s.selector with returned := s.selector.returned ++ [c] }
          pool := s.pool.step w reply }
  | misread {w : Nat} {busy : Bool} : Effect s (.misread w busy) { s with pool := s.pool.misread w busy }
  | join {i : Nat} : Effect s (.poolCaller i) { s with pool := s.pool.stepCaller i }
  | call : Effect s .callShutdown { s with lifecycle := s.lifecycle.call }
  | shutdown {i : Nat} {lifecycle : Lifecycle} {running : Bool} {pool : Pool.State Nat}
      (closes : pool = s.pool ∨ pool = s.pool.callClose) :
      Effect s (.shutdown i) { s with lifecycle, selector := { s.selector with running }, pool }

/-- A serving thread goes on serving, or a fault stops it; it shuts nothing yet. -/
theorem isShut_of_serving {s : Service σ} (hserving : s.thread = .serving) {thread : ThreadStage}
    (hthread : thread = s.thread ∨ thread = .shutting true) : thread.isShut = false := by
  rcases hthread with rfl | rfl
  · rw [hserving]
    rfl
  · rfl

theorem step_effect (s : Service σ) (act : Act σ) : Effect s act (s.step act) := by
  cases act with
  | arrive c arrival => exact .arrive (Each.modify c (fun _ => .refl) fun _ => .refl)
  | turn =>
    rcases s.turn_cases with ⟨thread, hs, hshut, hended⟩ | ⟨faulty, hs, hthread⟩ |
      ⟨l, faulty, faulty', hs, hthread, hlived, htokens, hclosed⟩ <;> rw [step, hs]
    · exact .turn hshut hended
    · exact .shut hthread
    · exact .drain hthread hlived htokens hclosed
  | accept handler =>
    simp only [step]
    split
    · obtain ⟨l, thread, hs, hthread, hgrown, hplaced⟩ :=
        dispatch_spec { s with served := s.served ++ [s.accepted handler] } s.served.length
      have heq : s.accept handler = _ := hs
      rw [heq]
      exact .accept ‹_› (isShut_of_serving ‹_› hthread) hgrown hplaced
    · exact .idle
  | ready token =>
    simp only [step]
    split
    · rcases s.ready_cases token with hs | ⟨c, hin, hs⟩
      · rw [hs]
        exact .idle
      · obtain ⟨l, thread, hs', hthread, hgrown, hplaced⟩ :=
          dispatch_spec
            { s with selector := { s.selector with parked := s.selector.parked.filter (·.1 != token) } } c
        rw [hs, hs']
        exact .ready ‹_› (isShut_of_serving ‹_› hthread) hin hgrown hplaced
    · exact .idle
  | takeReturn reply =>
    simp only [step]
    split
    · rcases s.takeReturn_cases reply with hs | ⟨c, rest, hreturned, ⟨served, hc, hs⟩ |
        ⟨l, thread, held, warnings, hs, hthread, hgrown, hclosed⟩⟩ <;> rw [hs]
      · exact .idle
      · exact .park ‹_› hreturned hc
      · exact .giveUp ‹_› (isShut_of_serving ‹_› hthread) hreturned hgrown hclosed
    · exact .idle
  | worker w acceptances =>
    simp only [step]
    split
    · obtain ⟨reply, ⟨l, hs, hgrown, hclosed⟩ | ⟨c, hgone, haccepting, hs⟩⟩ :=
        s.stepWorker_cases w acceptances <;> rw [hs]
      · exact .work hgrown hclosed
      · exact .handBack hgone haccepting
    · exact .idle
  | misread w busy => exact .misread
  | poolCaller i =>
    simp only [step]
    split
    · exact .join
    · exact .idle
  | callShutdown => exact .call
  | shutdown i =>
    obtain ⟨lifecycle, running, pool, hs, hpool⟩ := s.stepShutdown_frame i
    rw [step, hs]
    exact .shutdown hpool

section
variable {s t : Service σ} {act : Act σ}

theorem Effect.pool (h : Effect s act t) :
    t.pool = s.pool ∨ ∃ e, e.fromOutside = true ∧ t.pool = s.pool.next e := by
  cases h with
  | idle | arrive | turn | shut | drain | park | giveUp | call => exact .inl rfl
  | accept => exact .inr ⟨.schedule _ (.returned true), rfl, rfl⟩
  | ready => exact .inr ⟨.schedule _ (.returned true), rfl, rfl⟩
  | work => exact .inr ⟨.worker _ _, rfl, rfl⟩
  | handBack => exact .inr ⟨.worker _ _, rfl, rfl⟩
  | misread => exact .inr ⟨.misread _ _, rfl, rfl⟩
  | join => exact .inr ⟨.caller _, rfl, rfl⟩
  | shutdown closes =>
    rcases closes with rfl | rfl
    · exact .inl rfl
    · exact .inr ⟨.callClose, rfl, rfl⟩

theorem Effect.handler (h : Effect s act t) : t.handler = s.handler := by
  cases h <;> rfl

/-- An act lets every connection live on, and may begin one more. -/
theorem Effect.lived (h : Effect s act t) :
    Lived s.handler s.served t.served ∨
      ∃ handler, act = .accept handler ∧ Lived s.handler (s.served ++ [s.accepted handler]) t.served := by
  have hself : Lived s.handler s.served s.served := Each.refl (fun _ => .refl) _
  cases h with
  | idle | turn | shut | handBack | misread | join | call | shutdown => exact .inl hself
  | arrive grown | ready _ _ _ grown | giveUp _ _ _ grown | work grown => exact .inl grown.lived
  | drain _ lived => exact .inl lived
  | park _ _ present => exact .inl (lived_watchedAs present _)
  | accept _ _ grown => exact .inr ⟨_, rfl, grown.lived⟩

end

/-! ## Orderly runs -/

theorem run_append (s : Service σ) (first rest : List (Act σ)) : s.run (first ++ rest) = (s.run first).run rest :=
  List.foldl_append

/-- Whoever goes on, a service that settles goes through a run. -/
theorem settle_run (n : Nat) (s : Service σ) : ∃ acts, settle n s = s.run acts := by
  induction n generalizing s with
  | zero => exact ⟨[], rfl⟩
  | succ n ih =>
    unfold settle
    split
    · exact ⟨[], rfl⟩
    · rename_i act _
      obtain ⟨acts, hacts⟩ := ih (s.step act)
      exact ⟨act :: acts, hacts⟩

theorem shutdown_run (s : Service σ) : ∃ acts, (shutdown s).2 = s.run (.callShutdown :: acts) := by
  obtain ⟨acts, hacts⟩ := settle_run (s.step .callShutdown).shutdownFuel (s.step .callShutdown)
  refine ⟨acts, ?_⟩
  unfold shutdown
  dsimp only
  split <;> exact hacts

theorem connect_run (fuel : Nat) (s : Service σ) (handler : σ) :
    ∃ before after, connect fuel s handler = s.run (before ++ .accept handler :: after) := by
  obtain ⟨before, hbefore⟩ := settle_run fuel s
  obtain ⟨after, hafter⟩ := settle_run fuel ((settle fuel s).step (.accept handler))
  refine ⟨before, after, ?_⟩
  rw [run_append, ← hbefore]
  exact hafter

theorem deliver_run (fuel : Nat) (s : Service σ) (c : Nat) (data : Wire.Bytes) :
    ∃ acts, deliver fuel s c data = s.run (.arrive c (.bytes data) :: acts) :=
  settle_run fuel (s.step (.arrive c (.bytes data)))

end Service

end MessageBroker.Transport
