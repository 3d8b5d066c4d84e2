/-
  MessageBroker.Proofs.Pool.Moves — what can happen to a pool, and what each step changes.

  A step takes one worker from one stage to another and changes what lies outside the
  workers. `Moves` is the table of all that a worker can do, `Change` of all that can
  happen to the pool; theorems about steps and runs go through them, case by case.
  - `step_moves`, `next_change`: every step and every event is in its table.
  - `cons_set_perm`: what replacing one worker's stage does to all stages, from which
    follows what it does to any count of them (`countP_setStage`).
  - `Event`, `next`: a run of a pool. Connections are put on the queue from outside,
    workers go on, units of work close the pool, and so do threads from outside.
  - `calls`: the calls that a moment makes, with their replies.
-/

import Mathlib.Data.List.Perm.Basic
import MessageBroker.Proofs.History
import MessageBroker.Pool.Step

namespace MessageBroker.Pool

variable {ι : Type}

def Stage.held : Stage ι → Option ι
  | .waiting | .leaving _ | .exited => none
  | .arriving c | .starting c | .working c | .stopping c _ | .askingChanged c | .askingPartial c | .deciding c
  | .resubmitting c | .parking c | .handing c | .closing c => some c

namespace State

/-! ## The table -/

/-- What worker `w` can do next, by its stage and the reply to the call it makes: the
    stage it goes to, and the pool outside the workers after that. -/
inductive Moves (s : State ι) (w : Nat) : Reply → Stage ι → Stage ι → State ι → Prop
  | take {reply : Reply} {c : ι} {rest : List ι} (queued : s.queue = c :: rest) :
      Moves s w reply .waiting (.arriving c) { s with queue := rest, metrics := s.metrics.enter }
  | wait {reply : Reply} (drained : s.queue = []) (isOpen : s.isOpen = true) : Moves s w reply .waiting .waiting s
  | exit {reply : Reply} (drained : s.queue = []) (closed : s.isOpen = false) : Moves s w reply .waiting .exited s
  | arrive {c : ι} {b : Bool} : Moves s w (.returned b) (.arriving c) (.starting c) s
  | arriveFault {c : ι} {fault : Fault} :
      Moves s w (.raised fault) (.arriving c) (.closing c) (s.caught (.faultEntering c .running fault))
  | start {reply : Reply} {c : ι} : Moves s w reply (.starting c) (.working c) s
  | finish {c : ι} : Moves s w (.returned true) (.working c) (.leaving none) (s.record .closed)
  | pause {c : ι} : Moves s w (.returned false) (.working c) (.askingChanged c) s
  | unitFault {c : ι} {fault : Fault} :
      Moves s w (.raised fault) (.working c) (.closing c) (s.caught (.faultInUnit c fault))
  | stopFurther {reply : Reply} {c : ι} {point next : Closing} {s' : State ι}
      (further : s.stepClosing (some w) point = (next, s')) (unfinished : next ≠ .finished) :
      Moves s w reply (.stopping c point) (.stopping c next) s'
  | stopped {reply : Reply} {c : ι} {point : Closing} {s' : State ι}
      (further : s.stepClosing (some w) point = (.finished, s')) : Moves s w reply (.stopping c point) (.working c) s'
  | changed {c : ι} : Moves s w (.returned true) (.askingChanged c) (.deciding c) s
  | unchanged {c : ι} : Moves s w (.returned false) (.askingChanged c) (.askingPartial c) s
  | changedFault {c : ι} {fault : Fault} :
      Moves s w (.raised fault) (.askingChanged c) (.closing c) (s.caught (.faultInUnit c fault))
  | partialRead {c : ι} : Moves s w (.returned true) (.askingPartial c) (.deciding c) s
  | idle {c : ι} : Moves s w (.returned false) (.askingPartial c) (.parking c) s
  | partialFault {c : ι} {fault : Fault} :
      Moves s w (.raised fault) (.askingPartial c) (.closing c) (s.caught (.faultInUnit c fault))
  | rerun {reply : Reply} {c : ι} : Moves s w reply (.deciding c) (.starting c) (s.record .inlineRerun)
  | resubmit {reply : Reply} {c : ι} : Moves s w reply (.deciding c) (.resubmitting c) (s.record .resubmit)
  | enqueue {c : ι} {b : Bool} (isOpen : s.isOpen = true) :
      Moves s w (.returned b) (.resubmitting c) (.leaving none) { s.record .scheduled with queue := s.queue ++ [c] }
  | enqueueFault {c : ι} {fault : Fault} (isOpen : s.isOpen = true) :
      Moves s w (.raised fault) (.resubmitting c) (.leaving (some fault)) s
  | refuse {reply : Reply} {c : ι} (closed : s.isOpen = false) :
      Moves s w reply (.resubmitting c) (.closing c) (s.record .rejected)
  | park {c : ι} {b : Bool} : Moves s w (.returned b) (.parking c) (.handing c) (s.record .handedBack)
  | parkFault {c : ι} {fault : Fault} :
      Moves s w (.raised fault) (.parking c) (.closing c) (s.caught (.faultEntering c .awaitingReadiness fault))
  | hand {c : ι} {b : Bool} : Moves s w (.returned b) (.handing c) (.leaving none) s
  | handFault {c : ι} {fault : Fault} : Moves s w (.raised fault) (.handing c) (.leaving (some fault)) s
  | close {c : ι} {b : Bool} : Moves s w (.returned b) (.closing c) (.leaving none) (s.record .closed)
  | closeFault {c : ι} {fault : Fault} :
      Moves s w (.raised fault) (.closing c) (.leaving none) ((s.report (.faultInClose c)).record .closed)
  | leave {reply : Reply} : Moves s w reply (.leaving none) .waiting { s with metrics := s.metrics.leave }
  | leaveFault {reply : Reply} {fault : Fault} :
      Moves s w reply (.leaving (some fault)) .waiting
        ({ s with metrics := s.metrics.leave }.caught (.faultInHandOff fault))
  | gone {reply : Reply} : Moves s w reply .exited .exited s

theorem advance_moves (s : State ι) (w : Nat) (reply : Reply) (stage : Stage ι) :
    Moves s w reply stage (s.advance w reply stage).1 (s.advance w reply stage).2 := by
  cases stage with
  | waiting =>
    cases hqueue : s.queue with
    | cons c rest =>
      simp only [advance, hqueue]
      exact .take hqueue
    | nil =>
      simp only [advance, hqueue]
      cases hopen : s.isOpen with
      | true => exact .wait hqueue hopen
      | false => exact .exit hqueue hopen
  | arriving c =>
    cases reply with
    | returned b => exact .arrive
    | raised fault => exact .arriveFault
  | starting c => exact .start
  | working c =>
    cases reply with
    | returned b =>
      cases b with
      | true => exact .finish
      | false => exact .pause
    | raised fault => exact .unitFault
  | stopping c point =>
    cases hfurther : s.stepClosing (some w) point with
    | mk next s' =>
      simp only [advance, hfurther]
      split
      · rename_i h
        injection h with hnext hs
        subst hnext hs
        exact .stopped hfurther
      · rename_i hunfinished h
        injection h with hnext hs
        subst hnext hs
        exact .stopFurther hfurther hunfinished
  | askingChanged c =>
    cases reply with
    | returned b =>
      cases b with
      | true => exact .changed
      | false => exact .unchanged
    | raised fault => exact .changedFault
  | askingPartial c =>
    cases reply with
    | returned b =>
      cases b with
      | true => exact .partialRead
      | false => exact .idle
    | raised fault => exact .partialFault
  | deciding c =>
    simp only [advance, goOn]
    split
    · exact .rerun
    · exact .resubmit
  | resubmitting c =>
    cases hopen : s.isOpen with
    | false =>
      simp only [advance, schedule, hopen]
      exact .refuse hopen
    | true =>
      simp only [advance, schedule, hopen]
      cases reply with
      | returned b => exact .enqueue hopen
      | raised fault => exact .enqueueFault hopen
  | parking c =>
    cases reply with
    | returned b => exact .park
    | raised fault => exact .parkFault
  | handing c =>
    cases reply with
    | returned b => exact .hand
    | raised fault => exact .handFault
  | closing c =>
    cases reply with
    | returned b => exact .close
    | raised fault => exact .closeFault
  | leaving fault =>
    cases fault with
    | none => exact .leave
    | some fault => exact .leaveFault
  | exited => exact .gone

theorem step_eq {s : State ι} {w : Nat} {stage : Stage ι} (h : s.stages[w]? = some stage) (reply : Reply) :
    s.step w reply = (s.advance w reply stage).2.setStage w (s.advance w reply stage).1 := by
  simp only [step, h]

/-- A step of a worker is a move of the table. -/
theorem step_moves {s : State ι} {w : Nat} {stage : Stage ι} (h : s.stages[w]? = some stage) (reply : Reply) :
    ∃ next s', Moves s w reply stage next s' ∧ s.step w reply = s'.setStage w next :=
  ⟨_, _, advance_moves s w reply stage, step_eq h reply⟩

theorem step_of_none {s : State ι} {w : Nat} (h : s.stages[w]? = none) (reply : Reply) : s.step w reply = s := by
  simp only [step, h]

/-- A worker that goes by an old reading of the gauge makes one of the moves that it could
    make by a new one; any other worker makes none. -/
theorem misread_cases (s : State ι) (w : Nat) (busy : Bool) :
    s.misread w busy = s ∨
      ∃ c, s.stages[w]? = some (.deciding c) ∧
        ∃ next s', (∀ reply, Moves s w reply (.deciding c) next s') ∧ s.misread w busy = s'.setStage w next := by
  unfold misread
  split
  · rename_i c hw
    cases busy with
    | true => exact .inr ⟨c, hw, _, _, fun _ => .rerun, rfl⟩
    | false => exact .inr ⟨c, hw, _, _, fun _ => .resubmit, rfl⟩
  · exact .inl rfl

/-- Only a unit of work can call `close` on a worker. -/
theorem beginStop_cases (s : State ι) (w : Nat) :
    s.beginStop w = s ∨
      ∃ c, s.stages[w]? = some (.working c) ∧ s.beginStop w = s.setStage w (.stopping c .entered) := by
  unfold beginStop
  split
  · exact .inr ⟨_, ‹_›, rfl⟩
  · exact .inl rfl

/-- A closed pool refuses a connection; an open one takes it, unless it faults at the news. -/
theorem schedule_cases (s : State ι) (c : ι) (reply : Reply) :
    (s.isOpen = false ∧ s.schedule c reply = (.rejected, s.record .rejected)) ∨
      (s.isOpen = true ∧ ∃ fault, reply = .raised fault ∧ s.schedule c reply = (.raised fault, s)) ∨
      (s.isOpen = true ∧ ∃ b, reply = .returned b ∧
        s.schedule c reply = (.accepted, { s.record .scheduled with queue := s.queue ++ [c] })) := by
  cases hopen : s.isOpen with
  | false => exact .inl ⟨rfl, by simp [schedule, hopen]⟩
  | true =>
    cases reply with
    | raised fault => exact .inr (.inl ⟨rfl, fault, rfl, by simp [schedule, hopen]⟩)
    | returned b => exact .inr (.inr ⟨rfl, b, rfl, by simp [schedule, hopen]⟩)

/-! ## Closing the pool -/

/-- Closing a pool touches neither queue nor workers nor counters. -/
theorem stepClosing_frame (s : State ι) (self : Option Nat) (point : Closing) :
    (s.stepClosing self point).2.stages = s.stages ∧ (s.stepClosing self point).2.queue = s.queue ∧
      (s.stepClosing self point).2.metrics = s.metrics := by
  rcases point with _ | _ | (_ | ⟨v, rest⟩) | _ | _
  · exact ⟨rfl, rfl, rfl⟩
  · simp only [stepClosing]
    split <;> exact ⟨rfl, rfl, rfl⟩
  · exact ⟨rfl, rfl, rfl⟩
  · simp only [stepClosing]
    split <;> exact ⟨rfl, rfl, rfl⟩
  · exact ⟨rfl, rfl, rfl⟩
  · exact ⟨rfl, rfl, rfl⟩

section
variable {s s' : State ι} {self : Option Nat} {point next : Closing}

theorem stages_of_stepClosing (h : s.stepClosing self point = (next, s')) : s'.stages = s.stages := by
  simpa only [h] using (s.stepClosing_frame self point).1

theorem queue_of_stepClosing (h : s.stepClosing self point = (next, s')) : s'.queue = s.queue := by
  simpa only [h] using (s.stepClosing_frame self point).2.1

theorem metrics_of_stepClosing (h : s.stepClosing self point = (next, s')) : s'.metrics = s.metrics := by
  simpa only [h] using (s.stepClosing_frame self point).2.2

end

theorem stepCaller_frame (s : State ι) (i : Nat) :
    (s.stepCaller i).stages = s.stages ∧ (s.stepCaller i).queue = s.queue ∧
      (s.stepCaller i).metrics = s.metrics := by
  unfold stepCaller
  split
  · exact ⟨rfl, rfl, rfl⟩
  · exact s.stepClosing_frame none _

theorem Moves.stages_eq {s s' : State ι} {w : Nat} {reply : Reply} {stage next : Stage ι}
    (h : Moves s w reply stage next s') : s'.stages = s.stages := by
  cases h with
  | stopFurther further _ => exact stages_of_stepClosing further
  | stopped further => exact stages_of_stepClosing further
  | _ => rfl

/-! ## Counting stages -/

theorem cons_set_perm {α : Type} {l : List α} {i : Nat} {a : α} (h : l[i]? = some a) (b : α) :
    (a :: l.set i b).Perm (b :: l) := by
  obtain ⟨hi, rfl⟩ := List.getElem?_eq_some_iff.mp h
  have hset := (List.set_perm_cons_eraseIdx hi b).cons l[i]
  have hold := (List.getElem_cons_eraseIdx_perm hi).cons b
  exact (hset.trans (.swap ..)).trans hold

theorem countP_setStage {s s' : State ι} {w : Nat} {stage : Stage ι} (h : s.stages[w]? = some stage)
    (hs : s'.stages = s.stages) (p : Stage ι → Bool) (next : Stage ι) :
    (p stage).toNat + (s'.setStage w next).stages.countP p = (p next).toNat + s.stages.countP p := by
  have hperm := (cons_set_perm h next).countP_eq p
  rw [List.countP_cons, List.countP_cons] at hperm
  simp only [setStage, hs]
  cases hold : p stage <;> cases hnew : p next <;> simp [hold, hnew] at hperm ⊢ <;> omega

/-! ## Runs -/

/-- What happens to a pool. -/
inductive Event (ι : Type) where
  /-- Someone from outside puts a connection on the queue; its reply to being told so. -/
  | schedule (c : ι) (reply : Reply)
  /-- A worker goes on by one point. -/
  | worker (w : Nat) (reply : Reply)
  /-- A worker goes by a reading of the gauge that is out of date. -/
  | misread (w : Nat) (busy : Bool)
  /-- A unit of work on a worker closes the pool. -/
  | beginStop (w : Nat)
  /-- A thread from outside closes the pool. -/
  | callClose
  /-- A caller of `close` from outside goes on by one point. -/
  | caller (i : Nat)

def next (s : State ι) : Event ι → State ι
  | .schedule c reply => (s.schedule c reply).2
  | .worker w reply => s.step w reply
  | .misread w busy => s.misread w busy
  | .beginStop w => s.beginStop w
  | .callClose => s.callClose
  | .caller i => s.stepCaller i

def calls (m : Moment (State ι) (Event ι)) : List (ι × Call × Reply) :=
  match m.event with
  | .schedule c reply => if m.before.isOpen then [(c, .notify .queued, reply)] else []
  | .worker w reply => (m.before.nextCall w).toList.map fun (c, call) => (c, call, reply)
  | _ => []

def refused (m : Moment (State ι) (Event ι)) : List ι :=
  match m.event with
  | .schedule c reply => if (m.before.schedule c reply).1 = .rejected then [c] else []
  | _ => []

inductive Change (s : State ι) : Event ι → State ι → Prop
  /-- No worker is where the event could happen. -/
  | idle {e : Event ι} (silent : calls ⟨s, e⟩ = []) (kept : refused ⟨s, e⟩ = []) : Change s e s
  | refuse {c : ι} {reply : Reply} (closed : s.isOpen = false) : Change s (.schedule c reply) (s.record .rejected)
  | fault {c : ι} {fault : Fault} (isOpen : s.isOpen = true) : Change s (.schedule c (.raised fault)) s
  | enqueue {c : ι} {b : Bool} (isOpen : s.isOpen = true) :
      Change s (.schedule c (.returned b)) { s.record .scheduled with queue := s.queue ++ [c] }
  | worker {w : Nat} {reply : Reply} {stage next : Stage ι} {s' : State ι} (place : s.stages[w]? = some stage)
      (move : Moves s w reply stage next s') : Change s (.worker w reply) (s'.setStage w next)
  | misread {w : Nat} {busy : Bool} {c : ι} {next : Stage ι} {s' : State ι}
      (place : s.stages[w]? = some (.deciding c)) (move : Moves s w (.returned true) (.deciding c) next s') :
      Change s (.misread w busy) (s'.setStage w next)
  | beginStop {w : Nat} {c : ι} (place : s.stages[w]? = some (.working c)) :
      Change s (.beginStop w) (s.setStage w (.stopping c .entered))
  | callClose : Change s .callClose s.callClose
  | caller {i : Nat} : Change s (.caller i) (s.stepCaller i)

theorem next_change (s : State ι) (e : Event ι) : Change s e (s.next e) := by
  cases e with
  | schedule c reply =>
    rcases s.schedule_cases c reply with ⟨hclosed, hs⟩ | ⟨hopen, fault, rfl, hs⟩ | ⟨hopen, b, rfl, hs⟩ <;>
      rw [next, hs]
    · exact .refuse hclosed
    · exact .fault hopen
    · exact .enqueue hopen
  | worker w reply =>
    cases hw : s.stages[w]? with
    | none =>
      rw [next, step_of_none hw]
      exact .idle (by simp [calls, nextCall, hw]) rfl
    | some stage =>
      obtain ⟨after, s', hm, hs⟩ := step_moves hw reply
      rw [next, hs]
      exact .worker hw hm
  | misread w busy =>
    rcases s.misread_cases w busy with hs | ⟨c, hw, after, s', hm, hs⟩ <;> rw [next, hs]
    · exact .idle rfl rfl
    · exact .misread hw (hm (.returned true))
  | beginStop w =>
    rcases s.beginStop_cases w with hs | ⟨c, hw, hs⟩ <;> rw [next, hs]
    · exact .idle rfl rfl
    · exact .beginStop hw
  | callClose => exact .callClose
  | caller i => exact .caller

end State

end MessageBroker.Pool
