/-
  MessageBroker.Proofs.Pool.Closers — who is inside `close`, and how far each step takes them.

  Any number of threads from outside call `close`, and so do workers from within their units of
  work. Both go through the same points, so they are the same to what follows: parties, each at
  a point of `close` or at none (`pointOf`).
  - `Further`: what a party inside `close` can do next, and what it does to the pool.
  - `Shift`, `next_shift`: what any event does to the points of all parties.
-/

import Mathlib.Logic.Function.Basic
import MessageBroker.Proofs.Pool.Visits

namespace MessageBroker.Pool

variable {ι : Type}

def Stage.point? : Stage ι → Option Closing
  | .stopping _ point => some point
  | _ => none

/-- A thread that may call `close`: a worker, or the `i`-th caller from outside. -/
inductive Party where
  | worker (w : Nat)
  | outside (i : Nat)
  deriving DecidableEq, Repr

def Party.self? : Party → Option Nat
  | .worker w => some w
  | .outside _ => none

/-- What is left to see of a call that has come to a point: a worker goes back to its unit of
    work when the call has finished. -/
def Party.keeps : Party → Closing → Option Closing
  | .worker _, .finished => none
  | _, point => some point

namespace State

def pointOf (s : State ι) : Party → Option Closing
  | .worker w => s.stages[w]?.bind Stage.point?
  | .outside i => s.callers[i]?

def Event.party? : Event ι → Option Party
  | .worker w _ => some (.worker w)
  | .caller i => some (.outside i)
  | _ => none

def callsClose (m : Moment (State ι) (Event ι)) : Bool :=
  match m.event with
  | .callClose => true
  | .beginStop w =>
    match m.before.stages[w]? with
    | some (.working _) => true
    | _ => false
  | _ => false

def Gone (s : State ι) (v : Nat) : Prop := ∀ stage, s.stages[v]? = some stage → stage = .exited

/-! ## One step of `close` -/

inductive Further (s : State ι) (self : Option Nat) : Closing → Closing → State ι → Prop
  | shut : Further s self .entered .shut { s with isOpen := false }
  | late {w : Nat} (worker : self = some w) (taken : s.joining = true) : Further s self .shut .finished s
  | await (outside : self = none) (taken : s.joining = true) : Further s self .shut .awaiting s
  | take (free : s.joining = false) :
      Further s self .shut (.joining ((List.range s.size).filter fun v => self != some v)) { s with joining := true }
  | seen {v : Nat} {rest : List Nat} (gone : s.Gone v) : Further s self (.joining (v :: rest)) (.joining rest) s
  | join : Further s self (.joining []) .finished { s with joined := true }
  | release (joined : s.joined = true) : Further s self .awaiting .finished s
  | wait {point : Closing} (blocked : s.canStepClosing point = false) : Further s self point point s

theorem stepClosing_further (s : State ι) (self : Option Nat) (point : Closing) :
    Further s self point (s.stepClosing self point).1 (s.stepClosing self point).2 := by
  cases point with
  | entered => exact .shut
  | shut =>
    cases htaken : s.joining with
    | false =>
      simp only [stepClosing, htaken]
      exact .take htaken
    | true =>
      simp only [stepClosing, htaken]
      cases self with
      | none => exact .await rfl htaken
      | some w => exact .late rfl htaken
  | joining left =>
    cases left with
    | nil => exact .join
    | cons v rest =>
      cases hv : s.stages[v]? with
      | none =>
        simp only [stepClosing, hv]
        exact .seen fun stage h => by rw [hv] at h; cases h
      | some stage =>
        cases stage with
        | exited =>
          simp only [stepClosing, hv]
          exact .seen fun stage h => (Option.some.inj (hv.symm.trans h)).symm
        | _ =>
          simp only [stepClosing, hv]
          exact .wait (by simp only [canStepClosing, hv])
  | awaiting =>
    cases hjoined : s.joined with
    | true =>
      simp only [stepClosing, hjoined]
      exact .release hjoined
    | false =>
      simp only [stepClosing, hjoined]
      exact .wait hjoined
  | finished => exact .wait rfl

section
variable {s t : State ι} {self : Option Nat} {point next : Closing}

theorem Further.callers_eq (h : Further s self point next t) : t.callers = s.callers := by
  cases h <;> rfl

theorem Further.leads (h : Further s self point next t) (hcan : s.canStepClosing point = true) : next ≠ point := by
  cases h with
  | wait blocked => rw [blocked] at hcan; cases hcan
  | seen => exact fun h => absurd (congrArg List.length (Closing.joining.inj h)) (by simp)
  | _ => exact nofun

end

/-! ## One event -/

/-- What an event does to the parties that are inside `close`. -/
inductive Shift (s : State ι) (e : Event ι) (s' : State ι) : Prop
  /-- Nobody calls `close`, and nobody inside it moves. -/
  | aside (uncalled : callsClose ⟨s, e⟩ = false) (apart : ∀ p, e.party? = some p → s.pointOf p = none)
      (points : s'.pointOf = s.pointOf)
      (frame : s'.isOpen = s.isOpen ∧ s'.joining = s.joining ∧ s'.joined = s.joined)
  | enters {p : Party} (called : callsClose ⟨s, e⟩ = true) (still : e.party? = none) (new : s.pointOf p = none)
      (points : s'.pointOf = Function.update s.pointOf p (some .entered))
      (frame : s'.isOpen = s.isOpen ∧ s'.joining = s.joining ∧ s'.joined = s.joined)
  | moves {p : Party} {point next : Closing} {t : State ι} (uncalled : callsClose ⟨s, e⟩ = false)
      (who : e.party? = some p) (place : s.pointOf p = some point) (further : Further s p.self? point next t)
      (points : s'.pointOf = Function.update s.pointOf p (p.keeps next))
      (frame : s'.isOpen = t.isOpen ∧ s'.joining = t.joining ∧ s'.joined = t.joined)

section
variable {s s' : State ι} {w : Nat} {reply : Reply} {stage next : Stage ι}

theorem pointOf_worker (hw : s.stages[w]? = some stage) : s.pointOf (.worker w) = stage.point? := by
  simp only [pointOf, hw, Option.bind_some]

theorem pointOf_setStage (hw : s.stages[w]? = some stage) (hstages : s'.stages = s.stages)
    (hcallers : s'.callers = s.callers) (next : Stage ι) :
    (s'.setStage w next).pointOf = Function.update s.pointOf (.worker w) next.point? := by
  funext p
  cases p with
  | outside i =>
    rw [Function.update_of_ne (by simp)]
    show s'.callers[i]? = s.callers[i]?
    rw [hcallers]
  | worker v =>
    by_cases hvw : w = v
    · subst hvw
      rw [Function.update_self, pointOf_worker (setStage_self hw hstages next)]
    · rw [Function.update_of_ne (fun h => hvw (Party.worker.inj h).symm)]
      simp only [pointOf, setStage_ne hvw hstages next]

theorem pointOf_callClose (s : State ι) :
    s.callClose.pointOf = Function.update s.pointOf (.outside s.callers.length) (some .entered) := by
  funext p
  cases p with
  | worker w => rw [Function.update_of_ne (by simp)]; rfl
  | outside i =>
    show (s.callers ++ [Closing.entered])[i]? = _
    rcases Nat.lt_trichotomy i s.callers.length with hlt | rfl | hgt
    · rw [Function.update_of_ne (by simpa using Nat.ne_of_lt hlt), List.getElem?_append_left hlt]
      rfl
    · rw [Function.update_self, List.getElem?_concat_length]
    · rw [Function.update_of_ne (by simpa using Nat.ne_of_gt hgt), List.getElem?_eq_none (by simp; omega)]
      exact (List.getElem?_eq_none (Nat.le_of_lt hgt)).symm

theorem pointOf_setCaller {i : Nat} {point : Closing} (hi : s.callers[i]? = some point)
    (hstages : s'.stages = s.stages) (hcallers : s'.callers = s.callers) (next : Closing) :
    ({ s' with callers := s'.callers.set i next } : State ι).pointOf =
      Function.update s.pointOf (.outside i) (some next) := by
  funext p
  cases p with
  | worker w =>
    rw [Function.update_of_ne (by simp)]
    show s'.stages[w]?.bind Stage.point? = _
    rw [hstages]
    rfl
  | outside j =>
    show (s'.callers.set i next)[j]? = _
    rw [hcallers]
    by_cases hij : i = j
    · subst hij
      rw [Function.update_self, List.getElem?_set_self (List.getElem?_eq_some_iff.mp hi).1]
    · rw [Function.update_of_ne (fun h => hij (Party.outside.inj h).symm), List.getElem?_set_ne hij]
      rfl

/-- A worker's move has no part in closing the pool, or is a step of its call of `close`. -/
theorem Moves.closing (h : Moves s w reply stage next s') :
    (stage.point? = none ∧ next.point? = none ∧ s'.callers = s.callers ∧
      s'.isOpen = s.isOpen ∧ s'.joining = s.joining ∧ s'.joined = s.joined) ∨
    ∃ point after, stage.point? = some point ∧ Further s (some w) point after s' ∧
      next.point? = (Party.worker w).keeps after := by
  cases h with
  | @stopFurther _ _ point after _ further unfinished =>
    have hfurther := s.stepClosing_further (some w) point
    rw [further] at hfurther
    refine .inr ⟨point, after, rfl, hfurther, ?_⟩
    cases after with
    | finished => exact absurd rfl unfinished
    | _ => rfl
  | @stopped _ _ point _ further =>
    have hfurther := s.stepClosing_further (some w) point
    rw [further] at hfurther
    exact .inr ⟨point, .finished, rfl, hfurther, rfl⟩
  | _ => exact .inl ⟨rfl, rfl, rfl, rfl, rfl, rfl⟩

/-- The shift that a worker's move makes, whatever the event that brings it about. -/
theorem Moves.shift {e : Event ι} (hm : Moves s w reply stage next s') (hw : s.stages[w]? = some stage)
    (huncalled : callsClose ⟨s, e⟩ = false) (hparty : ∀ p, e.party? = some p → p = .worker w)
    (hown : stage.point? ≠ none → e.party? = some (.worker w)) : Shift s e (s'.setStage w next) := by
  have hpoint := pointOf_worker hw
  rcases hm.closing with ⟨hnone, hnone', hcallers, hframe⟩ | ⟨point, after, hsome, hfurther, hafter⟩
  · refine .aside huncalled ?_ ?_ hframe
    · intro p hp
      rw [hparty p hp, hpoint, hnone]
    · rw [pointOf_setStage hw hm.stages_eq hcallers, hnone', ← hnone, ← hpoint, Function.update_eq_self]
  · have hwho := hown (by rw [hsome]; exact Option.some_ne_none point)
    refine .moves huncalled hwho (hpoint.trans hsome) hfurther ?_ ⟨rfl, rfl, rfl⟩
    rw [pointOf_setStage hw hm.stages_eq hfurther.callers_eq, hafter]

theorem pointOf_ofSize (size : Nat) (p : Party) : (ofSize size : State ι).pointOf p = none := by
  cases p with
  | outside i => rfl
  | worker w =>
    simp only [pointOf, ofSize, List.getElem?_replicate]
    split <;> rfl

end

theorem next_shift (s : State ι) (e : Event ι) : Shift s e (s.next e) := by
  cases e with
  | schedule c reply =>
    rcases s.schedule_cases c reply with ⟨-, hs⟩ | ⟨-, fault, rfl, hs⟩ | ⟨-, b, rfl, hs⟩ <;> rw [next, hs] <;>
      exact .aside rfl (fun _ hp => by cases hp) rfl ⟨rfl, rfl, rfl⟩
  | worker w reply =>
    cases hw : s.stages[w]? with
    | none =>
      rw [next, step_of_none hw]
      refine .aside rfl ?_ rfl ⟨rfl, rfl, rfl⟩
      intro p hp
      obtain rfl := Option.some.inj hp
      simp only [pointOf, hw, Option.bind_none]
    | some stage =>
      obtain ⟨after, s', hm, hs⟩ := step_moves hw reply
      rw [next, hs]
      exact hm.shift hw rfl (fun p hp => (Option.some.inj hp).symm) fun _ => rfl
  | misread w busy =>
    rcases s.misread_cases w busy with hs | ⟨c, hw, after, s', hm, hs⟩ <;> rw [next, hs]
    · exact .aside rfl (fun _ hp => by cases hp) rfl ⟨rfl, rfl, rfl⟩
    · exact (hm (.returned true)).shift hw rfl (fun _ hp => by cases hp) fun hsome => absurd rfl hsome
  | beginStop w =>
    by_cases hwork : ∃ c, s.stages[w]? = some (.working c)
    · obtain ⟨c, hw⟩ := hwork
      have hs : s.next (.beginStop w) = s.setStage w (.stopping c .entered) := by simp only [next, beginStop, hw]
      rw [hs]
      refine .enters (p := .worker w) (by simp [callsClose, hw]) rfl ?_ (pointOf_setStage hw rfl rfl _) ⟨rfl, rfl, rfl⟩
      rw [pointOf_worker hw]
      rfl
    · have hs : s.next (.beginStop w) = s := by
        rcases s.beginStop_cases w with hs | ⟨c, hw, -⟩
        · exact hs
        · exact absurd ⟨c, hw⟩ hwork
      rw [hs]
      refine .aside ?_ (fun _ hp => by cases hp) rfl ⟨rfl, rfl, rfl⟩
      simp only [callsClose]
      split
      · rename_i c hw
        exact absurd ⟨c, hw⟩ hwork
      · rfl
  | callClose =>
    have hnew : s.pointOf (.outside s.callers.length) = none := List.getElem?_eq_none (Nat.le_refl _)
    exact .enters rfl rfl hnew s.pointOf_callClose ⟨rfl, rfl, rfl⟩
  | caller i =>
    cases hi : s.callers[i]? with
    | none =>
      have hs : s.next (.caller i) = s := by simp only [next, stepCaller, hi]
      rw [hs]
      exact .aside rfl (fun p hp => Option.some.inj hp ▸ hi) rfl ⟨rfl, rfl, rfl⟩
    | some point =>
      have hfurther := s.stepClosing_further none point
      have hs : s.next (.caller i) =
          { (s.stepClosing none point).2 with
            callers := (s.stepClosing none point).2.callers.set i (s.stepClosing none point).1 } := by
        simp only [next, stepCaller, hi]
      rw [hs]
      refine .moves rfl rfl hi hfurther ?_ ⟨rfl, rfl, rfl⟩
      exact pointOf_setCaller hi (s.stepClosing_frame none point).1 hfurther.callers_eq _

end State

end MessageBroker.Pool
