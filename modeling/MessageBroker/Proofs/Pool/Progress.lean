/-
  MessageBroker.Proofs.Pool.Progress — what comes to pass in a pool that goes on for ever.

  Workers go on (`Fair`), and no unit of work lasts for ever (`UnitsEnd`). A worker may still
  stay with one connection: while every worker is busy it does what work is left at once, unit
  after unit (`RerunsForEver`). A worker that does not do so comes back to the queue again and
  again until it has exited, and takes the first connection on it, so whatever is queued moves
  up until it is first.
  - `queue_next`: a step puts connections at the end of the queue, or takes the first one.
  - `stage_change`: what can move a worker from its stage.
  - `Approaches.nearer`: a worker at work comes nearer to deciding what becomes of the work that
    is left (`Stage.toDecision`), which it cannot do for ever (`not_approaches`).
  - `rests_or_reruns`: so it gives up its connection some time, or reruns it.
  - `comes_back`: how far a worker is from the queue (`Stage.toGo`), and that it comes there.
  - `takes_some_time`, `queued_taken`: from one take to that of any queued connection. One worker
    that comes back is enough.
  - `starved`: where all workers rerun for ever, nothing is taken.
-/

import Mathlib.Data.Nat.Init
import MessageBroker.Proofs.Pool.Balance
import MessageBroker.Proofs.Pool.Ending
import MessageBroker.Proofs.Pool.Visits

namespace MessageBroker.Pool

open History Protocol

variable {ι : Type}

namespace Stage

def atWork : Stage ι → Bool
  | .starting _ | .working _ | .stopping _ _ | .askingChanged _ | .askingPartial _ | .deciding _ => true
  | _ => false

def inUnit : Stage ι → Bool
  | .working _ | .stopping _ _ => true
  | _ => false

/-- How far a worker at work is from deciding what becomes of the work that is left. -/
def toDecision : Stage ι → Nat
  | .starting _ => 4
  | .working _ | .stopping _ _ => 3
  | .askingChanged _ => 2
  | .askingPartial _ => 1
  | _ => 0

theorem toDecision_of_inUnit {stage : Stage ι} : stage.inUnit = true ↔ stage.toDecision = 3 := by
  cases stage <;> simp [inUnit, toDecision]

/-- How far a worker is from the queue, at most, where all its work on a connection is one
    step. -/
def toGo : Stage ι → Nat
  | .waiting | .exited => 0
  | .leaving _ => 1
  | .handing _ | .closing _ => 2
  | .resubmitting _ | .parking _ => 3
  | .starting _ | .working _ | .stopping _ _ | .askingChanged _ | .askingPartial _ | .deciding _ => 4
  | .arriving _ => 5

theorem toGo_of_atWork {stage : Stage ι} : stage.atWork = true ↔ stage.toGo = 4 := by
  cases stage <;> simp [atWork, toGo]

end Stage

namespace State

/-! ## One step -/

def enqueued (m : Moment (State ι) (Event ι)) : List ι :=
  match m.event with
  | .schedule c reply => if (m.before.schedule c reply).1 = .accepted then [c] else []
  | .worker w reply =>
    match m.before.stages[w]? with
    | some (.resubmitting c) => if (m.before.schedule c reply).1 = .accepted then [c] else []
    | _ => []
  | _ => []

structure Takes (s : State ι) (e : Event ι) (w : Nat) (c : ι) : Prop where
  event : ∃ reply, e = .worker w reply
  place : s.stages[w]? = some .waiting
  first : s.queue = c :: (s.next e).queue
  after : (s.next e).stages[w]? = some (.arriving c)

/-- Worker `w` starts another unit of work on its connection instead of giving it up. -/
def Reruns (w : Nat) (s : State ι) (e : Event ι) : Prop :=
  ∃ c, s.stages[w]? = some (.deciding c) ∧ (s.next e).stages[w]? = some (.starting c)

section
variable {s s' : State ι} {w : Nat} {reply : Reply} {stage next : Stage ι} {c : ι} {e : Event ι}

theorem accepted_iff : (s.schedule c reply).1 = .accepted ↔ s.isOpen = true ∧ ∃ b, reply = .returned b := by
  rcases s.schedule_cases c reply with ⟨hclosed, hs⟩ | ⟨hopen, fault, rfl, hs⟩ | ⟨hopen, b, rfl, hs⟩
  · simp [hs, hclosed]
  · simp [hs]
  · simp [hs, hopen]

theorem enqueued_closed (hclosed : s.isOpen = false) (e : Event ι) : enqueued ⟨s, e⟩ = [] := by
  have hnot (c : ι) (reply : Reply) : (s.schedule c reply).1 ≠ .accepted := by
    intro h
    rw [(accepted_iff.mp h).1] at hclosed
    cases hclosed
  cases e with
  | schedule c reply => exact if_neg (hnot c reply)
  | worker w reply =>
    simp only [enqueued]
    split
    · exact if_neg (hnot _ _)
    · rfl
  | _ => rfl

theorem Moves.queue_eq (h : Moves s w reply stage next s') (hw : s.stages[w]? = some stage) :
    s'.queue = s.queue ++ enqueued ⟨s, .worker w reply⟩ ∨
      ∃ c, stage = .waiting ∧ next = .arriving c ∧ s.queue = c :: s'.queue ∧
        enqueued ⟨s, .worker w reply⟩ = [] := by
  cases h with
  | take queued => exact .inr ⟨_, rfl, rfl, queued, by simp [enqueued, hw]⟩
  | stopFurther further | stopped further => exact .inl (by simp [enqueued, hw, queue_of_stepClosing further])
  | enqueue isOpen | enqueueFault isOpen | refuse isOpen =>
    exact .inl (by simp [enqueued, hw, schedule, isOpen, record])
  | _ => exact .inl (by simp [enqueued, hw, record, report, caught])

/-- An event puts connections at the end of the queue, or a worker takes the first one. -/
theorem queue_next (s : State ι) (e : Event ι) :
    (s.next e).queue = s.queue ++ enqueued ⟨s, e⟩ ∨ ∃ w c, Takes s e w c ∧ enqueued ⟨s, e⟩ = [] := by
  cases e with
  | schedule c reply =>
    left
    rcases s.schedule_cases c reply with ⟨-, hs⟩ | ⟨-, fault, rfl, hs⟩ | ⟨-, b, rfl, hs⟩ <;>
      simp [State.next, enqueued, hs, record]
  | worker w reply =>
    cases hw : s.stages[w]? with
    | none => simp [State.next, step_of_none hw, enqueued, hw]
    | some stage =>
      obtain ⟨after, s', hm, hs⟩ := step_moves hw reply
      rcases hm.queue_eq hw with hqueue | ⟨c, rfl, rfl, hqueue, hnone⟩
      · left
        rw [State.next, hs]
        exact hqueue
      · refine .inr ⟨w, c, ⟨⟨reply, rfl⟩, hw, ?_, ?_⟩, hnone⟩
        · rw [State.next, hs]
          exact hqueue
        · rw [State.next, hs, setStage_self hw hm.stages_eq]
  | misread w busy =>
    left
    rcases s.misread_cases w busy with hs | ⟨c, hw, after, s', hm, hs⟩
    · rw [State.next, hs]
      exact (List.append_nil _).symm
    · rw [State.next, hs]
      rcases (hm (.returned true)).queue_eq hw with hqueue | ⟨c, h, -⟩
      · simpa [enqueued, hw, setStage] using hqueue
      · cases h
  | beginStop w =>
    left
    rcases s.beginStop_cases w with hs | ⟨c, hw, hs⟩ <;> rw [State.next, hs] <;> exact (List.append_nil _).symm
  | callClose => exact .inl (List.append_nil _).symm
  | caller i => exact .inl ((s.stepCaller_frame i).2.1.trans (List.append_nil _).symm)

theorem closed_stepClosing (hclosed : s.isOpen = false) (self : Option Nat) (point : Closing) :
    (s.stepClosing self point).2.isOpen = false := by
  rcases point with _ | _ | (_ | ⟨v, rest⟩) | _ | _
  · rfl
  · simp only [stepClosing]
    split <;> exact hclosed
  · exact hclosed
  · simp only [stepClosing]
    split <;> exact hclosed
  · exact hclosed
  · exact hclosed

theorem Change.closed (h : Change s e s') (hclosed : s.isOpen = false) : s'.isOpen = false := by
  have hmove {w : Nat} {reply : Reply} {stage next : Stage ι} {s' : State ι}
      (hm : Moves s w reply stage next s') : (s'.setStage w next).isOpen = false := by
    cases hm with
    | @stopFurther _ _ point _ _ further | @stopped _ _ point _ further =>
      have := closed_stepClosing hclosed (some w) point
      rwa [further] at this
    | _ => exact hclosed
  cases h with
  | idle | refuse | fault | enqueue | beginStop | callClose => exact hclosed
  | worker _ move => exact hmove move
  | misread _ move => exact hmove move
  | caller =>
    unfold stepCaller
    split
    · exact hclosed
    · exact closed_stepClosing hclosed none _

/-- Who newly exits finds the queue shut and empty. -/
theorem exited_next (h : Stage.exited ∈ (s.next e).stages) :
    Stage.exited ∈ s.stages ∨ (s.isOpen = false ∧ s.queue = []) := by
  have hmove {w : Nat} {reply : Reply} {stage next : Stage ι} {s' : State ι} (hw : s.stages[w]? = some stage)
      (hm : Moves s w reply stage next s') (h : .exited ∈ (s'.setStage w next).stages) :
      .exited ∈ s.stages ∨ (s.isOpen = false ∧ s.queue = []) := by
    rw [setStage, hm.stages_eq] at h
    rcases List.mem_or_eq_of_mem_set h with hin | rfl
    · exact .inl hin
    · rcases hm.exits with rfl | hend
      · exact .inl (List.mem_of_getElem? hw)
      · exact .inr hend
  have hchange := s.next_change e
  generalize s.next e = s' at h hchange
  cases hchange with
  | idle | refuse | fault | enqueue | callClose => exact .inl h
  | worker place move => exact hmove place move h
  | misread place move => exact hmove place move h
  | beginStop place =>
    rcases List.mem_or_eq_of_mem_set h with hin | heq
    · exact .inl hin
    · cases heq
  | @caller i =>
    rw [(s.stepCaller_frame i).1] at h
    exact .inl h

/-- A worker at the queue takes the first connection. -/
theorem takes_of_waiting (hw : s.stages[w]? = some .waiting) (hne : s.queue ≠ []) (reply : Reply) :
    ∃ c, Takes s (.worker w reply) w c := by
  obtain ⟨after, s', hm, hs⟩ := step_moves hw reply
  have hafter := setStage_self hw hm.stages_eq after
  rw [← hs] at hafter
  cases hm with
  | @take _ c rest queued =>
    refine ⟨c, ⟨reply, rfl⟩, hw, ?_, hafter⟩
    rw [queued, State.next, hs]
    rfl
  | wait drained => exact absurd drained hne
  | exit drained => exact absurd drained hne

theorem stage_moves (hw : s.stages[w]? = some stage) (reply : Reply) :
    ∃ after s', Moves s w reply stage after s' ∧ (s.next (.worker w reply)).stages[w]? = some after := by
  obtain ⟨after, s', hm, hs⟩ := step_moves hw reply
  exact ⟨after, s', hm, by rw [State.next, hs, setStage_self hw hm.stages_eq]⟩

end

section
variable {s : State ι} {w : Nat} {stage : Stage ι} {e : Event ι}

/-- While some worker has exited the queue is shut and empty. -/
def Drained (s : State ι) : Prop := .exited ∈ s.stages → s.isOpen = false ∧ s.queue = []

theorem Drained.next (hd : Drained s) (e : Event ι) : Drained (s.next e) := by
  intro hin
  have hend : s.isOpen = false ∧ s.queue = [] := (exited_next hin).elim hd id
  refine ⟨(s.next_change e).closed hend.1, ?_⟩
  rcases s.queue_next e with hqueue | ⟨w, c, htakes, -⟩
  · rw [hqueue, hend.2, enqueued_closed hend.1, List.append_nil]
  · have hfirst := htakes.first
    rw [hend.2] at hfirst
    cases hfirst

/-- On its way to the queue a worker comes nearer with every move, unless it is at work. -/
theorem Moves.toGo {s' : State ι} {reply : Reply} {next : Stage ι} (h : Moves s w reply stage next s')
    (hpos : 0 < stage.toGo) : next.toGo + (!stage.atWork).toNat ≤ stage.toGo := by
  cases h with
  | take | wait | exit | gone => exact absurd hpos (Nat.lt_irrefl 0)
  | _ => simp [Stage.toGo, Stage.atWork]

/-- Nearer to the decision too, except inside a unit, until it reruns its connection or gives it up. -/
theorem Moves.toDecision {s' : State ι} {reply : Reply} {next : Stage ι} (h : Moves s w reply stage next s')
    (hwork : stage.atWork = true) (hnext : next.atWork = true) :
    (∃ c, stage = .deciding c ∧ next = .starting c) ∨ next.toDecision + (!stage.inUnit).toNat ≤ stage.toDecision := by
  cases h with
  | rerun => exact .inl ⟨_, rfl, rfl⟩
  | _ => simp_all [Stage.atWork, Stage.toDecision, Stage.inUnit]

/-- What moves a worker from its stage: a turn of its own, a reading of the gauge that is out of
    date, or a unit of work that closes the pool. -/
theorem stage_change (hw : s.stages[w]? = some stage) (e : Event ι) :
    ((∀ reply, e ≠ .worker w reply) ∧ (s.next e).stages[w]? = some stage) ∨
      ∃ after, (s.next e).stages[w]? = some after ∧
        ((∃ reply s', e = .worker w reply ∧ Moves s w reply stage after s') ∨
          (∃ s', stage.atWork = true ∧ Moves s w (.returned true) stage after s' ∧ ∀ reply, e ≠ .worker w reply) ∨
          ∃ c, stage = .working c ∧ after = .stopping c .entered ∧ ∀ reply, e ≠ .worker w reply) := by
  cases e with
  | schedule c reply =>
    left
    rcases s.schedule_cases c reply with ⟨-, hs⟩ | ⟨-, fault, rfl, hs⟩ | ⟨-, b, rfl, hs⟩ <;>
      exact ⟨by simp, by rw [State.next, hs]; exact hw⟩
  | worker v reply =>
    by_cases hvw : v = w
    · subst hvw
      obtain ⟨after, s', hm, hafter⟩ := stage_moves hw reply
      exact .inr ⟨after, hafter, .inl ⟨reply, s', rfl, hm⟩⟩
    · refine .inl ⟨fun reply' h => ?_, ?_⟩
      · cases h
        exact hvw rfl
      · cases hv : s.stages[v]? with
        | none => rw [State.next, step_of_none hv, hw]
        | some stage' =>
          obtain ⟨after, s', hm, hs⟩ := step_moves hv reply
          rw [State.next, hs, setStage_ne hvw hm.stages_eq, hw]
  | misread v busy =>
    rcases s.misread_cases v busy with hs | ⟨c, hv, after, s', hm, hs⟩
    · exact .inl ⟨by simp, by rw [State.next, hs, hw]⟩
    · have hm := hm (.returned true)
      rw [State.next, hs]
      by_cases hvw : v = w
      · subst hvw
        obtain rfl := Option.some.inj (hw.symm.trans hv)
        exact .inr ⟨after, setStage_self hv hm.stages_eq after, .inr (.inl ⟨s', rfl, hm, by simp⟩)⟩
      · exact .inl ⟨by simp, (setStage_ne hvw hm.stages_eq after).trans hw⟩
  | beginStop v =>
    rcases s.beginStop_cases v with hs | ⟨c, hv, hs⟩
    · exact .inl ⟨by simp, by rw [State.next, hs, hw]⟩
    · rw [State.next, hs]
      by_cases hvw : v = w
      · subst hvw
        obtain rfl := Option.some.inj (hw.symm.trans hv)
        exact .inr ⟨_, setStage_self hv rfl _, .inr (.inr ⟨c, rfl, rfl, by simp⟩)⟩
      · exact .inl ⟨by simp, (setStage_ne hvw rfl _).trans hw⟩
  | callClose => exact .inl ⟨by simp, hw⟩
  | caller i => exact .inl ⟨by simp, by rw [State.next, (s.stepCaller_frame i).1, hw]⟩

/-- A worker stays where it is, or it is its turn, or it is at work; and it never goes back
    on its way to the queue. -/
theorem stage_next (hw : s.stages[w]? = some stage) (e : Event ι) :
    (s.next e).stages[w]? = some stage ∨
      ((∃ reply, e = .worker w reply) ∨ stage.atWork = true) ∧
        ∃ after, (s.next e).stages[w]? = some after ∧ (0 < stage.toGo → after.toGo ≤ stage.toGo) := by
  rcases stage_change hw e with
    ⟨-, hsame⟩ | ⟨after, hafter, ⟨reply, s', hturn, hm⟩ | ⟨s', hwork, hm, -⟩ | ⟨c, rfl, rfl, -⟩⟩
  · exact .inl hsame
  · exact .inr ⟨.inl ⟨reply, hturn⟩, after, hafter, fun hpos => (Nat.le_add_right ..).trans (hm.toGo hpos)⟩
  · exact .inr ⟨.inr hwork, after, hafter, fun hpos => (Nat.le_add_right ..).trans (hm.toGo hpos)⟩
  · exact .inr ⟨.inr rfl, _, hafter, fun _ => Nat.le_refl 4⟩

/-- A worker that stays at work reruns its connection, or comes no farther from the decision; and
    it comes nearer in a turn of its own, except inside a unit. -/
theorem work_next (hw : s.stages[w]? = some stage) (hwork : stage.atWork = true) (e : Event ι)
    (hstays : ∀ after, (s.next e).stages[w]? = some after → after.atWork = true) (hnot : ¬Reruns w s e) :
    ∃ after, (s.next e).stages[w]? = some after ∧ after.toDecision ≤ stage.toDecision ∧
      ((∃ reply, e = .worker w reply) → stage.inUnit = false → after.toDecision < stage.toDecision) := by
  have hmove {reply : Reply} {after : Stage ι} {s' : State ι} (hafter : (s.next e).stages[w]? = some after)
      (hm : Moves s w reply stage after s') : after.toDecision + (!stage.inUnit).toNat ≤ stage.toDecision := by
    rcases hm.toDecision hwork (hstays after hafter) with ⟨c, rfl, rfl⟩ | hle
    · exact absurd ⟨c, hw, hafter⟩ hnot
    · exact hle
  rcases stage_change hw e with
    ⟨hother, hsame⟩ | ⟨after, hafter, ⟨reply, s', -, hm⟩ | ⟨s', -, hm, hother⟩ | ⟨c, rfl, rfl, hother⟩⟩
  · exact ⟨stage, hsame, Nat.le_refl _, fun ⟨reply, hturn⟩ => absurd hturn (hother reply)⟩
  · have hle := hmove hafter hm
    refine ⟨after, hafter, by omega, fun _ hout => ?_⟩
    rw [hout] at hle
    exact hle
  · have hle := hmove hafter hm
    exact ⟨after, hafter, by omega, fun ⟨reply, hturn⟩ => absurd hturn (hother reply)⟩
  · exact ⟨_, hafter, Nat.le_refl 3, fun ⟨reply, hturn⟩ => absurd hturn (hother reply)⟩

/-- A worker that is not at work stays where it is until it is its turn. -/
theorem stage_stays (hw : s.stages[w]? = some stage) (hrest : stage.atWork = false)
    (he : ∀ reply, e ≠ .worker w reply) : (s.next e).stages[w]? = some stage := by
  rcases s.stage_next hw e with hsame | ⟨⟨reply, hturn⟩ | hwork, -⟩
  · exact hsame
  · exact absurd hturn (he reply)
  · rw [hrest] at hwork
    cases hwork

theorem exited_next_stays (hw : s.stages[w]? = some .exited) (e : Event ι) :
    (s.next e).stages[w]? = some .exited := by
  by_cases hown : ∃ reply, e = .worker w reply
  · obtain ⟨reply, rfl⟩ := hown
    obtain ⟨after, s', hm, hafter⟩ := stage_moves hw reply
    cases hm
    exact hafter
  · exact stage_stays hw rfl fun reply h => hown ⟨reply, h⟩

end

/-! ## Endless runs -/

section
variable (size : Nat) (events : Nat → Event ι)

def atTime (t : Nat) : State ι := reached State.next (ofSize size) events t

def pastAt (t : Nat) : List (Moment (State ι) (Event ι)) := upTo State.next (ofSize size) events t

/-- Every worker goes on again and again. -/
def Fair : Prop := ∀ w < size, ∀ t, ∃ u, t ≤ u ∧ ∃ reply, events u = .worker w reply

/-- Units of work end: no worker is in one for ever. -/
def UnitsEnd : Prop :=
  ∀ w < size, ∀ t, ∃ u, t ≤ u ∧ ∀ stage, (atTime size events u).stages[w]? = some stage → stage.inUnit = false

/-- From time `t` on worker `w` does unit of work after unit of work on one connection. -/
structure RerunsForEver (w t : Nat) : Prop where
  busy : ∀ u, t ≤ u → ∀ stage, (atTime size events u).stages[w]? = some stage → stage.atWork = true
  again : ∀ u, t ≤ u → ∃ v, u ≤ v ∧ Reruns w (atTime size events v) (events v)

def Rests (w : Nat) : Prop :=
  ∀ t, ∃ u, t ≤ u ∧ ∀ stage, (atTime size events u).stages[w]? = some stage → stage.atWork = false

end

section
variable {size : Nat} {events : Nat → Event ι}

theorem atTime_succ (t : Nat) : atTime size events (t + 1) = (atTime size events t).next (events t) := rfl

theorem atTime_eq (t : Nat) : atTime size events t = final State.next (ofSize size) ((List.range t).map events) :=
  (endless_begins _ events t).2.symm

theorem pastAt_eq (t : Nat) :
    pastAt size events t = moments State.next (ofSize size) ((List.range t).map events) :=
  (endless_begins _ events t).1.symm

theorem mem_pastAt {i t : Nat} (h : i < t) : ⟨atTime size events i, events i⟩ ∈ pastAt size events t :=
  List.mem_map.mpr ⟨i, List.mem_range.mpr h, rfl⟩

theorem pastAt_succ (t : Nat) :
    pastAt size events (t + 1) = pastAt size events t ++ [⟨atTime size events t, events t⟩] := by
  simp only [pastAt, upTo, List.range_succ, List.map_append, List.map_singleton]
  rfl

/-- If connections have one owner until nothing is offered any more, they always have. -/
theorem ownedAt {n : Nat} (owned : Owned (pastAt size events n))
    (later : ∀ t, n ≤ t → offered ⟨atTime size events t, events t⟩ = []) (t : Nat) : Owned (pastAt size events t) := by
  rcases Nat.le_total n t with h | h
  · induction t, h using Nat.le_induction with
    | base => exact owned
    | succ t hnt ih =>
      rw [pastAt_succ]
      exact ih.snoc_of_offered_nil (later t hnt)
  · obtain ⟨d, rfl⟩ := Nat.exists_eq_add_of_le h
    clear h later
    induction d with
    | zero => exact owned
    | succ d ih =>
      rw [← Nat.add_assoc, pastAt_succ] at owned
      exact ih owned.of_snoc.1

theorem booksAt (t : Nat) : Books size (pastAt size events t) (atTime size events t) := by
  rw [pastAt_eq, atTime_eq]
  exact books size _

theorem drainedAt (t : Nat) : Drained (atTime size events t) := by
  induction t with
  | zero =>
    intro hin
    cases List.eq_of_mem_replicate hin
  | succ t ih => exact ih.next (events t)

theorem closedAt {k t : Nat} (hclosed : (atTime size events k).isOpen = false) (h : k ≤ t) :
    (atTime size events t).isOpen = false := by
  induction t, h using Nat.le_induction with
  | base => exact hclosed
  | succ t _ ih => exact ((atTime size events t).next_change (events t)).closed ih

theorem exists_stage {w : Nat} (hw : w < size) (t : Nat) :
    ∃ stage, (atTime size events t).stages[w]? = some stage :=
  ⟨_, List.getElem?_eq_getElem ((booksAt t).workers.symm ▸ hw)⟩

theorem lt_size {w t : Nat} {stage : Stage ι} (h : (atTime size events t).stages[w]? = some stage) : w < size := by
  have hlt := (List.getElem?_eq_some_iff.mp h).1
  rwa [(booksAt t).workers] at hlt

theorem next_turn (fair : Fair size events) {w t : Nat} {stage : Stage ι} (hw : w < size)
    (hstage : (atTime size events t).stages[w]? = some stage) (hrest : stage.atWork = false) :
    ∃ u, t ≤ u ∧ ∃ reply, events u = .worker w reply ∧ (atTime size events u).stages[w]? = some stage := by
  obtain ⟨u, hle, ⟨reply, hturn⟩, hstill⟩ := holds_until (P := fun u => (atTime size events u).stages[w]? = some stage)
    hstage (fair w hw t) fun u _ hother hu => stage_stays hu hrest fun reply h => hother ⟨reply, h⟩
  exact ⟨u, hle, reply, hturn, hstill⟩

/-- From time `t` on no event takes worker `w` farther from a decision, and a turn of its own
    outside units takes it nearer. -/
def Approaches (size : Nat) (events : Nat → Event ι) (w t : Nat) : Prop :=
  ∀ u, t ≤ u → ∀ stage, (atTime size events u).stages[w]? = some stage →
    ∃ after, (atTime size events (u + 1)).stages[w]? = some after ∧ after.toDecision ≤ stage.toDecision ∧
      ((∃ reply, events u = .worker w reply) → stage.inUnit = false → after.toDecision < stage.toDecision)

/-- It does not go farther, however long it takes. -/
theorem Approaches.keeps {w t n v : Nat} (h : Approaches size events w t) (htv : t ≤ v)
    (hv : ∃ stage, (atTime size events v).stages[w]? = some stage ∧ stage.toDecision ≤ n) :
    ∃ stage, (atTime size events (v + 1)).stages[w]? = some stage ∧ stage.toDecision ≤ n := by
  obtain ⟨stage, hstage, hle⟩ := hv
  obtain ⟨after, hafter, hnear, -⟩ := h v htv stage hstage
  exact ⟨after, hafter, hnear.trans hle⟩

/-- Some time it is nearer. -/
theorem Approaches.nearer (fair : Fair size events) (units : UnitsEnd size events) {w t u : Nat} (hw : w < size)
    (h : Approaches size events w t) (htu : t ≤ u) {stage : Stage ι}
    (hstage : (atTime size events u).stages[w]? = some stage) :
    ∃ v, u ≤ v ∧ ∃ later, (atTime size events v).stages[w]? = some later ∧ later.toDecision < stage.toDecision := by
  have hnow : ∃ after, (atTime size events u).stages[w]? = some after ∧ after.toDecision ≤ stage.toDecision :=
    ⟨stage, hstage, Nat.le_refl _⟩
  have hkeep : ∀ v, u ≤ v →
      (∃ after, (atTime size events v).stages[w]? = some after ∧ after.toDecision ≤ stage.toDecision) →
      ∃ after, (atTime size events (v + 1)).stages[w]? = some after ∧ after.toDecision ≤ stage.toDecision :=
    fun v huv => h.keeps (htu.trans huv)
  by_cases hunit : stage.inUnit = true
  · -- it comes out of the unit, and then is nearer
    have hthree := Stage.toDecision_of_inUnit.mp hunit
    obtain ⟨v, huv, hout, after, hafter, hle⟩ := holds_until hnow (units w hw u) fun v huv _ => hkeep v huv
    have hne : after.toDecision ≠ 3 := by
      intro heq
      have hin := hout after hafter
      rw [Stage.toDecision_of_inUnit.mpr heq] at hin
      cases hin
    exact ⟨v, huv, after, hafter, by omega⟩
  · -- its turn comes, and it is in a unit by then or comes nearer
    have hne : stage.toDecision ≠ 3 := fun heq => hunit (Stage.toDecision_of_inUnit.mpr heq)
    obtain ⟨v, huv, hturn, after, hafter, hle⟩ := holds_until hnow (fair w hw u) fun v huv _ => hkeep v huv
    by_cases hin : after.inUnit = true
    · have hthree := Stage.toDecision_of_inUnit.mp hin
      exact ⟨v, huv, after, hafter, by omega⟩
    · obtain ⟨later, hlater, -, hlt⟩ := h v (by omega) after hafter
      have hlt := hlt hturn (Bool.eq_false_of_not_eq_true hin)
      exact ⟨v + 1, by omega, later, hlater, by omega⟩

/-- But it cannot come nearer for ever. -/
theorem not_approaches (fair : Fair size events) (units : UnitsEnd size events) {w t : Nat} (hw : w < size) :
    ¬Approaches size events w t := by
  intro h
  have hdescend : ∀ n u stage, t ≤ u → (atTime size events u).stages[w]? = some stage → stage.toDecision ≠ n := by
    intro n
    induction n using Nat.strong_induction_on with
    | _ n ih =>
      intro u stage htu hstage hn
      obtain ⟨v, huv, later, hlater, hlt⟩ := h.nearer fair units hw htu hstage
      exact ih later.toDecision (by omega) v later (by omega) hlater rfl
  obtain ⟨stage, hstage⟩ : ∃ stage, (atTime size events t).stages[w]? = some stage := exists_stage hw t
  exact hdescend _ t stage (Nat.le_refl t) hstage rfl

/-- A worker gives its connection up some time, or it reruns it. -/
theorem rests_or_reruns (fair : Fair size events) (units : UnitsEnd size events) {w : Nat} (hw : w < size) (t : Nat) :
    ∃ u, t ≤ u ∧ ((∀ stage, (atTime size events u).stages[w]? = some stage → stage.atWork = false) ∨
      Reruns w (atTime size events u) (events u)) := by
  by_contra hnever
  have hbusy : ∀ u, t ≤ u → ∀ stage, (atTime size events u).stages[w]? = some stage → stage.atWork = true := by
    intro u hu stage hstage
    by_contra hrest
    refine hnever ⟨u, hu, .inl fun stage' hstage' => ?_⟩
    rw [← Option.some.inj (hstage.symm.trans hstage')]
    exact Bool.eq_false_of_not_eq_true hrest
  refine not_approaches fair units hw (t := t) fun u hu stage hstage => ?_
  exact work_next hstage (hbusy u hu stage hstage) (events u) (hbusy (u + 1) (by omega)) fun hrerun =>
    hnever ⟨u, hu, .inr hrerun⟩

/-- So a worker that does not rerun for ever rests again and again. -/
theorem rests (fair : Fair size events) (units : UnitsEnd size events) {w : Nat} (hw : w < size)
    (ends : ∀ t, ¬RerunsForEver size events w t) : Rests size events w := by
  intro t
  by_contra hnever
  refine ends t ⟨fun u hu stage hstage => ?_, fun u hu => ?_⟩
  · by_contra hrest
    refine hnever ⟨u, hu, fun stage' hstage' => ?_⟩
    rw [← Option.some.inj (hstage.symm.trans hstage')]
    exact Bool.eq_false_of_not_eq_true hrest
  · obtain ⟨v, huv, hrest | hrerun⟩ := rests_or_reruns fair units hw u
    · exact absurd ⟨v, hu.trans huv, hrest⟩ hnever
    · exact ⟨v, huv, hrerun⟩

/-- A worker at work comes nearer to the queue when its work ends. -/
theorem work_done {w t : Nat} {stage : Stage ι} (rests : Rests size events w)
    (hstage : (atTime size events t).stages[w]? = some stage) (hwork : stage.atWork = true) :
    ∃ u, t ≤ u ∧ ∃ after, (atTime size events u).stages[w]? = some after ∧ after.toGo < stage.toGo := by
  obtain ⟨u, htu, hrest, after, hafter, hle⟩ :=
    holds_until (P := fun u => ∃ after, (atTime size events u).stages[w]? = some after ∧ after.toGo ≤ stage.toGo)
      ⟨stage, hstage, Nat.le_refl _⟩ (rests t) <| by
        rintro u - hstill ⟨after, hafter, hle⟩
        have hbusy : after.atWork = true := by
          by_contra hrest
          refine hstill fun stage' hstage' => ?_
          rw [← Option.some.inj (hafter.symm.trans hstage')]
          exact Bool.eq_false_of_not_eq_true hrest
        have hfour := Stage.toGo_of_atWork.mp hbusy
        rcases (atTime size events u).stage_next hafter (events u) with hsame | ⟨-, later, hlater, hnear⟩
        · exact ⟨after, hsame, hle⟩
        · exact ⟨later, hlater, (hnear (by omega)).trans hle⟩
  have hfour := Stage.toGo_of_atWork.mp hwork
  have hout : after.toGo ≠ 4 := fun h => by
    have := hrest after hafter
    rw [Stage.toGo_of_atWork.mpr h] at this
    cases this
  exact ⟨u, htu, after, hafter, by omega⟩

/-- Every worker that rests comes back to the queue, unless it has exited. -/
theorem comes_back (fair : Fair size events) {w : Nat} (hw : w < size) (rests : Rests size events w) (t : Nat) :
    ∃ u, t ≤ u ∧ ((atTime size events u).stages[w]? = some .waiting ∨
      (atTime size events u).stages[w]? = some .exited) := by
  obtain ⟨stage, hstage⟩ : ∃ stage, (atTime size events t).stages[w]? = some stage := exists_stage hw t
  generalize hn : stage.toGo = n
  -- by induction on how far it is from the queue
  induction n using Nat.strong_induction_on generalizing t stage with
  | _ n ih =>
    by_cases hwork : stage.atWork = true
    · obtain ⟨u, htu, after, hafter, hlt⟩ := work_done rests hstage hwork
      obtain ⟨v, huv, hback⟩ := ih after.toGo (by omega) u after hafter rfl
      exact ⟨v, by omega, hback⟩
    · by_cases hpos : 0 < stage.toGo
      · obtain ⟨u, htu, reply, hturn, hu⟩ := next_turn fair hw hstage (Bool.eq_false_of_not_eq_true hwork)
        obtain ⟨after, s', hm, hafter⟩ := stage_moves hu reply
        rw [← hturn, ← atTime_succ] at hafter
        have hnear := hm.toGo hpos
        rw [Bool.eq_false_of_not_eq_true hwork] at hnear
        have hlt : after.toGo + 1 ≤ stage.toGo := hnear
        obtain ⟨v, huv, hback⟩ := ih after.toGo (by omega) (u + 1) after hafter rfl
        exact ⟨v, by omega, hback⟩
      · refine ⟨t, Nat.le_refl t, ?_⟩
        cases stage with
        | waiting => exact .inl hstage
        | exited => exact .inr hstage
        | _ => simp [Stage.toGo] at hpos

/-- While something is queued, some worker takes from the queue some time, if one of them rests. -/
theorem takes_some_time (fair : Fair size events) {w : Nat} (hw : w < size) (rests : Rests size events w) {t : Nat}
    (hne : (atTime size events t).queue ≠ []) :
    ∃ u, t ≤ u ∧ ∃ w c, Takes (atTime size events u) (events u) w c := by
  by_contra hnever
  -- if nobody takes, the queue never gets empty
  have hlong : ∀ u, t ≤ u → (atTime size events u).queue ≠ [] := by
    intro u hu
    induction u, hu using Nat.le_induction with
    | base => exact hne
    | succ u hu ih =>
      rcases (atTime size events u).queue_next (events u) with hqueue | ⟨w, c, htakes, -⟩
      · rw [atTime_succ, hqueue]
        exact List.append_ne_nil_of_left_ne_nil ih _
      · exact absurd ⟨u, hu, w, c, htakes⟩ hnever
  -- so the worker that rests, when it is back and its turn comes, does take
  obtain ⟨u, htu, hwaiting | hexited⟩ := comes_back fair hw rests t
  · obtain ⟨v, huv, reply, hturn, hv⟩ := next_turn fair hw hwaiting rfl
    have htv : t ≤ v := htu.trans huv
    obtain ⟨c, htakes⟩ := takes_of_waiting hv (hlong v htv) reply
    exact hnever ⟨v, htv, w, c, hturn ▸ htakes⟩
  · exact hlong u htu (drainedAt u (List.mem_of_getElem? hexited)).2

/-- The first connection on the queue is the next that is taken; the others move up. -/
theorem first_taken (fair : Fair size events) {w : Nat} (hw : w < size) (rests : Rests size events w) {t : Nat} {c : ι}
    {rest : List ι} (hqueue : (atTime size events t).queue = c :: rest) :
    ∃ u, t ≤ u ∧ (∃ w, Takes (atTime size events u) (events u) w c) ∧
      ∃ more, (atTime size events (u + 1)).queue = rest ++ more := by
  have hsome := takes_some_time fair hw rests (t := t) (by rw [hqueue]; exact List.cons_ne_nil c rest)
  obtain ⟨u, htu, ⟨w, d, htakes⟩, more, hmore⟩ :=
    holds_until (P := fun u => ∃ more, (atTime size events u).queue = c :: rest ++ more)
      ⟨[], by rw [hqueue, List.append_nil]⟩ hsome <| by
        rintro u - hnot ⟨more, hmore⟩
        rcases (atTime size events u).queue_next (events u) with hsame | ⟨w, d, htakes, -⟩
        · refine ⟨more ++ enqueued ⟨atTime size events u, events u⟩, ?_⟩
          rw [atTime_succ, hsame, hmore, List.append_assoc]
        · exact absurd ⟨w, d, htakes⟩ hnot
  have hfirst := htakes.first
  rw [hmore] at hfirst
  obtain ⟨rfl, hrest⟩ := List.cons.inj hfirst
  exact ⟨u, htu, ⟨w, htakes⟩, more, hrest.symm⟩

/-- Every connection on the queue is taken some time. -/
theorem queued_taken (fair : Fair size events) {w : Nat} (hw : w < size) (rests : Rests size events w) {t : Nat} {c : ι}
    (hc : c ∈ (atTime size events t).queue) : ∃ u, t ≤ u ∧ ∃ w, Takes (atTime size events u) (events u) w c := by
  obtain ⟨ahead, behind, hqueue⟩ := List.append_of_mem hc
  -- by induction on the connections that are ahead of it
  clear hc
  induction ahead generalizing t behind with
  | nil =>
    obtain ⟨u, htu, htakes, -⟩ := first_taken fair hw rests hqueue
    exact ⟨u, htu, htakes⟩
  | cons d ahead ih =>
    obtain ⟨u, htu, -, more, hnext⟩ := first_taken fair hw rests hqueue
    obtain ⟨v, huv, htakes⟩ := ih (behind ++ more) (by rw [hnext]; exact List.append_assoc ahead _ more)
    exact ⟨v, by omega, htakes⟩

/-- Every connection on the queue is told some time that a worker has it. -/
theorem queued_runs (fair : Fair size events) {w : Nat} (hw : w < size) (rests : Rests size events w) {t : Nat} {c : ι}
    (hc : c ∈ (atTime size events t).queue) :
    ∃ u, t ≤ u ∧ ∃ reply, (c, .notify .running, reply) ∈ calls ⟨atTime size events u, events u⟩ := by
  obtain ⟨u, htu, w, htakes⟩ := queued_taken fair hw rests hc
  have hafter : (atTime size events (u + 1)).stages[w]? = some (.arriving c) := htakes.after
  obtain ⟨v, huv, reply, hturn, hv⟩ := next_turn fair (lt_size hafter) hafter rfl
  exact ⟨v, by omega, reply, by simp [calls, nextCall, hturn, hv]⟩

/-- Where every worker reruns for ever, whatever is queued stays queued. -/
theorem starved {t : Nat} (busy : ∀ w < size, RerunsForEver size events w t) {c : ι}
    (hc : c ∈ (atTime size events t).queue) {u : Nat} (htu : t ≤ u) : c ∈ (atTime size events u).queue := by
  induction u, htu using Nat.le_induction with
  | base => exact hc
  | succ u hu ih =>
    rcases (atTime size events u).queue_next (events u) with hqueue | ⟨w, d, htakes, -⟩
    · rw [atTime_succ, hqueue]
      exact List.mem_append_left _ ih
    · have hwork := (busy w (lt_size htakes.place)).busy u hu .waiting htakes.place
      cases hwork

end

end State

end MessageBroker.Pool
